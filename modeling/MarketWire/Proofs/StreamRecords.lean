import MarketWire.Proofs.StreamCalls

/-!
# All records of a stream

A stream that is asked for one record after another gives out all that a decoder gives when it is
handed all bytes at once, and ends as it must. So what a stream holds can be told from the bytes
alone: the metadata at their front, the frames behind it, and what is left behind the last frame.

## Main definitions

* `RecordStream.takeAll` — all records of a stream, and the stream behind them.

## Main results

* `DecodingStream.takeAll_eq` — a decoded stream gives out all records and has finished then.
* `finalOutcome_eq_ok_iff` — it ends well if the frames make up all of the bytes.
-/

namespace MarketWire

/-! ### Taking all records -/

namespace RecordStream

variable {ς : Type} [RecordStream ς]

/-- All records that a stream gives out, and the stream behind the last of them. -/
def takeAll (s : ς) : List Record × ς :=
  match _h : (next s).1 with
  | some r =>
    let (rs, last) := takeAll (next s).2
    (r :: rs, last)
  | none => ([], (next s).2)
termination_by rank s
decreasing_by exact rank_next s r _h

end RecordStream

namespace DecodingStream

variable {bs : Bytes} {given : List Record} {s : DecodingStream MemorySource}

/-- **All records come out, and then the stream has finished.** -/
theorem Tracks.takeAll (h : Tracks bs given s) (hsettled : Settled bs s) :
    given ++ (RecordStream.takeAll s).1 = (Standing.whole bs).1.records ∧
      Finished bs (RecordStream.takeAll s).2 := by
  fun_induction RecordStream.takeAll s generalizing given with
  | case1 s r hnext rs last htaken ih =>
    obtain ⟨htracks, hbehind, -⟩ := advances_next h hsettled
    have hrecord : s.next.1 = some r := hnext
    rw [hrecord, Option.toList_some] at htracks
    obtain ⟨hrecords, hfinished⟩ := ih htracks hbehind
    rw [htaken] at hrecords hfinished
    rw [List.append_assoc] at hrecords
    exact ⟨hrecords, hfinished⟩
  | case2 s hnext =>
    obtain ⟨htracks, -, hfinished⟩ := advances_next h hsettled
    have hnone : s.next.1 = none := hnext
    rw [hnone, Option.toList_none] at htracks
    exact ⟨htracks.records_of_finished (hfinished hnone), hfinished hnone⟩

/-- What comes out of a stream whose metadata was read first. -/
theorem takeAll_readMetadata (bs : Bytes) {chunkSize : Nat} (hchunk : 0 < chunkSize) :
    let read := (overBytes bs chunkSize).readMetadata
    (RecordStream.takeAll read.2).1 = (Standing.whole bs).1.records ∧
      (RecordStream.takeAll read.2).2.outcome = finalOutcome bs ∧
      (∀ metadata, read.2.metadata? = some metadata →
        (Standing.whole bs).2.phase.metadata? = some metadata) ∧
      ∀ metadata, (Standing.whole bs).2.phase.metadata? = some metadata →
        read.1 = .ok () ∧ read.2.metadata? = some metadata := by
  intro read
  have hread : ReadsMetadata bs [] read :=
    readsMetadata (tracks_overBytes bs hchunk) (.waiting (waiting_overBytes bs chunkSize))
  obtain ⟨hrecords, hfinished⟩ := hread.tracks.takeAll hread.settled
  refine ⟨hrecords, hfinished.outcome, fun _ => hread.tracks.metadata?_eq, ?_⟩
  intro metadata hwhole
  rcases hread.outcome with ⟨hok, hsome⟩ | ⟨-, hnone⟩
  · obtain ⟨found, hfound⟩ := Option.isSome_iff_exists.mp hsome
    rw [hread.tracks.metadata?_eq hfound] at hwhole
    exact ⟨hok, hfound.trans hwhole⟩
  · rw [hnone] at hwhole
    cases hwhole

end DecodingStream

/-! ### What the bytes hold -/

namespace Metadata

/-- Metadata that stands at the front has its size announced and can be read. -/
theorem parse_of_atFront {bs : Bytes} {m : Metadata} {length : Nat}
    (h : atFront bs = .ok (some (m, length))) :
    peekLength bs = .ok (some length) ∧ parse (bs.take length) = .ok m := by
  rw [atFront] at h
  split at h
  · cases h
  · cases h
  · rename_i size hsize
    split at h
    · cases h
    · split at h
      · cases h
      · rename_i metadata hparse
        cases h
        exact ⟨hsize, hparse⟩

end Metadata

namespace Standing

variable {bs : Bytes} {m : Metadata} {length : Nat}

/-- The metadata that a decoder comes upon stands at the front. -/
theorem exists_atFront_of_metadata? (h : (whole bs).2.phase.metadata? = some m) :
    ∃ length, Metadata.atFront bs = .ok (some (m, length)) := by
  have hunread : (fresh.write bs).unread = bs := rfl
  have hphase : (fresh.write bs).phase = .awaitingMetadata := rfl
  rw [whole, call, hphase, hunread] at h
  cases hfront : Metadata.atFront bs with
  | error fault =>
    rw [hfront] at h
    cases h
  | ok found =>
    rw [hfront] at h
    cases found with
    | none => cases h
    | some found =>
      obtain ⟨metadata, length⟩ := found
      have hmetadata : metadata = m := Option.some.inj ((metadata?_after metadata _).symm.trans h)
      exact ⟨length, by rw [hmetadata]⟩

end Standing

/-- A stream ends well if the frames behind the metadata make up all of the bytes. -/
theorem finalOutcome_eq_ok_iff {bs : Bytes} {m : Metadata} {length : Nat}
    (h : Metadata.atFront bs = .ok (some (m, length))) :
    finalOutcome bs = .ok () ↔ (segment length (bs.drop length)).rest = [] := by
  obtain ⟨-, hfront⟩ := front_segment_rest length (bs.drop length)
  have hwhole := Decoder.whole_of_atFront h
  have hmetadata : (Standing.whole bs).2.phase.metadata? = some m := by
    rw [hwhole]
    exact metadata?_after m _
  have houtcome : (Standing.whole bs).1.outcome = (segment length (bs.drop length)).outcome := by
    rw [hwhole]
    rfl
  have hunread : (Standing.whole bs).2.unread = (segment length (bs.drop length)).rest := by
    rw [hwhole]
    rfl
  rw [finalOutcome_eq, houtcome, hmetadata, hunread]
  cases hcut : (segment length (bs.drop length)).outcome with
  | error fault =>
    -- A header that is not in order is left over, so there is a rest.
    refine ⟨nofun, fun hrest => ?_⟩
    rw [hcut, hrest] at hfront
    cases hfront
  | ok =>
    by_cases hrest : (segment length (bs.drop length)).rest = []
    · simp [hrest]
    · simp [hrest, List.length_pos_iff]

end MarketWire
