import MarketWire.RecordStream.Basic
import MarketWire.Decoder.Basic
import MarketWire.Source.Basic

/-!
# Streams decoded from a source

The bytes of a source are read in pieces of a fixed size and handed to a decoder. Records that came
out together are queued; when the queue is empty the decoder is asked again, and only when it has
nothing more is the next piece read. A fault that was found behind queued records is kept back
until they have been given out.

At the end of the source the stream has ended well if no byte is left over.

## Main definitions

* `DecodingStream` — the state of such a stream.
* `DecodingStream.readMetadata` — reads on until the metadata is there.
* `DecodingStream.next` — the next record.
-/

namespace MarketWire

/-- A stream of the records that a source holds. -/
structure DecodingStream (σ : Type) where
  /-- The source. -/
  source : σ
  /-- The size of the pieces. -/
  chunkSize : Nat
  /-- The decoder. -/
  decoder : Decoder := .fresh
  /-- The number of bytes read. -/
  offset : Nat := 0
  /-- The records decoded and not given out yet. -/
  queue : List Record := []
  /-- The fault that ended the stream. -/
  fault : Option Fault := none
  /-- The fault behind the queued records. -/
  pending : Option Fault := none
  /-- Whether the source has ended. -/
  exhausted : Bool := false
  /-- The records passed over so far. -/
  problems : List Fault := []

namespace DecodingStream

/-- The size of the pieces unless another one is asked for. -/
def defaultChunkSize : Nat := 64 * 1024

variable {σ : Type}

/-- The metadata, once it is decoded. -/
def metadata? (s : DecodingStream σ) : Option Metadata :=
  s.decoder.metadata?

/-- Success, or the fault that ended the stream. -/
def outcome (s : DecodingStream σ) : Outcome :=
  match s.fault with
  | some fault => .error fault
  | none => .ok ()

/-- Whether there is nothing more to read or decode. -/
def ended (s : DecodingStream σ) : Bool :=
  s.fault.isSome || s.exhausted

/-- Decodes what has been read. -/
def fillQueue (s : DecodingStream σ) : Outcome × DecodingStream σ :=
  let (batch, decoder) := s.decoder.decodeViews
  (batch.outcome,
    { s with
      decoder := decoder
      queue := batch.items.map View.record
      problems := s.problems ++ batch.problems })

variable [Source σ]

/-- Reads a piece and says whether there was one. -/
def readChunk (s : DecodingStream σ) : Bool × DecodingStream σ :=
  let (bs, source) := Source.read s.source s.offset s.chunkSize
  if bs.isEmpty then
    (false, { s with source := source })
  else
    (true,
      { s with source := source, decoder := s.decoder.write bs, offset := s.offset + bs.length })

/-- Why a stream whose source gives nothing more has not ended well, if it has not. -/
def endFault (s : DecodingStream σ) : Option Fault :=
  let size := Source.size s.source
  match Source.fault? s.source with
  | some fault => some fault
  | none =>
    if s.offset < size then
      some (.emptyRead s.chunkSize s.offset size)
    else if s.metadata?.isNone then
      some (.endedInPreamble s.offset)
    else if 0 < s.decoder.unreadSize then
      some (.endedInRecord s.decoder.unreadSize s.decoder.consumed)
    else
      none

/-- Ends the stream. -/
def finish (s : DecodingStream σ) : DecodingStream σ :=
  { s with exhausted := true, fault := s.endFault }

/-- The number of bytes that the source can still give. -/
def unreadExtent (s : DecodingStream σ) : Nat :=
  Source.extent s.source - s.offset

/-- A piece that was read is one less to read. -/
theorem unreadExtent_readChunk_lt {s : DecodingStream σ} (h : s.readChunk.1 = true) :
    s.readChunk.2.unreadExtent < s.unreadExtent := by
  have hread := Source.read_of_extent_le s.source s.offset s.chunkSize
  have hextent := Source.extent_read s.source s.offset s.chunkSize
  simp only [readChunk] at h ⊢
  split at h
  · simp at h
  · rename_i hempty
    rw [if_neg hempty]
    have hpos : 0 < (Source.read s.source s.offset s.chunkSize).1.length :=
      List.length_pos_iff.mpr (by simpa using hempty)
    have hlt : s.offset < Source.extent s.source := by
      apply Nat.lt_of_not_le
      intro hle
      rw [hread hle] at hpos
      simp at hpos
    simp only [unreadExtent, hextent]
    omega

@[simp] theorem unreadExtent_fillQueue (s : DecodingStream σ) :
    s.fillQueue.2.unreadExtent = s.unreadExtent := rfl

/-- Reads on until the metadata is decoded or the stream ends. -/
def readMetadata (s : DecodingStream σ) : Outcome × DecodingStream σ :=
  if s.metadata?.isSome then
    (.ok (), s)
  else if s.ended then
    (s.outcome, s)
  else if _h : s.readChunk.1 then
    let filled := s.readChunk.2.fillQueue
    match filled.1 with
    | .ok () => readMetadata filled.2
    | .error fault =>
      if filled.2.metadata?.isSome then
        (.ok (), { filled.2 with pending := some fault })
      else
        (.error fault, { filled.2 with fault := some fault })
  else
    let s := s.readChunk.2.finish
    (s.outcome, s)
termination_by s.unreadExtent
decreasing_by exact unreadExtent_readChunk_lt _h

/-- Decodes and reads on until there is a record to give out, a fault behind the records, or the
end of the source. -/
def refill (s : DecodingStream σ) : DecodingStream σ :=
  let filled := s.fillQueue
  match filled.1 with
  | .error fault => { filled.2 with pending := some fault }
  | .ok () =>
    if filled.2.queue.isEmpty then
      if _h : filled.2.readChunk.1 then
        refill filled.2.readChunk.2
      else
        filled.2.readChunk.2.finish
    else
      filled.2
termination_by s.unreadExtent
decreasing_by exact Nat.lt_of_lt_of_eq (unreadExtent_readChunk_lt _h) s.unreadExtent_fillQueue

/-- The queued record, if there is one. When there is none, a fault that was kept back ends the
stream. -/
def pop (s : DecodingStream σ) : Option Record × DecodingStream σ :=
  match s.queue with
  | r :: rs => (some r, { s with queue := rs })
  | [] =>
    match s.pending with
    | some fault => if s.ended then (none, s) else (none, { s with fault := some fault })
    | none => (none, s)

/-- The next record, or none at the end. -/
def next (s : DecodingStream σ) : Option Record × DecodingStream σ :=
  if s.queue.isEmpty && !s.ended && s.pending.isNone then s.refill.pop else s.pop

/-! ### Rank -/

/-- What can still be read, and behind it what is left to decode and to give out. -/
def rank (s : DecodingStream σ) : Nat × Nat :=
  (s.unreadExtent, s.decoder.unreadSize + s.queue.length)

/-- Decoding turns unread bytes into records, which are fewer. -/
theorem rank_fillQueue_le (s : DecodingStream σ) : s.fillQueue.2.rank.2 ≤ s.rank.2 := by
  have := s.decoder.unreadSize_decodeViews_le
  simp only [headerSize] at this
  simp only [rank, fillQueue, List.length_map]
  omega

/-- A read that gives nothing leaves the rank as it is. -/
theorem rank_readChunk_of_empty {s : DecodingStream σ} (h : ¬s.readChunk.1 = true) :
    s.readChunk.2.rank = s.rank := by
  have hextent := Source.extent_read s.source s.offset s.chunkSize
  simp only [readChunk] at h ⊢
  split at h
  · rename_i hempty
    rw [if_pos hempty]
    simp [rank, unreadExtent, hextent]
  · simp at h

/-- Filling the queue does not raise the rank. -/
theorem rank_refill_le (s : DecodingStream σ) :
    s.refill.rank.1 < s.rank.1 ∨ s.refill.rank.1 = s.rank.1 ∧ s.refill.rank.2 ≤ s.rank.2 := by
  fun_induction refill s with
  | case1 s filled fault h =>
    exact .inr ⟨rfl, s.rank_fillQueue_le⟩
  | case2 s filled h hempty hread ih =>
    have hlt : filled.2.readChunk.2.rank.1 < s.rank.1 := unreadExtent_readChunk_lt hread
    omega
  | case3 s filled h hempty hread =>
    have hrank := rank_readChunk_of_empty hread
    have hfinish : filled.2.readChunk.2.finish.rank = filled.2.rank := hrank
    rw [hfinish]
    exact .inr ⟨rfl, s.rank_fillQueue_le⟩
  | case4 s filled h hempty =>
    exact .inr ⟨rfl, s.rank_fillQueue_le⟩

/-- A record that is given out is no longer to come. -/
theorem rank_pop_lt {s : DecodingStream σ} {r : Record} (h : s.pop.1 = some r) :
    s.pop.2.rank.1 = s.rank.1 ∧ s.pop.2.rank.2 < s.rank.2 := by
  simp only [pop] at h ⊢
  split at h
  · rename_i hqueue
    simp [rank, unreadExtent, hqueue]
  · split at h
    · split at h <;> simp at h
    · simp at h

instance : RecordStream (DecodingStream σ) where
  next := next
  fault? s := s.fault
  rank := rank
  rank_next s r h := by
    simp only [next] at h ⊢
    split at h
    · rename_i hcond
      rw [if_pos hcond]
      have hpop := rank_pop_lt h
      have hrefill := s.rank_refill_le
      rw [Prod.lex_def]
      omega
    · rename_i hcond
      rw [if_neg hcond]
      have hpop := rank_pop_lt h
      rw [Prod.lex_def]
      omega

end DecodingStream

end MarketWire
