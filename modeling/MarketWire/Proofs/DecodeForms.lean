import MarketWire.Proofs.DecoderPhases

/-!
# The two forms of decoding

A decoder can be asked for owned records or for views. The first form copies every record, tells its
send timestamp, and moves what is unread to the front of the arena before it returns; the second
form leaves the records where they lie. From the same state they come to the same end: one is the
other, record by record, with a copy in place of a view.

The send timestamp is read in two ways. For an owned record it is cut out behind the least size for
the code of the record. Whoever has a view asks for it, and is refused if the code is unknown. The
two agree because a decoder passes over records whose code is unknown.

The metadata is an item of its own among the owned records. It is there in the one call that comes
upon the metadata, and ahead of all records.

## Main definitions

* `DecodedRecord.IsCopyOf` — an owned record is what a view shows.

## Main results

* `Standing.preamble_call_eq_some_iff` — a call gives the metadata if it is there only afterwards.
* `Decoder.forall₂_isCopyOf` — owned records and views in a row.
* `Decoder.decode_agrees_decodeViews` — **both forms decode the same**.
-/

namespace MarketWire

/-- An owned record is the copy of a view in a stream with the given metadata. It has a send
timestamp if the metadata announces one and the view gives one, and then it is that one. -/
structure DecodedRecord.IsCopyOf (metadata : Metadata) (decoded : DecodedRecord) (view : View) :
    Prop where
  /-- The record is the owned copy of the view. -/
  record : view.record.toOwned = .ok decoded.record
  /-- The time of sending is what the view gives when asked for it. -/
  tsOut : ∀ time, decoded.tsOut = some time ↔
    metadata.tsOut = true ∧ view.record.tsOut = .ok time

/-! ### What a call gives -/

namespace Standing

/-- A call gives the metadata exactly if it was not there before and is there afterwards. -/
theorem preamble_call_eq_some_iff {s : Standing} {metadata : Metadata} :
    s.call.1.preamble = some metadata ↔
      s.phase.metadata? = none ∧ s.call.2.phase.metadata? = some metadata := by
  constructor
  · intro hpreamble
    obtain ⟨hphase, hmetadata⟩ := metadata_of_preamble_call hpreamble
    exact ⟨by rw [hphase]; rfl, hmetadata⟩
  · rintro ⟨hbefore, hafter⟩
    obtain ⟨phase, consumed, unread⟩ := s
    cases phase with
    | failed _ _ => cases hbefore
    | streaming _ => cases hbefore
    | awaitingMetadata =>
      simp only [call] at hafter ⊢
      split at hafter
      · cases hafter
      · cases hafter
      · rename_i found _ _
        exact (metadata?_after found _).symm.trans hafter

/-- What a pass over the records hands over is made with the metadata of the stream. -/
theorem eq_of_of_mem_stream {metadata : Metadata} {offset : Nat} {bs : Bytes} {d : Delivery}
    (h : d ∈ (stream metadata offset bs).1.deliveries) : d = .of metadata d.record := by
  obtain ⟨record, -, rfl⟩ := List.mem_map.mp h
  rfl

/-- Records that a call gives are those of a stream with the metadata that is there afterwards. -/
theorem eq_of_of_mem_call {s : Standing} {d : Delivery} (h : d ∈ s.call.1.deliveries) :
    ∃ metadata, s.call.2.phase.metadata? = some metadata ∧ d = .of metadata d.record := by
  obtain ⟨phase, consumed, unread⟩ := s
  cases phase with
  | failed _ _ => cases h
  | streaming metadata => exact ⟨metadata, metadata?_after _ _, eq_of_of_mem_stream h⟩
  | awaitingMetadata =>
    simp only [call] at h ⊢
    split at h
    · cases h
    · cases h
    · rename_i metadata _ _
      exact ⟨metadata, metadata?_after _ _, eq_of_of_mem_stream h⟩

end Standing

/-! ### Records in both forms -/

/-- The owned form of a record is the copy of the form as a view. -/
theorem Delivery.isCopyOf {metadata : Metadata} {d : Delivery} {decoded : DecodedRecord}
    {view : View} (hof : d = .of metadata d.record) (howned : d.IsOwned decoded)
    (hviewed : d.IsViewed view) : decoded.IsCopyOf metadata view := by
  constructor
  case record =>
    rw [hviewed.record]
    exact howned.record
  case tsOut =>
    intro time
    rw [howned.tsOut, hof, hviewed.record, Delivery.of]
    cases hflag : metadata.tsOut with
    | false => simp
    | true => cases htime : d.record.tsOut <;> simp [Except.toOption]

namespace Decoder

/-- **Owned records and views in a row.** -/
theorem forall₂_isCopyOf {metadata? : Option Metadata} {deliveries : List Delivery}
    {records : List DecodedRecord} {views : List View}
    (hof : ∀ d ∈ deliveries, ∃ metadata, metadata? = some metadata ∧ d = .of metadata d.record)
    (howned : List.Forall₂ Delivery.IsOwned deliveries records)
    (hviewed : List.Forall₂ Delivery.IsViewed deliveries views) :
    List.Forall₂ (fun decoded view => ∃ metadata, metadata? = some metadata ∧
      decoded.IsCopyOf metadata view) records views := by
  induction howned generalizing views with
  | nil =>
    cases hviewed
    exact .nil
  | cons hfirst _ ih =>
    cases hviewed with
    | cons hview hviews =>
      rw [List.forall_mem_cons] at hof
      obtain ⟨⟨metadata, hmetadata, hhead⟩, htail⟩ := hof
      exact .cons ⟨metadata, hmetadata, Delivery.isCopyOf hhead hfirst hview⟩ (ih htail hviews)

/-- **Both forms decode the same.** From every state that a decoder can reach, a call for owned
records and a call for views end with the same outcome and the same reports, and leave the decoder
in the same phase, with the same metadata, the same number of bytes consumed and the same bytes
unread. The owned records are the copies of the views, one by one. Ahead of them the call gives the
metadata exactly if it was decoded in that very call. -/
theorem decode_agrees_decodeViews (commands : List Command) :
    let d := (fresh.run commands).2
    let owned := d.decode
    let views := d.decodeViews
    owned.1.outcome = views.1.outcome ∧
      owned.1.problems = views.1.problems ∧
      owned.2.phase = views.2.phase ∧
      owned.2.metadata? = views.2.metadata? ∧
      owned.2.consumed = views.2.consumed ∧
      owned.2.unread = views.2.unread ∧
      ∃ preamble : Option Metadata, ∃ records : List DecodedRecord,
        owned.1.items = preamble.toList.map .metadata ++ records.map .record ∧
        (∀ metadata, preamble = some metadata ↔
          d.metadata? = none ∧ owned.2.metadata? = some metadata) ∧
        List.Forall₂ (fun decoded view => ∃ metadata, owned.2.metadata? = some metadata ∧
          decoded.IsCopyOf metadata view) records views.1.items := by
  intro d owned views
  have hwell : d.WellFormed := WellFormed.fresh.run commands
  have hown := follows_own hwell
  have hview := follows_view hwell
  have howned : owned.2.standing = d.standing.call.2 := standing_decode hwell
  have hviews : views.2.standing = d.standing.call.2 := standing_decodeViews hwell
  have hsame : owned.2.standing = views.2.standing := howned.trans hviews.symm
  have hphase : owned.2.phase = views.2.phase := congrArg Standing.phase hsame
  have hmetadata : owned.2.metadata? = d.standing.call.2.phase.metadata? :=
    congrArg (·.phase.metadata?) howned
  refine ⟨hown.outcome.trans hview.outcome.symm, hown.problems.trans hview.problems.symm, hphase,
    congrArg Phase.metadata? hphase, congrArg Standing.consumed hsame,
    congrArg Standing.unread hsame, (d.pass own).1.preamble, (d.pass own).1.batch.items, rfl,
    fun metadata => ?preamble, ?records⟩
  case preamble =>
    rw [hown.preamble, hmetadata]
    exact Standing.preamble_call_eq_some_iff
  case records =>
    rw [hmetadata]
    exact forall₂_isCopyOf (fun _ => Standing.eq_of_of_mem_call) hown.items hview.items

end Decoder

end MarketWire
