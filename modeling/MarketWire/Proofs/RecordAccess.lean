import MarketWire.Proofs.DecoderPhases
import MarketWire.Proofs.StreamCalls

/-!
# Access to decoded records

A record in storage is untyped: its code says which layout it has, and its size whether there is room
for it. A decoder looks at both before it hands a record over, so whoever gets one can look at it as
what it is without another check. One of the twelve layouts accepts its code, under that layout it is
found, under the others it is not, and it can be copied.

That is true of the views that a decoder hands over, however it was fed, and of the records of a
stream over any source. So a copy of a view never fails, and decoding fails for two reasons only: bad
metadata, or a header that announces too little for itself or for the type that it names.

## Main definitions

* `Record.Accessible` — a record that can be looked at as one of a layout, and of no other.
* `DecodingStream.Sound` — a stream that holds such records.

## Main results

* `Record.accessible_of_isFrame` — frames with a code of the catalog can be looked at.
* `DecodingStream.Sound.serveAll` — **all records of a stream can be looked at**.
* `Decoder.decodes_accessible` — **all decoded records can be looked at**, and why decoding fails.
-/

namespace MarketWire

/-! ### Looking at a record -/

namespace Record

/-- A record that can be looked at as one of the given layout, and of no other. -/
structure Accessible (r : Record) (t : RecordType) : Prop where
  /-- This layout and no other accepts its code. -/
  has_iff : ∀ u, r.has u = true ↔ u = t
  /-- It has room for the layout. -/
  size_le : t.size ≤ r.size
  /-- All the bytes that its header announces are there. -/
  length_storage : r.storage.length = r.size
  /-- Its layout is told. -/
  variant : r.variant = .ok t
  /-- It is found under its layout and can be copied, and what is seen are its first bytes. -/
  copy : ∃ owned : OwnedRecord, owned.type = t ∧ owned.bytes = r.storage.take t.size ∧
    r.get t = .found owned ∧ r.toOwned = .ok owned
  /-- It is not found under another layout. -/
  other : ∀ u, u ≠ t → r.get u = .otherType

/-- **A frame with a code of the catalog can be looked at.** -/
theorem accessible_of_isFrame {r : Record} (hframe : IsFrame r.storage)
    (hknown : isKnown r.storage = true) : ∃ t, r.Accessible t := by
  obtain ⟨entry, hentry⟩ := Option.isSome_iff_exists.mp hknown
  obtain ⟨hroom, hvariant⟩ := variant_of_isFrame hframe hentry
  have hlength : r.storage.length = r.size := hframe.length_eq
  have hhas : ∀ u, r.has u = true ↔ u = entry.recordType := by
    intro u
    have hcode : RType.ofCode? r.header.rtype = some entry := hentry
    rw [has, RecordType.accepts_iff, hcode]
    constructor
    · rintro ⟨other, hother, rfl⟩
      rw [Option.some.inj hother]
    · rintro rfl
      exact ⟨entry, rfl, rfl⟩
  refine ⟨entry.recordType, hhas, hroom, hlength, hvariant, ?copy, ?other⟩
  case copy =>
    refine ⟨.ofBytes entry.recordType r.storage, rfl, ?_, ?_, toOwned_of_isFrame hframe hentry⟩
    · exact OwnedRecord.bytes_ofBytes (by omega)
    · rw [get, if_pos ((hhas _).mpr rfl), if_neg (Nat.not_lt.mpr hroom)]
  case other =>
    intro u hu
    rw [get, if_neg (by rwa [hhas])]

end Record

/-! ### What a call hands over -/

namespace Standing

/-- What a pass over the records hands over are frames with a code of the catalog. -/
theorem accessible_of_mem_stream {metadata : Metadata} {offset : Nat} {bs : Bytes} {d : Delivery}
    (h : d ∈ (stream metadata offset bs).1.deliveries) : ∃ t, d.record.Accessible t := by
  obtain ⟨record, hrecord, rfl⟩ := List.mem_map.mp h
  obtain ⟨frame, hframe, rfl⟩ := List.mem_map.mp hrecord
  obtain ⟨hmem, hknown⟩ := List.mem_filter.mp hframe
  exact Record.accessible_of_isFrame (isFrame_of_mem_segment hmem) hknown

/-- All records that a call hands over can be looked at. -/
theorem accessible_of_mem_call {s : Standing} {d : Delivery} (h : d ∈ s.call.1.deliveries) :
    ∃ t, d.record.Accessible t := by
  obtain ⟨phase, consumed, unread⟩ := s
  cases phase with
  | failed _ _ => cases h
  | streaming metadata => exact accessible_of_mem_stream h
  | awaitingMetadata =>
    rw [call] at h
    dsimp only at h
    split at h
    · cases h
    · cases h
    · exact accessible_of_mem_stream h

end Standing

/-- What is handed over shows one of the records that a call gives. -/
theorem exists_isShown_of_mem {deliveries : List Delivery} {products : List Product}
    (h : List.Forall₂ Delivery.IsShown deliveries products) {p : Product} (hp : p ∈ products) :
    ∃ d ∈ deliveries, d.IsShown p := by
  induction h with
  | nil => cases hp
  | cons hfirst _ ih =>
    rcases List.mem_cons.mp hp with rfl | hp
    · exact ⟨_, List.mem_cons_self, hfirst⟩
    · obtain ⟨d, hd, hshown⟩ := ih hp
      exact ⟨d, List.mem_cons_of_mem _ hd, hshown⟩

namespace Decoder

/-- The views that a call hands over can be looked at. -/
theorem accessible_of_mem_call {d : Decoder} (h : d.WellFormed) (kind : CallKind) {view : View}
    (hview : .view view ∈ (d.call kind).1.products) : ∃ t, view.record.Accessible t := by
  obtain ⟨delivery, hdelivery, hshown⟩ := exists_isShown_of_mem (tells_call h kind).products hview
  cases hshown with
  | view hviewed =>
    rw [hviewed.record]
    exact Standing.accessible_of_mem_call hdelivery

/-- The views that a run hands over can be looked at. -/
theorem accessible_of_mem_run {d : Decoder} (h : d.WellFormed) {commands : List Command}
    {view : View} (hview : .view view ∈ (d.run commands).1.products) :
    ∃ t, view.record.Accessible t := by
  induction commands generalizing d with
  | nil => cases hview
  | cons command commands ih =>
    cases command with
    | write bs => exact ih (h.write bs) hview
    | call kind =>
      rcases List.mem_append.mp hview with hnow | hlater
      · exact accessible_of_mem_call h kind hnow
      · exact ih (h.call kind) hlater

end Decoder

/-! ### Streams over any source -/

namespace DecodingStream

variable {σ : Type} {s : DecodingStream σ}

/-- A stream whose decoder is in order, and whose queue holds records that can be looked at. -/
structure Sound (s : DecodingStream σ) : Prop where
  /-- The decoder is in order. -/
  wellFormed : s.decoder.WellFormed
  /-- The queued records can be looked at. -/
  queue : ∀ r ∈ s.queue, ∃ t, r.Accessible t

theorem Sound.fillQueue (h : Sound s) : Sound s.fillQueue.2 := by
  refine ⟨h.wellFormed.decodeViews, fun r hr => ?_⟩
  have hqueue : s.fillQueue.2.queue = s.decoder.standing.call.1.records :=
    Decoder.records_decodeViews h.wellFormed
  rw [hqueue] at hr
  obtain ⟨delivery, hdelivery, rfl⟩ := List.mem_map.mp hr
  exact Standing.accessible_of_mem_call hdelivery

/-- A stream that has not been read from is sound. -/
theorem sound_start (source : σ) (chunkSize : Nat) :
    Sound { source := source, chunkSize := chunkSize } :=
  ⟨.fresh, fun _ hr => absurd hr List.not_mem_nil⟩

/-- How a stream is marked as ended does not matter. -/
theorem Sound.mark (h : Sound s) (fault pending : Option Fault) (exhausted : Bool) :
    Sound { s with fault := fault, pending := pending, exhausted := exhausted } :=
  ⟨h.wellFormed, h.queue⟩

/-- The queued record is given out. -/
theorem Sound.pop (h : Sound s) :
    (∀ r ∈ s.pop.1, ∃ t, r.Accessible t) ∧ Sound s.pop.2 := by
  rw [DecodingStream.pop]
  split
  · rename_i r rs hqueue
    have hall := h.queue
    rw [hqueue, List.forall_mem_cons] at hall
    exact ⟨fun _ hr => Option.some.inj hr ▸ hall.1, h.wellFormed, hall.2⟩
  · split
    · split
      · exact ⟨nofun, h⟩
      · exact ⟨nofun, h.mark _ s.pending s.exhausted⟩
    · exact ⟨nofun, h⟩

variable [Source σ]

theorem Sound.readChunk (h : Sound s) : Sound s.readChunk.2 := by
  simp only [DecodingStream.readChunk]
  split
  · exact ⟨h.wellFormed, h.queue⟩
  · exact ⟨h.wellFormed.write _, h.queue⟩

theorem Sound.finish (h : Sound s) : Sound s.finish :=
  h.mark s.endFault s.pending true

theorem Sound.refill (h : Sound s) : Sound s.refill := by
  fun_induction DecodingStream.refill s with
  | case1 s filled fault _ => exact h.fillQueue.mark s.fault (some fault) s.exhausted
  | case2 s filled _ _ _ ih => exact ih h.fillQueue.readChunk
  | case3 s filled _ _ _ => exact h.fillQueue.readChunk.finish
  | case4 s filled _ _ => exact h.fillQueue

theorem Sound.readMetadata (h : Sound s) : Sound s.readMetadata.2 := by
  fun_induction DecodingStream.readMetadata s with
  | case1 => exact h
  | case2 => exact h
  | case3 s _ _ _ filled _ ih => exact ih h.readChunk.fillQueue
  | case4 s _ _ _ filled fault _ _ =>
    exact h.readChunk.fillQueue.mark filled.2.fault (some fault) filled.2.exhausted
  | case5 s _ _ _ filled fault _ _ =>
    exact h.readChunk.fillQueue.mark (some fault) filled.2.pending filled.2.exhausted
  | case6 s _ _ _ last => exact h.readChunk.finish

/-- One call keeps a stream sound, and what it gives out can be looked at. -/
theorem Sound.serve (h : Sound s) (call : StreamCall) :
    (∀ r ∈ (s.serve call).1, ∃ t, r.Accessible t) ∧ Sound (s.serve call).2 := by
  cases call with
  | readMetadata => exact ⟨nofun, h.readMetadata⟩
  | metadata => exact ⟨nofun, h⟩
  | next =>
    rw [DecodingStream.serve, DecodingStream.next]
    split
    · exact h.refill.pop
    · exact h.pop

/-- **All records that a stream gives out can be looked at.** -/
theorem Sound.serveAll (h : Sound s) (calls : List StreamCall) :
    ∀ r ∈ (s.serveAll calls).1, ∃ t, r.Accessible t := by
  induction calls generalizing s with
  | nil => nofun
  | cons call calls ih =>
    obtain ⟨hfirst, hsound⟩ := h.serve call
    intro r hr
    rcases List.mem_append.mp hr with hnow | hlater
    · exact hfirst r (Option.mem_toList.mp hnow)
    · exact ih hsound r hlater

end DecodingStream

/-! ### Why decoding fails -/

namespace Decoder

/-- **All decoded records can be looked at**, the views of a decoder however it was fed and called, and
the records of a stream over any source. So a view that is handed over can be copied, and a call for
owned records ends as one for views does. It fails if the metadata is bad, which leaves the decoder
waiting, or because the header at the front of what is left announces too little for itself or for the
type that it names. -/
theorem decodes_accessible {σ : Type} [Source σ] (commands : List Command) (source : σ)
    (chunkSize : Nat) (calls : List StreamCall) :
    let d := (fresh.run commands).2
    let last := d.decode.2
    let next := Header.ofBytes last.unread
    let stream : DecodingStream σ := { source := source, chunkSize := chunkSize }
    (∀ view, .view view ∈ (fresh.run commands).1.products → ∃ t, view.record.Accessible t) ∧
      (∀ r ∈ (stream.serveAll calls).1, ∃ t, r.Accessible t) ∧
      (∀ metadata, ∀ view ∈ d.decodeViews.1.items, ∃ owned, own metadata view = .ok owned) ∧
      d.decode.1.outcome = d.decodeViews.1.outcome ∧
      ∀ fault, d.decode.1.outcome = .error fault →
        (d.phase = .awaitingMetadata ∧ last.phase = .awaitingMetadata ∧
          Metadata.atFront d.unread = .error fault) ∨
        (∃ metadata, last.phase = .failed metadata fault) ∧
          headerSize ≤ last.unread.length ∧
          (next.recordSize < headerSize ∨ next.recordSize < RType.minSizeOfCode next.rtype) ∧
          fault = Front.complaint last.consumed next := by
  intro d last next stream
  have hwell : d.WellFormed := WellFormed.fresh.run commands
  have hown := follows_own hwell
  have hview := follows_view hwell
  have hlast : last.standing = d.standing.call.2 := standing_decode hwell
  refine ⟨fun view => accessible_of_mem_run .fresh, ?streams, ?copies, ?agree, ?faults⟩
  case streams => exact (DecodingStream.sound_start source chunkSize).serveAll calls
  case copies =>
    intro metadata view hmem
    obtain ⟨t, haccess⟩ := accessible_of_mem_call hwell .views
      (List.mem_map.mpr ⟨view, hmem, rfl⟩)
    obtain ⟨owned, -, -, -, howned⟩ := haccess.copy
    exact ⟨⟨owned, _⟩, by rw [own, howned]; rfl⟩
  case agree => exact hown.outcome.trans hview.outcome.symm
  case faults =>
    intro fault hfault
    have houtcome : d.standing.call.1.outcome = .error fault := hown.outcome.symm.trans hfault
    have hstuck : d.standing.call.2.Stuck fault := Standing.call_write_of_error houtcome
    rcases hstuck.phase_cases with hwaiting | ⟨metadata, hfailed⟩
    · obtain ⟨hphase, hfront⟩ := Standing.atFront_of_error houtcome hwaiting
      rw [← hlast] at hwaiting
      exact .inl ⟨hphase, hwaiting, hfront⟩
    · have hblames : last.standing.BlamesHeader := by
        rw [hlast]
        refine Standing.BlamesHeader.call ?_
        rw [standing_run .fresh, standing_fresh]
        exact Standing.blamesHeader_fresh.run commands
      rw [← hlast] at hfailed
      obtain ⟨hroom, hacc, hcause⟩ :=
        Front.outcome_ofBytes_eq_error_iff.mp (hblames metadata fault hfailed)
      exact .inr ⟨⟨metadata, hfailed⟩, hroom, Header.not_acceptable_iff.mp hacc, hcause⟩

/-- Bad metadata makes decoding fail. -/
theorem outcome_decode_of_atFront {bs : Bytes} {fault : Fault}
    (h : Metadata.atFront bs = .error fault) : (fresh.write bs).decode.1.outcome = .error fault := by
  have hunread : (Standing.fresh.write bs).unread = bs := rfl
  have hphase : (Standing.fresh.write bs).phase = .awaitingMetadata := rfl
  have hwhole : (Standing.whole bs).1.outcome = .error fault := by
    rw [Standing.whole, Standing.call, hphase, hunread]
    dsimp only
    rw [h]
    rfl
  refine (follows_own (WellFormed.fresh.write bs)).outcome.trans ?_
  rw [call_standing_write_fresh, hwhole]

/-- Not every failure is that of a header: a byte that cannot begin metadata makes decoding fail
too, and no header is blamed for that. -/
theorem decode_badMagic_blames_no_header :
    (fresh.write [0x58]).decode.1.outcome = .error (.badMagic 0x58 0) ∧
      ∀ offset header, Front.complaint offset header ≠ .badMagic 0x58 0 := by
  have hfront : Metadata.atFront [0x58] = .error (.badMagic 0x58 0) := by decide +kernel
  refine ⟨outcome_decode_of_atFront hfront, fun offset header hsame => ?_⟩
  have hkind := Front.kind_complaint offset header
  rw [hsame] at hkind
  cases hkind

end Decoder

end MarketWire
