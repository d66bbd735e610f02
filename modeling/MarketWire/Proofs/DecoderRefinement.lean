import MarketWire.Proofs.ArenaQueue
import MarketWire.Proofs.Standing

/-!
# Decoders follow their standing

The loop over the arena takes off the frames that `segment` finds in the unread bytes. From there on
a call of a decoder, to `decode` or to `decodeViews`, hands over what `Standing.call` gives, each in
its own form, and leaves the decoder standing where `Standing.call` ends.

Owned copies never fail: a frame with a code of the catalog is as long as its header says and has
room for the layout.

## Main definitions

* `Framer.Drains` — a pass over the arena takes off the frames of the unread bytes.
* `Decoder.Follows` — a pass of a decoder hands over what its standing gives.
* `Delivery.IsOwned`, `Delivery.IsViewed` — the forms in which records are handed over.

## Main results

* `Framer.drains_drain`, `Decoder.follows_pass` — passes do what their definitions are named for.
-/

namespace MarketWire

/-! ### Passes over the arena -/

namespace Framer

/-- The frames of the unread bytes. -/
def cut (f : Framer) : Segmentation :=
  segment f.consumed f.arena.readable

/-- What stands at the front depends on the unread bytes and their place alone. -/
theorem front_eq {f : Framer} (h : f.arena.WellFormed) :
    f.front = .ofBytes f.consumed f.arena.readable := by
  rw [front, Front.ofBytes, Arena.length_readable h]
  split
  · rfl
  · rename_i hlen
    have hpeek := Arena.peek_eq_take (Nat.not_lt.mp hlen)
    rw [hpeek, Header.ofBytes_take (Nat.le_refl _)
      (by rw [Arena.length_readable h]; exact Nat.not_lt.mp hlen)]

@[simp] theorem record_take (f : Framer) (size : Nat) :
    (f.take size).1.record = ⟨f.arena.peek size⟩ := by
  simp only [take]
  split <;> rfl

@[simp] theorem consumed_take (f : Framer) (size : Nat) :
    (f.take size).2.consumed = f.consumed + size := by
  simp only [take]
  split <;> rfl

variable {α : Type}

/-- A pass takes off the frames of the unread bytes. `Shows` relates the records among them to the
results for them. -/
structure Drains (Shows : Record → α → Prop) (f : Framer) (r : Batch α × Framer) : Prop where
  /-- The results are those for the records in the order of the stream. -/
  items : List.Forall₂ Shows (knownRecords f.cut.frames) r.1.items
  /-- The other frames are reported with their places in the stream. -/
  problems : r.1.problems = skipped f.consumed f.cut.frames
  /-- The pass fails where a header is not in order. -/
  outcome : r.1.outcome = f.cut.outcome
  /-- The frames are consumed. -/
  consumed : r.2.consumed = f.consumed + f.cut.frames.flatten.length
  /-- What lies behind them is left. -/
  readable : r.2.arena.readable = f.cut.rest
  /-- The positions of the arena stay in order. -/
  wellFormed : r.2.arena.WellFormed

/-- A pass ends where no frame begins. -/
theorem drains_of_none (Shows : Record → α → Prop) {f : Framer} (h : f.arena.WellFormed)
    (hfront : f.front.size? = none) : Drains Shows f ({ outcome := f.front.outcome }, f) := by
  rw [front_eq h] at hfront ⊢
  have hcut : f.cut = _ := segment_of_none hfront
  constructor <;> simp [hcut, knownRecords, skipped, h]

/-- A front with a size is a frame that is there. -/
theorem frame_of_size? {f : Framer} {size : Nat} (h : f.arena.WellFormed)
    (hsize : f.front.size? = some size) :
    size ≤ f.arena.readableSize ∧ (f.arena.peek size).length = size ∧
      IsFrame (f.arena.peek size) ∧
      f.front = if isKnown (f.arena.peek size) then .record size
        else .unknown size (Header.ofBytes (f.arena.peek size)).rtype := by
  rw [front_eq h] at hsize ⊢
  obtain ⟨hle, hframe⟩ := Front.size?_ofBytes_eq_some_iff.mp hsize
  have hroom : size ≤ f.arena.readableSize := by rwa [← Arena.length_readable h]
  rw [Arena.peek_eq_take hroom]
  exact ⟨hroom, List.length_take_of_le hle, hframe, Front.ofBytes_of_size? hsize⟩

/-- A record at the front has a code of the catalog. -/
theorem isKnown_of_record {f : Framer} {size : Nat} (h : f.arena.WellFormed)
    (hfront : f.front = .record size) :
    IsFrame (f.arena.peek size) ∧ isKnown (f.arena.peek size) = true := by
  obtain ⟨-, -, hframe, hknown⟩ := frame_of_size? h (by rw [hfront]; rfl)
  rw [hfront] at hknown
  split at hknown
  · rename_i hcatalog
    exact ⟨hframe, hcatalog⟩
  · cases hknown

/-- A record to be passed over has the code that is reported, and that is not in the catalog. -/
theorem not_isKnown_of_unknown {f : Framer} {size : Nat} {code : UInt8} (h : f.arena.WellFormed)
    (hfront : f.front = .unknown size code) :
    ¬isKnown (f.arena.peek size) = true ∧ code = (Header.ofBytes (f.arena.peek size)).rtype := by
  obtain ⟨-, -, -, hknown⟩ := frame_of_size? h (by rw [hfront]; rfl)
  rw [hfront] at hknown
  split at hknown
  · cases hknown
  · rename_i hskip
    injection hknown with _ hcode
    exact ⟨hskip, hcode⟩

/-- A frame at the front is taken off before the others. -/
theorem cut_of_size? {f g : Framer} {size : Nat} (h : f.arena.WellFormed)
    (hsize : f.front.size? = some size) (harena : g.arena = f.arena.consume size)
    (hconsumed : g.consumed = f.consumed + size) :
    f.cut = g.cut.prepend [f.arena.peek size] := by
  obtain ⟨hroom, -⟩ := frame_of_size? h hsize
  rw [front_eq h] at hsize
  rw [Arena.peek_eq_take hroom, cut, cut, hconsumed, harena, Arena.readable_consume]
  exact segment_of_some hsize

/-- A pass takes off the frame at the front and then does what the pass behind it does. -/
theorem Drains.behind {Shows : Record → α → Prop} {f g : Framer} {size : Nat} {r : Batch α × Framer}
    (hdrains : Drains Shows g r) (h : f.arena.WellFormed) (hsize : f.front.size? = some size)
    (harena : g.arena = f.arena.consume size) (hconsumed : g.consumed = f.consumed + size)
    (items : List α) (hitems : List.Forall₂ Shows (knownRecords [f.arena.peek size]) items) :
    Drains Shows f
      ({ r.1 with
          items := items ++ r.1.items
          problems := skipped f.consumed [f.arena.peek size] ++ r.1.problems }, r.2) := by
  obtain ⟨hroom, hlength, -⟩ := frame_of_size? h hsize
  have hcut := cut_of_size? h hsize harena hconsumed
  constructor
  case items =>
    rw [hcut, Segmentation.prepend, knownRecords_append]
    exact List.rel_append hitems hdrains.items
  case problems =>
    rw [hcut, Segmentation.prepend, skipped_append, hdrains.problems, hconsumed]
    simp [hlength]
  case outcome => rw [hcut, Segmentation.prepend, hdrains.outcome]
  case consumed =>
    rw [hcut, Segmentation.prepend, hdrains.consumed, hconsumed]
    simp [hlength, Nat.add_assoc]
  case readable => rw [hcut, Segmentation.prepend, hdrains.readable]
  case wellFormed => exact hdrains.wellFormed

/-- **The loop over the arena takes off the frames of the unread bytes.** -/
theorem drains_drain {Shows : Record → α → Prop} {convert : View → Except Fault α}
    (hconvert : ∀ view, IsFrame view.record.storage → isKnown view.record.storage = true →
      ∃ item, convert view = .ok item ∧ Shows view.record item)
    {f : Framer} (h : f.arena.WellFormed) : Drains Shows f (f.drain convert) := by
  fun_induction drain convert f with
  | case1 f hfront =>
    have hend := drains_of_none Shows h (by rw [hfront]; rfl)
    rwa [hfront] at hend
  | case2 f fault hfront =>
    have hend := drains_of_none Shows h (by rw [hfront]; rfl)
    rwa [hfront] at hend
  | case3 f size code hfront batch last hdrain ih =>
    have hsize : f.front.size? = some size := by rw [hfront]; rfl
    obtain ⟨hroom, hlength, -⟩ := frame_of_size? h hsize
    obtain ⟨hskip, hcode⟩ := not_isKnown_of_unknown h hfront
    rw [hdrain] at ih
    have hbehind := (ih (h.consume hroom)).behind h hsize rfl rfl []
      (by simp [knownRecords, hskip])
    simpa [skipped, hskip, hlength, hcode] using hbehind
  | case4 f size hfront fault hfail =>
    obtain ⟨hframe, hcatalog⟩ := isKnown_of_record h hfront
    obtain ⟨item, hitem, -⟩ := hconvert (f.take size).1
      (by rwa [record_take]) (by rwa [record_take])
    rw [hitem] at hfail
    cases hfail
  | case5 f size hfront item hitem batch last hdrain ih =>
    have hsize : f.front.size? = some size := by rw [hfront]; rfl
    obtain ⟨hroom, -⟩ := frame_of_size? h hsize
    obtain ⟨hframe, hcatalog⟩ := isKnown_of_record h hfront
    obtain ⟨item', hitem', hshows⟩ := hconvert (f.take size).1
      (by rwa [record_take]) (by rwa [record_take])
    rw [hitem] at hitem'
    cases hitem'
    rw [record_take] at hshows
    rw [hdrain] at ih
    have hbehind := (ih (by rw [arena_take]; exact h.consume hroom)).behind h hsize
      (arena_take f size) (consumed_take f size) [item]
      (by simpa [knownRecords, hcatalog] using hshows)
    simpa [skipped, hcatalog] using hbehind

end Framer

/-! ### Forms of records -/

namespace Delivery

/-- The delivered record as an owned copy, with its send timestamp. -/
structure IsOwned (d : Delivery) (r : DecodedRecord) : Prop where
  /-- The copy is that of the record. -/
  record : d.record.toOwned = .ok r.record
  /-- The send timestamp is that of the delivery. -/
  tsOut : r.tsOut = d.tsOut

theorem rightUnique_isOwned : Relator.RightUnique IsOwned := by
  intro d r r' h h'
  obtain ⟨record, tsOut⟩ := r
  obtain ⟨record', tsOut'⟩ := r'
  have hrecord : record = record' := Except.ok.inj (h.record.symm.trans h'.record)
  have htsOut : tsOut = tsOut' := h.tsOut.trans h'.tsOut.symm
  rw [hrecord, htsOut]

/-- The delivered record as a view, which can be copied. -/
structure IsViewed (d : Delivery) (view : View) : Prop where
  /-- The view is of the record. -/
  record : view.record = d.record
  /-- The record has the copy that an owned one would be. -/
  toOwned : ∃ owned, d.record.toOwned = .ok owned

/-- A frame with a code of the catalog can be copied. -/
theorem toOwned_of_isFrame {r : Record} (hframe : IsFrame r.storage)
    (hknown : isKnown r.storage = true) : ∃ owned, r.toOwned = .ok owned := by
  obtain ⟨entry, hentry⟩ := Option.isSome_iff_exists.mp hknown
  exact ⟨_, Record.toOwned_of_isFrame hframe hentry⟩

end Delivery

/-! ### Calls -/

namespace Decoder

/-- The positions of the arena are in order. -/
def WellFormed (d : Decoder) : Prop :=
  d.framer.arena.WellFormed

/-- Where the decoder stands. -/
def standing (d : Decoder) : Standing where
  phase := d.phase
  consumed := d.consumed
  unread := d.unread

theorem WellFormed.fresh : fresh.WellFormed :=
  Arena.WellFormed.ofCapacity _

theorem WellFormed.write {d : Decoder} (h : d.WellFormed) (bs : Bytes) : (d.write bs).WellFormed :=
  Arena.WellFormed.append h bs

theorem WellFormed.compact {d : Decoder} (h : d.WellFormed) : d.compact.WellFormed :=
  Arena.WellFormed.compact h

theorem standing_fresh : fresh.standing = .fresh := by
  simp [standing, fresh, Standing.fresh, consumed, unread, Arena.readable_ofCapacity]

theorem standing_write {d : Decoder} (h : d.WellFormed) (bs : Bytes) :
    (d.write bs).standing = d.standing.write bs := by
  simp [standing, write, Standing.write, consumed, unread, Arena.readable_append h]

theorem call_standing_write_fresh (bs : Bytes) :
    (fresh.write bs).standing.call = Standing.whole bs := by
  rw [standing_write .fresh, standing_fresh, Standing.whole]

theorem standing_compact {d : Decoder} (h : d.WellFormed) : d.compact.standing = d.standing := by
  simp [standing, compact, Framer.compact, consumed, unread, Arena.readable_compact h]

/-- A pass hands over what a call gives, each record in the form that `Shows` describes. -/
structure Follows {α : Type} (Shows : Delivery → α → Prop) (given : Yield × Standing)
    (r : Pass α × Decoder) : Prop where
  /-- The metadata is the same. -/
  preamble : r.1.preamble = given.1.preamble
  /-- The results are those for the records. -/
  items : List.Forall₂ Shows given.1.deliveries r.1.batch.items
  /-- The reports are the same. -/
  problems : r.1.batch.problems = given.1.problems
  /-- The outcome is the same. -/
  outcome : r.1.batch.outcome = given.1.outcome
  /-- The decoder stands where the call ends. -/
  standing : r.2.standing = given.2
  /-- The positions of the arena stay in order. -/
  wellFormed : r.2.WellFormed

variable {α : Type} {Shows : Delivery → α → Prop} {convert : Metadata → View → Except Fault α}

/-- Records of a stream with the given metadata are turned into results without fail. -/
def Converts (Shows : Delivery → α → Prop) (convert : Metadata → View → Except Fault α) : Prop :=
  ∀ metadata view, IsFrame view.record.storage → isKnown view.record.storage = true →
    ∃ item, convert metadata view = .ok item ∧ Shows (.of metadata view.record) item

/-- The pass over the records behind the metadata. -/
theorem follows_drain (hconvert : Converts Shows convert) (metadata : Metadata) {f : Framer}
    (h : f.arena.WellFormed) :
    Follows Shows (Standing.stream metadata f.consumed f.arena.readable)
      ({ batch := (f.drain (convert metadata)).1 },
        ⟨(f.drain (convert metadata)).2,
          .after metadata (f.drain (convert metadata)).1.outcome⟩) := by
  have hdrains : Framer.Drains (fun record => Shows (.of metadata record)) f _ :=
    Framer.drains_drain (hconvert metadata) h
  constructor
  case preamble => rfl
  case items => exact List.forall₂_map_left_iff.mpr hdrains.items
  case problems => exact hdrains.problems
  case outcome => exact hdrains.outcome
  case standing =>
    simp only [standing, consumed, unread, hdrains.outcome, hdrains.consumed, hdrains.readable]
    rfl
  case wellFormed => exact hdrains.wellFormed

/-- Taking the metadata is finding it at the front of the unread bytes. -/
theorem takeMetadata_eq {f : Framer} (h : f.arena.WellFormed) :
    takeMetadata f =
      match Metadata.atFront f.arena.readable with
      | .error fault => (.error fault, f)
      | .ok none => (.ok none, f)
      | .ok (some (metadata, length)) => (.ok (some metadata), (f.advance length).compact) := by
  rw [takeMetadata, Metadata.atFront, Arena.length_readable h]
  cases Metadata.peekLength f.arena.readable with
  | error fault => rfl
  | ok length? =>
    cases length? with
    | none => rfl
    | some length =>
      dsimp only
      by_cases hlt : f.arena.readableSize < length
      · rw [if_pos hlt, if_pos hlt]
      · rw [if_neg hlt, if_neg hlt, Arena.peek_eq_take (Nat.not_lt.mp hlt)]
        cases Metadata.parse (f.arena.readable.take length) <;> rfl

/-- **A pass hands over what the standing of the decoder gives.** -/
theorem follows_pass (hconvert : Converts Shows convert) {d : Decoder} (h : d.WellFormed) :
    Follows Shows d.standing.call (d.pass convert) := by
  obtain ⟨framer, phase⟩ := d
  have harena : framer.renew.arena.WellFormed := Arena.WellFormed.compact h
  have hreadable : framer.renew.arena.readable = framer.arena.readable := Arena.readable_compact h
  have hstays : ∀ phase, (Decoder.mk framer.renew phase).standing = standing ⟨framer, phase⟩ :=
    fun phase => @standing_compact ⟨framer, phase⟩ h
  cases phase with
  | failed metadata fault => exact ⟨rfl, .nil, rfl, rfl, rfl, h⟩
  | streaming metadata =>
    have hdrain := follows_drain hconvert metadata harena
    rw [hreadable] at hdrain
    exact hdrain
  | awaitingMetadata =>
    have htake := takeMetadata_eq harena
    rw [hreadable] at htake
    have hunread : (standing ⟨framer, .awaitingMetadata⟩).unread = framer.arena.readable := rfl
    rw [pass, Standing.call, hunread]
    dsimp only
    rw [htake]
    cases hfront : Metadata.atFront framer.arena.readable with
    | error fault => exact ⟨rfl, .nil, rfl, rfl, hstays _, harena⟩
    | ok front =>
      cases front with
      | none => exact ⟨rfl, .nil, rfl, rfl, hstays _, harena⟩
      | some front =>
        obtain ⟨metadata, length⟩ := front
        have hroom : length ≤ framer.renew.arena.readableSize := by
          rw [← Arena.length_readable harena, hreadable]
          exact Metadata.length_le_of_atFront hfront
        have hbehind : ((framer.renew.advance length).compact).arena.readable =
            framer.arena.readable.drop length := by
          rw [← hreadable, ← Arena.readable_consume]
          exact Arena.readable_compact (harena.consume hroom)
        have hdrain := @follows_drain _ _ _ hconvert metadata (framer.renew.advance length).compact
          (harena.consume hroom).compact
        rw [hbehind] at hdrain
        exact ⟨rfl, hdrain.items, hdrain.problems, hdrain.outcome, hdrain.standing,
          hdrain.wellFormed⟩

/-- The bytes behind a frame with a code of the catalog are its send timestamp. -/
theorem trailer?_of_isKnown {r : Record} (hknown : isKnown r.storage = true) :
    r.trailer? = r.tsOut.toOption := by
  obtain ⟨entry, hentry⟩ := Option.isSome_iff_exists.mp hknown
  refine r.trailer?_eq_toOption_tsOut_iff.mpr (.inl ⟨entry, ?_⟩)
  rw [Record.rtype, Header.rtypeEntry, Record.header, hentry]

theorem converts_own : Converts Delivery.IsOwned own := by
  intro metadata view hframe hknown
  obtain ⟨owned, howned⟩ := Delivery.toOwned_of_isFrame hframe hknown
  refine ⟨⟨owned, _⟩, by rw [own, howned]; rfl, howned, ?_⟩
  rw [trailer?_of_isKnown hknown]
  rfl

theorem converts_view : Converts Delivery.IsViewed fun _ view => .ok view :=
  fun _ view hframe hknown => ⟨view, rfl, rfl, Delivery.toOwned_of_isFrame hframe hknown⟩

theorem follows_own {d : Decoder} (h : d.WellFormed) :
    Follows Delivery.IsOwned d.standing.call (d.pass own) :=
  follows_pass converts_own h

theorem follows_view {d : Decoder} (h : d.WellFormed) :
    Follows Delivery.IsViewed d.standing.call (d.pass fun _ view => .ok view) :=
  follows_pass converts_view h

theorem decode_snd (d : Decoder) :
    d.decode.2 = if d.phase.hasFailed then (d.pass own).2 else (d.pass own).2.compact := rfl

theorem WellFormed.decode {d : Decoder} (h : d.WellFormed) : d.decode.2.WellFormed := by
  have hpass := (follows_own h).wellFormed
  rw [decode_snd]
  split
  · exact hpass
  · exact hpass.compact

theorem standing_decode {d : Decoder} (h : d.WellFormed) :
    d.decode.2.standing = d.standing.call.2 := by
  have hpass := follows_own h
  rw [decode_snd]
  split
  · exact hpass.standing
  · exact (standing_compact hpass.wellFormed).trans hpass.standing

/-- What a call for owned records gives is told by the metadata and the records that it comes upon. -/
theorem items_decode_congr {d d' : Decoder} (h : d.WellFormed) (h' : d'.WellFormed)
    (hpreamble : d.standing.call.1.preamble = d'.standing.call.1.preamble)
    (hdeliveries : d.standing.call.1.deliveries = d'.standing.call.1.deliveries) :
    d.decode.1.items = d'.decode.1.items := by
  have hown := follows_own h
  have hown' := follows_own h'
  have hitems := hown.items
  rw [hdeliveries] at hitems
  have hrecords : (d.pass own).1.batch.items = (d'.pass own).1.batch.items :=
    List.right_unique_forall₂' Delivery.rightUnique_isOwned hitems hown'.items
  have hmetadata : (d.pass own).1.preamble = (d'.pass own).1.preamble :=
    hown.preamble.trans (hpreamble.trans hown'.preamble.symm)
  simp only [decode, hrecords, hmetadata]

/-- The views that are handed over are those of the records. -/
theorem records_decodeViews {d : Decoder} (h : d.WellFormed) :
    d.decodeViews.1.items.map (·.record) = d.standing.call.1.records := by
  have hitems : List.Forall₂ Delivery.IsViewed d.standing.call.1.deliveries d.decodeViews.1.items :=
    (follows_view h).items
  rw [Yield.records]
  generalize d.standing.call.1.deliveries = deliveries at hitems ⊢
  generalize d.decodeViews.1.items = items at hitems ⊢
  induction hitems with
  | nil => rfl
  | cons hfirst _ ih => rw [List.map_cons, List.map_cons, hfirst.record, ih]

theorem WellFormed.decodeViews {d : Decoder} (h : d.WellFormed) : d.decodeViews.2.WellFormed :=
  (follows_view h).wellFormed

theorem standing_decodeViews {d : Decoder} (h : d.WellFormed) :
    d.decodeViews.2.standing = d.standing.call.2 :=
  (follows_view h).standing

/-- The records of a stream that is handed over in one piece. -/
theorem records_decodeViews_fresh (bs : Bytes) :
    (fresh.write bs).decodeViews.1.items.map (·.record) = (Standing.whole bs).1.records := by
  rw [← call_standing_write_fresh]
  exact records_decodeViews (WellFormed.fresh.write bs)

/-- The reports on it. -/
theorem problems_decodeViews_fresh (bs : Bytes) :
    (fresh.write bs).decodeViews.1.problems = (Standing.whole bs).1.problems := by
  rw [← call_standing_write_fresh]
  exact (follows_view (WellFormed.fresh.write bs)).problems

/-- Its metadata. -/
theorem metadata?_decodeViews_fresh (bs : Bytes) :
    (fresh.write bs).decodeViews.2.metadata? = (Standing.whole bs).2.phase.metadata? := by
  rw [← call_standing_write_fresh, ← standing_decodeViews (WellFormed.fresh.write bs)]
  rfl

end Decoder

end MarketWire
