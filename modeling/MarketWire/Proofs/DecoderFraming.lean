import MarketWire.Proofs.DecoderRefinement

/-!
# What one call decodes

A decoder that is handed a stream in one piece and called once takes off the metadata and then the
frames behind it. Every byte that it consumes belongs to the metadata or to one of the frames, every
frame comes out as a record or as a report, and what is left over does not begin with a frame: it is
too short, or its header is not in order, and only then does the call fail.

## Main definitions

* `IsFraming` — how the consumed bytes are made up.
* `DecodedRecord.Copies` — when a decoded record is what a frame says.

## Main results

* `Decoder.decode_write_fresh` — **no byte is lost and none is decoded twice**.
* `Decoder.items_decode_insert` — a frame that is passed over does not disturb the others.
-/

namespace MarketWire

/-- The first `consumed` bytes are a block of the given length followed by frames. -/
structure IsFraming (bs : Bytes) (length consumed : Nat) (frames : List Bytes) : Prop where
  /-- The pieces behind the block are complete records. -/
  isFrame : ∀ frame ∈ frames, IsFrame frame
  /-- Together with the block they are what was consumed. -/
  take_eq : bs.take consumed = bs.take length ++ frames.flatten

/-- Consumed bytes are made up of frames in one way at most. -/
theorem IsFraming.unique {bs : Bytes} {length consumed : Nat} {frames others : List Bytes}
    (h : IsFraming bs length consumed frames) (h' : IsFraming bs length consumed others) :
    others = frames :=
  eq_of_flatten_eq h'.isFrame h.isFrame
    (List.append_cancel_left (h'.take_eq.symm.trans h.take_eq))

/-- The frames behind a block make up what is consumed with it. -/
theorem isFraming_segment (bs : Bytes) (length : Nat) :
    IsFraming bs length (length + (segment length (bs.drop length)).frames.flatten.length)
      (segment length (bs.drop length)).frames := by
  refine ⟨fun _ => isFrame_of_mem_segment, ?_⟩
  have hflatten := flatten_segment length (bs.drop length)
  generalize segment length (bs.drop length) = cut at *
  rw [List.take_add, ← hflatten, List.take_left]

/-- Behind the frames lies what is left of the bytes. -/
theorem drop_segment (bs : Bytes) (length : Nat) :
    bs.drop (length + (segment length (bs.drop length)).frames.flatten.length) =
      (segment length (bs.drop length)).rest := by
  have hflatten := flatten_segment length (bs.drop length)
  generalize segment length (bs.drop length) = cut at hflatten ⊢
  rw [← List.drop_drop, ← hflatten, List.drop_left]

/-- A decoded record is the copy of a frame in a stream with the given metadata. -/
structure DecodedRecord.Copies (metadata : Metadata) (frame : Bytes) (r : DecodedRecord) :
    Prop where
  /-- The layout is one that accepts the code of the frame. -/
  accepts : r.record.type.accepts (Header.ofBytes frame).rtype = true
  /-- The bytes are those at the front of the frame. -/
  bytes_eq : r.record.bytes = frame.take r.record.type.size
  /-- The send timestamp is what the eight bytes behind them say, if the metadata announces one and
  the frame has so many bytes. -/
  tsOut_eq : r.tsOut =
    if metadata.tsOut ∧ r.record.type.size + 8 ≤ frame.length then
      some (UInt64.ofNat (LittleEndian.decode ((frame.drop r.record.type.size).take 8)))
    else none

/-- Owned copies are copies of their frames, byte by byte. -/
theorem Delivery.IsOwned.copies {metadata : Metadata} {frame : Bytes} {r : DecodedRecord}
    (h : (Delivery.of metadata ⟨frame⟩).IsOwned r) (hframe : IsFrame frame)
    (hknown : isKnown frame = true) : r.Copies metadata frame := by
  obtain ⟨entry, hentry⟩ := Option.isSome_iff_exists.mp hknown
  obtain ⟨hroom, -⟩ := Record.variant_of_isFrame (r := ⟨frame⟩) hframe hentry
  have hlength : (Record.mk frame).size = frame.length := hframe.length_eq.symm
  have hrecord : r.record = .ofBytes entry.recordType frame :=
    Except.ok.inj (h.record.symm.trans (Record.toOwned_of_isFrame (r := ⟨frame⟩) hframe hentry))
  constructor
  case accepts =>
    rw [hrecord]
    exact RecordType.accepts_iff.mpr ⟨entry, hentry, rfl⟩
  case bytes_eq =>
    rw [hrecord]
    exact OwnedRecord.bytes_ofBytes (hlength ▸ hroom)
  case tsOut_eq =>
    have htime := Record.tsOut_of_isFrame (r := ⟨frame⟩) hframe hentry
    have htype : r.record.type = entry.recordType := congrArg OwnedRecord.type hrecord
    rw [h.tsOut, htype, Delivery.of]
    cases hts : metadata.tsOut with
    | false => simp
    | true => simpa using htime

namespace Decoder

/-- What a call gives on a stream with metadata at its front. -/
theorem whole_of_atFront {bs : Bytes} {length : Nat} {metadata : Metadata}
    (hfront : Metadata.atFront bs = .ok (some (metadata, length))) :
    Standing.whole bs =
      ({ (Standing.stream metadata length (bs.drop length)).1 with preamble := some metadata },
        (Standing.stream metadata length (bs.drop length)).2) := by
  have hunread : (Standing.fresh.write bs).unread = bs := rfl
  have hphase : (Standing.fresh.write bs).phase = .awaitingMetadata := rfl
  have hconsumed : (Standing.fresh.write bs).consumed + length = length := Nat.zero_add _
  rw [Standing.whole, Standing.call, hphase, hunread]
  dsimp only
  rw [hfront]
  dsimp only
  rw [hconsumed]

/-- What a call gives on a stream whose metadata can be read. -/
theorem whole_of_parse {bs : Bytes} {length : Nat} {metadata : Metadata}
    (hlength : Metadata.peekLength bs = .ok (some length)) (hroom : length ≤ bs.length)
    (hparse : Metadata.parse (bs.take length) = .ok metadata) :
    Standing.whole bs =
      ({ (Standing.stream metadata length (bs.drop length)).1 with preamble := some metadata },
        (Standing.stream metadata length (bs.drop length)).2) := by
  refine whole_of_atFront ?_
  rw [Metadata.atFront, hlength]
  dsimp only
  rw [if_neg (Nat.not_lt.mpr hroom), hparse]

/-- What a call gives on a block of metadata with further bytes behind it. -/
theorem whole_append {block : Bytes} {metadata : Metadata}
    (hblock : Metadata.atFront block = .ok (some (metadata, block.length))) (more : Bytes) :
    Standing.whole (block ++ more) =
      ({ (Standing.stream metadata block.length more).1 with preamble := some metadata },
        (Standing.stream metadata block.length more).2) := by
  have hfront := Metadata.atFront_append hblock nofun more
  rw [whole_of_atFront hfront, List.drop_left]

/-- What a call gives on a block with frames behind it, and behind them bytes at which no frame
begins. -/
theorem whole_of_frames {block : Bytes} {metadata : Metadata}
    (hblock : Metadata.atFront block = .ok (some (metadata, block.length))) {frames : List Bytes}
    (hframes : ∀ frame ∈ frames, IsFrame frame) {rest : Bytes}
    (hrest : (Front.ofBytes (block.length + frames.flatten.length) rest).size? = none) :
    let outcome := (Front.ofBytes (block.length + frames.flatten.length) rest).outcome
    Standing.whole (block ++ (frames.flatten ++ rest)) =
      ({ preamble := some metadata
         deliveries := (knownRecords frames).map (.of metadata)
         problems := skipped block.length frames
         outcome := outcome },
        ⟨.after metadata outcome, block.length + frames.flatten.length, rest⟩) := by
  rw [whole_append hblock, Standing.stream, segment_flatten_of_none hframes hrest]

/-- **No byte is lost and none is decoded twice.** Of a stream whose metadata can be read, one call
consumes the metadata and a row of frames, which is the only one that makes up these bytes. The
frames with a code of the catalog come out as records, byte by byte, and the others as reports, each
with its size, its code and its place. The call fails exactly when what is left begins with a header
that announces too little, and otherwise what is left is the beginning of a frame. -/
theorem decode_write_fresh {bs : Bytes} {length : Nat} {metadata : Metadata}
    (hlength : Metadata.peekLength bs = .ok (some length)) (hroom : length ≤ bs.length)
    (hparse : Metadata.parse (bs.take length) = .ok metadata) :
    let answer := (fresh.write bs).decode.1
    let last := (fresh.write bs).decode.2
    let next := Header.ofBytes last.unread
    ∃ frames records,
      IsFraming bs length last.consumed frames ∧
      (∀ others, IsFraming bs length last.consumed others → others = frames) ∧
      bs = bs.take last.consumed ++ last.unread ∧
      answer.items = .metadata metadata :: records.map .record ∧
      List.Forall₂ (fun frame decoded =>
          (Delivery.of metadata ⟨frame⟩).IsOwned decoded ∧ decoded.Copies metadata frame)
        (frames.filter isKnown) records ∧
      (fresh.write bs).decodeViews.1.items.map (·.record) = knownRecords frames ∧
      answer.problems = skipped length frames ∧
      (answer.outcome = .ok () ↔ last.unread.length < headerSize ∨
        next.Acceptable ∧ last.unread.length < next.recordSize) ∧
      (∀ fault, answer.outcome = .error fault ↔ headerSize ≤ last.unread.length ∧
        (next.recordSize < headerSize ∨ next.recordSize < RType.minSizeOfCode next.rtype) ∧
        fault = Front.complaint last.consumed next) ∧
      (∀ fault, answer.outcome = .error fault →
        fault.kind = .truncatedRecord ∧ last.phase = .failed metadata fault) := by
  have hwell := WellFormed.fresh.write bs
  have hwhole := call_standing_write_fresh bs
  generalize fresh.write bs = d at *
  have hown := follows_own hwell
  have hview := records_decodeViews hwell
  have hlast := standing_decode hwell
  rw [hwhole, whole_of_parse hlength hroom hparse] at hown hview hlast
  intro answer last next
  have hconsumed : last.consumed = length + (segment length (bs.drop length)).frames.flatten.length :=
    congrArg Standing.consumed hlast
  have hunread : last.unread = (segment length (bs.drop length)).rest :=
    congrArg Standing.unread hlast
  have hframing := isFraming_segment bs length
  obtain ⟨hnone, houtcome⟩ := front_segment_rest length (bs.drop length)
  have hflatten := flatten_segment length (bs.drop length)
  rw [← hconsumed] at hframing hnone houtcome
  rw [← hunread] at hnone houtcome hflatten
  have hanswer : answer.outcome = (Front.ofBytes last.consumed last.unread).outcome :=
    hown.outcome.trans houtcome.symm
  refine ⟨_, (d.pass own).1.batch.items, hframing, fun others => hframing.unique, ?bytes, ?items,
    ?records, ?views, hown.problems, ?success, ?failure, ?fault⟩
  case bytes =>
    rw [hframing.take_eq, List.append_assoc, hflatten, List.take_append_drop]
  case items =>
    have hitems : answer.items = (d.pass own).1.preamble.toList.map .metadata ++
        (d.pass own).1.batch.items.map .record := rfl
    rw [hitems, hown.preamble]
    rfl
  case records =>
    have hrecords := hown.items
    simp only [Standing.stream, knownRecords, List.forall₂_map_left_iff] at hrecords
    have hframes : ∀ frame ∈ (segment length (bs.drop length)).frames.filter isKnown,
        IsFrame frame ∧ isKnown frame = true := by
      intro frame hmem
      obtain ⟨hframe, hknown⟩ := List.mem_filter.mp hmem
      exact ⟨isFrame_of_mem_segment hframe, hknown⟩
    exact ((List.forall₂_and_left _ _).mpr ⟨hframes, hrecords⟩).imp
      fun frame decoded h => ⟨h.2, h.2.copies h.1.1 h.1.2⟩
  case views => exact hview.trans (Standing.records_stream ..)
  case success => rw [hanswer, Front.outcome_ofBytes_eq_ok_iff hnone]
  case failure =>
    intro fault
    rw [hanswer, Front.outcome_ofBytes_eq_error_iff, Header.not_acceptable_iff]
  case fault =>
    intro fault hfault
    have hphase : last.phase = .after metadata answer.outcome :=
      (congrArg Standing.phase hlast).trans (congrArg (Phase.after metadata) hown.outcome.symm)
    refine ⟨?_, by rw [hphase, hfault]; rfl⟩
    obtain ⟨-, -, rfl⟩ := Front.outcome_ofBytes_eq_error_iff.mp (hanswer ▸ hfault)
    exact Front.kind_complaint _ _

/-- Of frames behind a block, and behind them bytes at which no frame begins, one call consumes the
block and all of the frames. -/
theorem consumed_decode_write_fresh {block : Bytes} {metadata : Metadata}
    (hblock : Metadata.atFront block = .ok (some (metadata, block.length))) {frames : List Bytes}
    (hframes : ∀ frame ∈ frames, IsFrame frame) {rest : Bytes}
    (hrest : (Front.ofBytes (block.length + frames.flatten.length) rest).size? = none) :
    (fresh.write (block ++ (frames.flatten ++ rest))).decode.2.consumed =
      block.length + frames.flatten.length := by
  have hlast := standing_decode (WellFormed.fresh.write (block ++ (frames.flatten ++ rest)))
  rw [call_standing_write_fresh, whole_of_frames hblock hframes hrest] at hlast
  generalize fresh.write _ = d at hlast ⊢
  exact congrArg Standing.consumed hlast

/-- A block without symbols that announces send timestamps. -/
def exampleBlock : Bytes :=
  Metadata.magic ++ [1, 120, 0, 0, 0] ++ List.replicate 52 0 ++ [1] ++ List.replicate 67 0

/-- What the block says. -/
def examplePreamble : Metadata where
  schema := some ⟨0⟩
  endTs := some 0
  stypeIn := ⟨0⟩
  stypeOut := ⟨0⟩
  tsOut := true

theorem atFront_exampleBlock :
    Metadata.atFront exampleBlock = .ok (some (examplePreamble, exampleBlock.length)) := by
  decide +kernel

/-- An order with a send timestamp. -/
def exampleOrder : Bytes :=
  [16, 0xA0] ++ List.replicate 54 7 ++ [1, 0, 0, 0, 0, 0, 0, 2]

/-- The order, a record of a code outside the catalog, and a header that announces nothing. -/
def exampleStream : Bytes :=
  exampleBlock ++
    ([exampleOrder, [4, 0x99] ++ List.replicate 14 0].flatten ++ List.replicate headerSize 0)

theorem decode_write_fresh_exampleStream :
    Metadata.peekLength exampleStream = .ok (some 128) ∧ 128 ≤ exampleStream.length ∧
      Metadata.parse (exampleStream.take 128) = .ok examplePreamble ∧
      (∃ decoded,
        (fresh.write exampleStream).decode.1.items =
          [.metadata examplePreamble, .record decoded] ∧
        decoded.record.type = .mbo ∧ decoded.record.bytes = [16, 0xA0] ++ List.replicate 54 7 ∧
        decoded.tsOut = some 0x0200000000000001) ∧
      (fresh.write exampleStream).decode.1.problems = [.skippedRecord 16 0x99 192] ∧
      (fresh.write exampleStream).decode.1.outcome = .error (.undersizedHeader 208 0) := by
  have hlength : Metadata.peekLength exampleStream = .ok (some 128) := by decide +kernel
  have hroom : 128 ≤ exampleStream.length := by decide +kernel
  have hparse : Metadata.parse (exampleStream.take 128) = .ok examplePreamble := by decide +kernel
  have hframes : ∀ frame ∈ [exampleOrder, [4, 0x99] ++ List.replicate 14 0], IsFrame frame := by
    simp only [List.forall_mem_cons, List.not_mem_nil, false_implies, implies_true, and_true]
    exact ⟨⟨by decide, by decide, by decide⟩, ⟨by decide, by decide, by decide⟩⟩
  have hconsumed : (fresh.write exampleStream).decode.2.consumed = 208 :=
    (consumed_decode_write_fresh atFront_exampleBlock hframes (by decide +kernel)).trans
      (by decide +kernel)
  obtain ⟨frames, records, -, hunique, hbytes, hitems, hrecords, -, hproblems, -, hfailure, -⟩ :=
    decode_write_fresh hlength hroom hparse
  obtain rfl := hunique _ ⟨hframes, by rw [hconsumed]; decide +kernel⟩
  have hunread : exampleStream.drop 208 = (fresh.write exampleStream).decode.2.unread := by
    rw [hconsumed] at hbytes
    exact List.append_cancel_left ((List.take_append_drop 208 exampleStream).trans hbytes)
  rw [show List.filter isKnown _ = [exampleOrder] by decide +kernel] at hrecords
  obtain ⟨decoded, _, ⟨-, hcopies⟩, hnone, rfl⟩ := List.forall₂_cons_left_iff.mp hrecords
  cases List.forall₂_nil_left_iff.mp hnone
  have htype : decoded.record.type = .mbo := by
    have haccepts := hcopies.accepts
    revert haccepts
    generalize decoded.record.type = t
    cases t <;> decide
  refine ⟨hlength, hroom, hparse, ⟨decoded, hitems, htype, ?bytes, ?tsOut⟩,
    hproblems.trans (by decide +kernel), (hfailure _).mpr ?fault⟩
  case bytes =>
    rw [hcopies.bytes_eq, htype]
    decide +kernel
  case tsOut =>
    rw [hcopies.tsOut_eq, htype]
    decide +kernel
  case fault =>
    rw [← hunread, hconsumed]
    decide +kernel

/-- Frames are handed over before what is handed over of the rest, wherever that lies. -/
theorem deliveries_stream_flatten {frames : List Bytes} (hframes : ∀ frame ∈ frames, IsFrame frame)
    (metadata : Metadata) (offset : Nat) (rest : Bytes) :
    (Standing.stream metadata offset (frames.flatten ++ rest)).1.deliveries =
      (knownRecords frames ++ knownRecords (segment 0 rest).frames).map (.of metadata) := by
  rw [Standing.stream, segment_flatten hframes, Segmentation.prepend,
    frames_segment_congr _ 0, knownRecords_append]

/-- **A record that is passed over does not disturb the others.** A frame with a code outside the
catalog, put in between the frames of a stream, changes nothing about what is handed over. -/
theorem items_decode_insert {block frame : Bytes} {before : List Bytes} {metadata : Metadata}
    (hblock : Metadata.atFront block = .ok (some (metadata, block.length)))
    (hbefore : ∀ f ∈ before, IsFrame f) (hframe : IsFrame frame) (hskip : ¬isKnown frame = true)
    (rest : Bytes) :
    (fresh.write (block ++ ((before ++ [frame]).flatten ++ rest))).decode.1.items =
      (fresh.write (block ++ (before.flatten ++ rest))).decode.1.items := by
  have hinserted : ∀ f ∈ before ++ [frame], IsFrame f := by
    intro f hf
    rcases List.mem_append.mp hf with hf | hf
    · exact hbefore f hf
    · rwa [List.mem_singleton.mp hf]
  have hknown : knownRecords (before ++ [frame]) = knownRecords before := by
    rw [knownRecords_append]
    simp [knownRecords, hskip]
  have hcall := fun more =>
    (call_standing_write_fresh (block ++ more)).trans (whole_append hblock more)
  refine items_decode_congr (WellFormed.fresh.write _) (WellFormed.fresh.write _) ?preamble
    ?deliveries
  case preamble => rw [hcall, hcall]
  case deliveries =>
    rw [hcall, hcall]
    dsimp only
    rw [deliveries_stream_flatten hinserted, deliveries_stream_flatten hbefore, hknown]

end Decoder

end MarketWire
