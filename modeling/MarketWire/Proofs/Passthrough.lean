import MarketWire.Proofs.BatchCalls
import MarketWire.Proofs.EncoderRuns
import Mathlib.Data.List.TakeDrop

/-!
# Streams that are passed on

A stream that is decoded piece by piece and handed to a binary encoder comes out as it went in, up to
what no record holds: frames whose code is not in the catalog are passed over, and what lies behind
the last frame is not written. Where the pieces end has no influence, and neither has a fault behind
good records: all of them are written before the fault is given back.

## Main results

* `BinaryEncoder.encodeStream_eq` — what an encoder writes of a stream, told by all its records.
* `BinaryEncoder.encodeStream_passes_on` — **the frames come out as they went in**.
-/

namespace MarketWire

namespace BinaryEncoder

variable {ς : Type} [RecordStream ς] {s : ς} {e : BinaryEncoder BufferSink}

/-- A record of the stream is written, and then what is behind it. -/
theorem exists_encodeStream_of_some (h : e.started = true) {r : Record}
    (hnext : (RecordStream.next s).1 = some r) :
    ∃ e' : BinaryEncoder BufferSink, e'.started = true ∧ e'.sink.bytes = e.sink.bytes ++ r.bytes ∧
      RecordEncoder.encodeStream e s =
        RecordEncoder.encodeStream e' (RecordStream.next s).2 := by
  have hrecord : RecordEncoder.encodeRecord e r = _ := encodeRecord_of_started h r
  refine ⟨{ sink := { content := e.sink.content ++ r.bytes }, started := true }, rfl,
    BufferSink.bytes_append e.sink r.bytes, ?_⟩
  rw [RecordEncoder.encodeStream_of_some e hnext, hrecord]

/-- At the end of the stream nothing is written, and its fault is given back. -/
theorem encodeStream_of_none (hnext : (RecordStream.next s).1 = none) :
    RecordEncoder.encodeStream e s =
      (match RecordStream.fault? (RecordStream.next s).2 with
        | some fault => .error fault
        | none => .ok (), e, (RecordStream.next s).2) := by
  rw [RecordEncoder.encodeStream_of_none e hnext]
  cases RecordStream.fault? (RecordStream.next s).2 <;> rfl

/-- **What an encoder writes of a stream** into a buffer: the bytes of all its records. It takes all
of them and ends as the stream does. -/
theorem encodeStream_eq (s : ς) (h : e.started = true) :
    let taken := RecordStream.takeAll s
    let done := RecordEncoder.encodeStream e s
    done.1 = (match RecordStream.fault? taken.2 with
      | some fault => .error fault
      | none => .ok ()) ∧
      done.2.1.sink.bytes = e.sink.bytes ++ (taken.1.map (·.bytes)).flatten ∧
      done.2.2 = taken.2 := by
  dsimp only
  fun_induction RecordStream.takeAll s generalizing e with
  | case1 s r hnext rs last htaken ih =>
    obtain ⟨e', hstarted, hwritten, hstream⟩ := exists_encodeStream_of_some h hnext
    obtain ⟨houtcome, hbytes, hlast⟩ := ih hstarted
    rw [htaken] at houtcome hbytes hlast
    rw [hwritten, List.append_assoc] at hbytes
    rw [hstream]
    exact ⟨houtcome, hbytes, hlast⟩
  | case2 s hnext =>
    rw [encodeStream_of_none hnext]
    exact ⟨rfl, (List.append_nil _).symm, rfl⟩

/-- **The frames come out as they went in.** A stream whose metadata was read and can be written again
is handed to a fresh encoder over a buffer. What comes out is that metadata and behind it all frames
of the stream with a code of the catalog, up to the place where no other frame begins; and encoding
ends as the stream does. If the metadata is written as it was read and no frame is passed over, the
consumed bytes come out, and these are all of the bytes exactly if the stream ends well. -/
theorem encodeStream_passes_on {bs : Bytes} {chunkSize : Nat} (hchunk : 0 < chunkSize)
    {m : Metadata} {block : Bytes}
    (hread : (DecodingStream.overBytes bs chunkSize).readMetadata.2.metadata? = some m)
    (hblock : m.encode = .ok block) :
    let read := (DecodingStream.overBytes bs chunkSize).readMetadata
    let opened := fresh.encodeMetadata m
    let done := RecordEncoder.encodeStream opened.2 read.2
    let content := done.2.1.sink.bytes
    ∃ length consumed frames,
      Metadata.peekLength bs = .ok (some length) ∧ Metadata.parse (bs.take length) = .ok m ∧
      IsFraming bs length consumed frames ∧
      (∀ size, size ≤ (bs.drop consumed).length → ¬IsFrame ((bs.drop consumed).take size)) ∧
      read.1 = .ok () ∧ opened.1 = .ok () ∧
      content = block ++ (frames.filter isKnown).flatten ∧
      done.1 = done.2.2.outcome ∧ done.1 = finalOutcome bs ∧
      (block = bs.take length → (∀ frame ∈ frames, isKnown frame) →
        content = bs.take consumed ∧ (content = bs ↔ done.1 = .ok ())) := by
  intro read opened done content
  obtain ⟨htaken, houtcome, hfound, hmetadata⟩ := DecodingStream.takeAll_readMetadata bs hchunk
  obtain ⟨length, hfront⟩ := Standing.exists_atFront_of_metadata? (hfound m hread)
  obtain ⟨hlength, hparse⟩ := Metadata.parse_of_atFront hfront
  have hframing := isFraming_segment bs length
  have hdrop := drop_segment bs length
  have hnone := (front_segment_rest length (bs.drop length)).1
  have hfinal := finalOutcome_eq_ok_iff hfront
  have hrecords : (RecordStream.takeAll read.2).1.map (·.bytes) =
      (segment length (bs.drop length)).frames.filter isKnown := by
    rw [htaken, Decoder.whole_of_atFront hfront, ← map_bytes_knownRecords hframing.isFrame]
    exact congrArg (List.map _) (Standing.records_stream ..)
  generalize segment length (bs.drop length) = cut at hframing hdrop hnone hfinal hrecords
  generalize length + cut.frames.flatten.length = consumed at hframing hdrop hnone
  have hopened : opened = (.ok (), { sink := { content := #[] ++ block }, started := true }) :=
    encodeMetadata_of_ok rfl hblock
  have hstarted : opened.2.started = true := by rw [hopened]
  obtain ⟨hdone, hcontent, hlast⟩ := encodeStream_eq read.2 hstarted
  -- The buffer was empty, so the block is all that lies in it before the records.
  have hblockBytes : opened.2.sink.bytes = block := by
    rw [hopened]
    exact BufferSink.bytes_append {} block
  have hend : done.1 = finalOutcome bs := hdone.trans houtcome
  rw [hrecords, hblockBytes] at hcontent
  refine ⟨length, consumed, cut.frames, hlength, hparse, hframing, ?behind,
    (hmetadata m (hfound m hread)).1, congrArg Prod.fst hopened, hcontent, ?status, hend, ?same⟩
  case behind =>
    rw [hdrop]
    intro size hsize hframe
    rw [Front.size?_ofBytes_eq_some_iff.mpr ⟨hsize, hframe⟩] at hnone
    cases hnone
  case status =>
    rw [hlast]
    exact hdone
  case same =>
    intro hsame hall
    have hconsumed : content = bs.take consumed := by
      rw [hframing.take_eq, ← hsame]
      rwa [List.filter_eq_self.mpr hall] at hcontent
    refine ⟨hconsumed, ?_⟩
    rw [hconsumed, hend, hfinal, ← hdrop, List.drop_eq_nil_iff]
    exact List.take_eq_self_iff bs

/-- A block and a bar. -/
def exampleSource : Bytes :=
  Metadata.blockOf (List.replicate 120 0) ++ exampleBar.storage

theorem encodeStream_passes_on_exampleSource :
    ∃ m block length consumed frames,
      (DecodingStream.overBytes exampleSource 5).readMetadata.2.metadata? = some m ∧
      m.encode = .ok block ∧ IsFraming exampleSource length consumed frames ∧
      (RecordEncoder.encodeStream (fresh.encodeMetadata m).2
        (DecodingStream.overBytes exampleSource 5).readMetadata.2).2.1.sink.bytes =
          block ++ (frames.filter isKnown).flatten := by
  have hfive : 0 < 5 := by decide
  have hfront : Metadata.atFront exampleSource =
      .ok (some ({ schema := some ⟨0⟩, endTs := some 0, stypeIn := ⟨0⟩, stypeOut := ⟨0⟩ }, 128)) := by
    decide +kernel
  have hblock : Metadata.encode
      { schema := some ⟨0⟩, endTs := some 0, stypeIn := ⟨0⟩, stypeOut := ⟨0⟩ } =
        .ok (Metadata.blockOf (List.replicate 120 0)) := by
    decide +kernel
  obtain ⟨-, -, -, hmetadata⟩ := DecodingStream.takeAll_readMetadata exampleSource hfive
  obtain ⟨-, hread⟩ := hmetadata _ (by rw [Decoder.whole_of_atFront hfront]; exact metadata?_after _ _)
  obtain ⟨length, consumed, frames, -, -, hframing, -, -, -, hcontent, -⟩ :=
    encodeStream_passes_on hfive hread hblock
  exact ⟨_, _, length, consumed, frames, hread, hblock, hframing, hcontent⟩

end BinaryEncoder

end MarketWire
