import MarketWire.Decoder.Framer
import MarketWire.Metadata.Parser

/-!
# Decoders

A decoder is handed the bytes of a stream in pieces of any size, and each call to decode answers
with whatever is complete by then: first the metadata, once, and then records. It never waits, and
what it answers does not depend on where the pieces were cut.

Bad metadata leaves the decoder where it is, so that every later call fails in the same way. A
record that announces too few bytes ends the stream: the decoder remembers the fault and gives it
to every later call.

## Main definitions

* `Decoder`, `Phase` — the state of a decoder.
* `Decoder.write` — hands over bytes.
* `Decoder.decode` — metadata and owned records.
* `Decoder.decodeViews` — views of the records, which lie in the decoder until the next call.
-/

namespace MarketWire

/-- How far a decoder has come. -/
inductive Phase
  /-- The metadata is not there yet. -/
  | awaitingMetadata
  /-- The metadata is there, and records are decoded. -/
  | streaming (metadata : Metadata)
  /-- A record could not be decoded. -/
  | failed (metadata : Metadata) (fault : Fault)
  deriving DecidableEq, Repr

namespace Phase

/-- The metadata, once it is there. -/
def metadata? : Phase → Option Metadata
  | .awaitingMetadata => none
  | .streaming metadata => some metadata
  | .failed metadata _ => some metadata

/-- Whether a record could not be decoded. -/
def hasFailed : Phase → Bool
  | .failed .. => true
  | _ => false

/-- The phase after a pass over the records. -/
def after (metadata : Metadata) : Outcome → Phase
  | .ok () => .streaming metadata
  | .error fault => .failed metadata fault

end Phase

/-- A record that was decoded, with its send timestamp when the metadata announces one. -/
structure DecodedRecord where
  /-- The record. -/
  record : OwnedRecord
  /-- The time of sending in nanoseconds since 1970. -/
  tsOut : Option UInt64
  deriving DecidableEq

/-- What a decoder gives out. -/
inductive Item
  | metadata (metadata : Metadata)
  | record (record : DecodedRecord)
  deriving DecidableEq

/-- The state of a decoder. -/
structure Decoder where
  /-- The unread bytes and their place in the stream. -/
  framer : Framer
  /-- How far the decoder has come. -/
  phase : Phase

namespace Decoder

/-- A decoder that has not seen any bytes. -/
def fresh : Decoder where
  framer := { arena := .ofCapacity Arena.defaultCapacity }
  phase := .awaitingMetadata

/-- The metadata, once it is decoded. -/
def metadata? (d : Decoder) : Option Metadata :=
  d.phase.metadata?

/-- The bytes that are not decoded yet. -/
def unread (d : Decoder) : Bytes :=
  d.framer.arena.readable

/-- The number of bytes that are not decoded yet. -/
def unreadSize (d : Decoder) : Nat :=
  d.framer.arena.readableSize

/-- The number of bytes of the stream that are decoded or passed over. -/
def consumed (d : Decoder) : Nat :=
  d.framer.consumed

/-- Hands over further bytes. -/
def write (d : Decoder) (bs : Bytes) : Decoder :=
  { d with framer := { d.framer with arena := d.framer.arena.append bs } }

/-- Takes the metadata from the front of the unread bytes if all of it is there. The records behind
it then begin at the front of the arena. -/
def takeMetadata (f : Framer) : Except Fault (Option Metadata) × Framer :=
  match Metadata.peekLength f.arena.readable with
  | .error fault => (.error fault, f)
  | .ok none => (.ok none, f)
  | .ok (some length) =>
    if f.arena.readableSize < length then
      (.ok none, f)
    else
      match Metadata.parse (f.arena.peek length) with
      | .error fault => (.error fault, f)
      | .ok metadata => (.ok (some metadata), (f.advance length).compact)

/-- What one call decodes: the metadata if this call came upon it, and the results for the records,
each made from its view and the metadata. -/
structure Pass (α : Type) where
  /-- The metadata if it was decoded in this call. -/
  preamble : Option Metadata := none
  /-- The results for the records. -/
  batch : Batch α := {}

/-- Decodes what is complete. -/
def pass {α : Type} (convert : Metadata → View → Except Fault α) (d : Decoder) :
    Pass α × Decoder :=
  match d.phase with
  | .failed _ fault => ({ batch := { outcome := .error fault } }, d)
  | .streaming metadata =>
    let (batch, last) := d.framer.renew.drain (convert metadata)
    ({ batch := batch }, ⟨last, .after metadata batch.outcome⟩)
  | .awaitingMetadata =>
    match takeMetadata d.framer.renew with
    | (.error fault, f) => ({ batch := { outcome := .error fault } }, ⟨f, .awaitingMetadata⟩)
    | (.ok none, f) => ({}, ⟨f, .awaitingMetadata⟩)
    | (.ok (some metadata), f) =>
      let (batch, last) := f.drain (convert metadata)
      ({ preamble := some metadata, batch := batch }, ⟨last, .after metadata batch.outcome⟩)

/-- The owned copy of a record, with the send timestamp if the metadata announces one and the record
has room for it. -/
def own (metadata : Metadata) (view : View) : Except Fault DecodedRecord := do
  let record ← view.record.toOwned
  let tsOut := if metadata.tsOut then view.record.trailer? else none
  return { record := record, tsOut := tsOut }

/-- Moves the unread bytes to the front of the arena. -/
def compact (d : Decoder) : Decoder :=
  { d with framer := d.framer.compact }

/-- Decodes what is complete into owned records, behind the metadata if this call came upon it.
Owned records do not lie in the arena, which is compacted at once; only a decoder that had failed
before is left as it is. -/
def decode (d : Decoder) : Batch Item × Decoder :=
  let (pass, last) := d.pass own
  let items := pass.preamble.toList.map .metadata ++ pass.batch.items.map .record
  ({ items := items, problems := pass.batch.problems, outcome := pass.batch.outcome },
    if d.phase.hasFailed then last else last.compact)

/-- Decodes what is complete into views. They hold until the next call. -/
def decodeViews (d : Decoder) : Batch View × Decoder :=
  let (pass, d) := d.pass fun _ view => .ok view
  (pass.batch, d)

theorem unreadSize_takeMetadata_le (f : Framer) :
    (takeMetadata f).2.arena.readableSize ≤ f.arena.readableSize := by
  simp only [takeMetadata]
  split
  · exact Nat.le_refl _
  · exact Nat.le_refl _
  · split
    · exact Nat.le_refl _
    · split
      · exact Nat.le_refl _
      · simp [Framer.compact]

/-- What is decoded is no longer unread. -/
theorem unreadSize_pass_le {α : Type} (convert : Metadata → View → Except Fault α) (d : Decoder) :
    (d.pass convert).2.unreadSize + headerSize * (d.pass convert).1.batch.items.length ≤
      d.unreadSize := by
  simp only [pass, unreadSize]
  split
  · simp
  · have := d.framer.renew.readableSize_drain_le (convert ‹Metadata›)
    simpa [Framer.renew] using this
  · have := unreadSize_takeMetadata_le d.framer.renew
    split <;> rename_i htake <;> rw [htake] at this <;>
      simp only [Framer.renew, Arena.readableSize_compact] at this
    · simpa using this
    · simpa using this
    · have hdrain := Framer.readableSize_drain_le (convert ‹Metadata›) ‹Framer›
      exact Nat.le_trans hdrain this

theorem unreadSize_decodeViews_le (d : Decoder) :
    d.decodeViews.2.unreadSize + headerSize * d.decodeViews.1.items.length ≤ d.unreadSize :=
  d.unreadSize_pass_le _

end Decoder

end MarketWire
