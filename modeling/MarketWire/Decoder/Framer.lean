import MarketWire.Decoder.Arena
import MarketWire.Decoder.Aligned
import MarketWire.Record.Basic

/-!
# Cutting a stream into records

Behind the metadata a stream is a row of records. The header of each one says where the next one
begins, so a record whose type is unknown can be passed over, and a header that announces too few
bytes is the end of all decoding: nothing behind it can be found any more.

## Main definitions

* `Framer` — the arena together with what is known of the place in the stream.
* `Front.ofHeader`, `Framer.front` — what stands at the front of the unread bytes.
* `Framer.take` — takes one record and leaves a view of it.
* `Framer.shown` — what is found where a view points to.
* `Framer.drain` — takes all complete records.
* `View` — a record together with the place where its bytes lie.
* `Batch` — what a pass over the unread bytes yields.
-/

namespace MarketWire

/-! ### Views -/

/-- Where the bytes of a view lie. -/
inductive Place
  /-- In the arena, from this position on. -/
  | arena (position : Nat)
  /-- In this block of the store of aligned copies, from this word on. -/
  | aligned (block word : Nat)
  deriving DecidableEq, Repr

/-- A record of the stream. -/
structure View where
  /-- The record. -/
  record : Record
  /-- Where it lies. -/
  place : Place
  deriving DecidableEq, Repr

/-- What a pass over the unread bytes yields. -/
structure Batch (α : Type) where
  /-- The results in the order of the stream. -/
  items : List α := []
  /-- The records passed over in the order of the stream. -/
  problems : List Fault := []
  /-- How the pass ended. -/
  outcome : Outcome := .ok ()

/-! ### Framers -/

/-- A place in a stream of records. -/
structure Framer where
  /-- The bytes that have arrived. -/
  arena : Arena
  /-- The copies of records that do not begin at a multiple of eight. -/
  aligned : AlignedStore := {}
  /-- The number of bytes of the stream that are decoded or passed over. -/
  consumed : Nat := 0

/-- What stands at the front of the unread bytes. -/
inductive Front
  /-- No complete record. -/
  | incomplete
  /-- A header that announces too few bytes. -/
  | malformed (fault : Fault)
  /-- A record of so many bytes with a code outside the catalog. -/
  | unknown (size : Nat) (code : UInt8)
  /-- A record of so many bytes with a code of the catalog. -/
  | record (size : Nat)

/-- What stands at the front of so many bytes that have arrived and begin with a header, `offset`
being its place in the stream. The header is judged before the rest of its record is there. -/
def Front.ofHeader (offset available : Nat) (header : Header) : Front :=
  let size := header.recordSize
  if size < headerSize then
    .malformed (.undersizedHeader offset size)
  else
    match RType.ofCode? header.rtype with
    | some entry =>
      let expected := entry.minSize
      if size < expected then
        .malformed (.undersizedFrame header.rtype offset size expected)
      else if available < size then
        .incomplete
      else
        .record size
    | none => if available < size then .incomplete else .unknown size header.rtype

namespace Framer

/-- What stands at the front of the unread bytes. -/
def front (f : Framer) : Front :=
  let available := f.arena.readableSize
  if available < headerSize then
    .incomplete
  else
    .ofHeader f.consumed available (Header.ofBytes (f.arena.peek headerSize))

/-- Passes over the first bytes. -/
def advance (f : Framer) (size : Nat) : Framer :=
  { f with arena := f.arena.consume size, consumed := f.consumed + size }

/-- A view of the record of so many bytes at the front, and the place behind it. -/
def take (f : Framer) (size : Nat) : View × Framer :=
  let bytes := f.arena.peek size
  let behind := f.advance size
  if f.arena.readPos % AlignedStore.wordSize = 0 then
    (⟨⟨bytes⟩, .arena f.arena.readPos⟩, behind)
  else
    let word := f.aligned.used
    let aligned := f.aligned.copy bytes (size + behind.arena.readableSize)
    (⟨⟨bytes⟩, .aligned aligned.block word⟩, { behind with aligned := aligned })

/-- The bytes that are found where a view points to, as many as its record has. -/
def shown (f : Framer) (view : View) : Option Bytes :=
  match view.place with
  | .arena position =>
    some (f.arena.cells.extract position (position + view.record.size)).toList
  | .aligned block word => f.aligned.bytesAt block word view.record.size

/-- Makes room for another pass. Views of earlier passes end here. -/
def renew (f : Framer) : Framer :=
  { f with arena := f.arena.compact, aligned := f.aligned.clear }

/-- Moves the unread bytes to the front of the arena. -/
def compact (f : Framer) : Framer :=
  { f with arena := f.arena.compact }

/-- A copy is found wherever the store of copies is. -/
theorem shown_congr {f g : Framer} {view : View} {block word : Nat}
    (hplace : view.place = .aligned block word) (haligned : g.aligned = f.aligned) :
    g.shown view = f.shown view := by
  rw [shown, shown, hplace, haligned]

@[simp] theorem readableSize_advance (f : Framer) (size : Nat) :
    (f.advance size).arena.readableSize = f.arena.readableSize - size :=
  f.arena.readableSize_consume size

@[simp] theorem arena_take (f : Framer) (size : Nat) :
    (f.take size).2.arena = f.arena.consume size := by
  simp only [take]
  split <;> rfl

/-- A record at the front is there in full and has at least a header. -/
theorem size_bounds_of_front {f : Framer} {size : Nat}
    (h : f.front = .record size ∨ ∃ code, f.front = .unknown size code) :
    headerSize ≤ size ∧ size ≤ f.arena.readableSize := by
  grind [front, Front.ofHeader]

/-- Takes every complete record and turns its view into a result, until the unread bytes hold none
or something fails. Records with a code outside the catalog are passed over and reported. -/
def drain {α : Type} (convert : View → Except Fault α) (f : Framer) : Batch α × Framer :=
  match _h : f.front with
  | .incomplete => ({}, f)
  | .malformed fault => ({ outcome := .error fault }, f)
  | .unknown size code =>
    let (batch, last) := drain convert (f.advance size)
    ({ batch with problems := .skippedRecord size code f.consumed :: batch.problems }, last)
  | .record size =>
    match convert (f.take size).1 with
    | .error fault => ({ outcome := .error fault }, (f.take size).2)
    | .ok item =>
      let (batch, last) := drain convert (f.take size).2
      ({ batch with items := item :: batch.items }, last)
termination_by f.arena.readableSize
decreasing_by
  · have := size_bounds_of_front (.inr ⟨code, _h⟩)
    simp only [headerSize] at this
    simp only [readableSize_advance]
    omega
  · have := size_bounds_of_front (.inl _h)
    simp only [headerSize] at this
    simp only [arena_take, Arena.readableSize_consume]
    omega

/-- Every record that is taken takes at least its header away from the unread bytes. -/
theorem readableSize_drain_le {α : Type} (convert : View → Except Fault α) (f : Framer) :
    (f.drain convert).2.arena.readableSize + headerSize * (f.drain convert).1.items.length ≤
      f.arena.readableSize := by
  fun_induction drain convert f with
  | case1 => simp
  | case2 => simp
  | case3 f size code h batch last hdrain ih =>
    rw [hdrain, readableSize_advance] at ih
    dsimp only at ih ⊢
    omega
  | case4 f size h fault hconvert =>
    simp only [arena_take, Arena.readableSize_consume, List.length_nil]
    omega
  | case5 f size h item hconvert batch last hdrain ih =>
    have := size_bounds_of_front (.inl h)
    rw [hdrain, arena_take, Arena.readableSize_consume] at ih
    simp only [List.length_cons, Nat.mul_succ] at ih ⊢
    omega

end Framer

end MarketWire
