import MarketWire.Decoder.Arena

/-!
# Arenas are queues

The unread bytes of an arena form a queue: appending puts bytes behind them, consuming takes bytes
away from the front, and moving them to the front of the cells changes nothing about them. Peeking
shows the front of the queue without taking it away.

All of this holds of arenas whose positions are in order, `Arena.WellFormed`. A fresh arena is of
that kind and every operation keeps it so, consuming under the condition that callers observe: no
more is consumed than is unread.

## Main definitions

* `Arena.WellFormed` — the read position, the write position and the end of the cells are in order.

## Main results

* `Arena.readable_append`, `readable_consume`, `readable_compact`, `readable_clear` — the operations
  as seen from outside.
* `Arena.peek_eq_take` — what is peeked at is the front of the queue.
-/

namespace MarketWire

namespace Arena

/-- The positions are in order: read position, write position, end of the cells. -/
structure WellFormed (a : Arena) : Prop where
  /-- Nothing is read that was not written. -/
  readPos_le : a.readPos ≤ a.writePos
  /-- Nothing is written outside of the cells. -/
  writePos_le : a.writePos ≤ a.cells.size

/-! ### Writing over cells -/

theorem toList_overwrite {cells : Array UInt8} {position : Nat} {bs : Bytes}
    (h : position + bs.length ≤ cells.size) :
    (overwrite cells position bs).toList =
      cells.toList.take position ++ bs ++ cells.toList.drop (position + bs.length) := by
  induction bs generalizing cells position with
  | nil => simp [overwrite]
  | cons b bs ih =>
    simp only [List.length_cons] at h
    have hpos : position < cells.toList.length := by rw [Array.length_toList]; omega
    have htake : (cells.toList.set position b).take (position + 1) =
        cells.toList.take position ++ [b] := by
      rw [List.take_succ_eq_append_getElem (by simpa using hpos), List.getElem_set_self,
        List.take_set_of_le (Nat.le_refl _)]
    rw [overwrite, ih (by rw [Array.size_setIfInBounds]; omega), Array.toList_setIfInBounds,
      htake, List.drop_set_of_lt (by omega)]
    simp [Nat.add_assoc, Nat.add_comm 1]

@[simp] theorem size_overwrite (cells : Array UInt8) (position : Nat) (bs : Bytes) :
    (overwrite cells position bs).size = cells.size := by
  induction bs generalizing cells position with
  | nil => rfl
  | cons b bs ih => rw [overwrite, ih, Array.size_setIfInBounds]

theorem size_enlarge (cells : Array UInt8) (size : Nat) :
    (enlarge cells size).size = max cells.size size := by
  simp only [enlarge, Array.size_append, Array.size_replicate]
  omega

theorem toList_enlarge (cells : Array UInt8) (size : Nat) :
    (enlarge cells size).toList = cells.toList ++ List.replicate (size - cells.size) 0 := by
  simp [enlarge]

/-! ### The queue of an arena -/

/-- The unread bytes are those between the two positions. -/
theorem readable_eq (a : Arena) : a.readable = (a.cells.toList.take a.writePos).drop a.readPos := by
  simp [readable, peek, readableSize, List.extract_eq_take_drop, List.drop_take]

theorem length_readable {a : Arena} (h : a.WellFormed) : a.readable.length = a.readableSize := by
  have := h.writePos_le
  rw [readable_eq, List.length_drop, List.length_take, Array.length_toList, readableSize]
  omega

/-- Peeking shows the front of the queue. -/
theorem peek_eq_take {a : Arena} {size : Nat} (h : size ≤ a.readableSize) :
    a.peek size = a.readable.take size := by
  rw [readableSize] at h
  rw [readable_eq, List.drop_take, List.take_take, Nat.min_eq_left h]
  simp [peek, List.extract_eq_take_drop]

theorem readable_ofCapacity (capacity : Nat) : (ofCapacity capacity).readable = [] := by
  simp [readable_eq, ofCapacity]

/-- Consuming takes bytes away from the front of the queue. -/
theorem readable_consume (a : Arena) (size : Nat) :
    (a.consume size).readable = a.readable.drop size := by
  rw [readable_eq, readable_eq, List.drop_drop]
  rfl

/-- Forgetting all bytes leaves an empty queue. -/
theorem readable_clear (a : Arena) : a.clear.readable = [] := by
  simp [readable_eq, clear]

/-- Cells that agree up to the write position and have room behind it take up further bytes. -/
theorem readable_overwrite {a : Arena} (h : a.WellFormed) {cells : Array UInt8} {bs : Bytes}
    (hroom : a.writePos + bs.length ≤ cells.size)
    (hsame : cells.toList.take a.writePos = a.cells.toList.take a.writePos) :
    readable ⟨overwrite cells a.writePos bs, a.readPos, a.writePos + bs.length⟩ =
      a.readable ++ bs := by
  have hlen : (a.cells.toList.take a.writePos).length = a.writePos := by
    rw [List.length_take, Array.length_toList, Nat.min_eq_left h.writePos_le]
  rw [readable_eq, readable_eq, toList_overwrite hroom, hsame, List.take_left' (by simp [hlen]),
    List.drop_append_of_le_length (by rw [hlen]; exact h.readPos_le)]

/-- Appending puts bytes at the end of the queue. -/
theorem readable_append {a : Arena} (h : a.WellFormed) (bs : Bytes) :
    (a.append bs).readable = a.readable ++ bs := by
  rw [append]
  split
  · rename_i hempty
    rw [List.isEmpty_iff.mp hempty, List.append_nil]
  · dsimp only
    split
    · refine readable_overwrite h ?_ ?_
      · rw [size_enlarge]
        omega
      · rw [toList_enlarge, List.take_append_of_le_length (by simpa using h.writePos_le)]
    · exact readable_overwrite h (by omega) rfl

/-- Moving the unread bytes to the front of the cells changes nothing about them. -/
theorem readable_compact {a : Arena} (h : a.WellFormed) : a.compact.readable = a.readable := by
  have hwrite := h.writePos_le
  have hlen := length_readable h
  rw [compact]
  split
  · rfl
  · have hroom : 0 + a.readable.length ≤ a.cells.size := by
      rw [hlen, readableSize]
      omega
    rw [readable_eq, toList_overwrite hroom]
    simp [← hlen]

/-! ### Operations keep the positions in order -/

theorem WellFormed.ofCapacity (capacity : Nat) : (ofCapacity capacity).WellFormed :=
  ⟨Nat.le_refl _, Nat.zero_le _⟩

theorem WellFormed.append {a : Arena} (h : a.WellFormed) (bs : Bytes) : (a.append bs).WellFormed := by
  obtain ⟨hread, hwrite⟩ := h
  rw [Arena.append]
  split
  · exact ⟨hread, hwrite⟩
  · refine ⟨by dsimp only; omega, ?_⟩
    dsimp only
    rw [size_overwrite]
    split
    · rw [size_enlarge]
      omega
    · omega

/-- No more may be consumed than is unread. -/
theorem WellFormed.consume {a : Arena} (h : a.WellFormed) {size : Nat}
    (hsize : size ≤ a.readableSize) : (a.consume size).WellFormed := by
  obtain ⟨hread, hwrite⟩ := h
  rw [readableSize] at hsize
  exact ⟨by dsimp only [Arena.consume]; omega, hwrite⟩

theorem WellFormed.compact {a : Arena} (h : a.WellFormed) : a.compact.WellFormed := by
  rw [Arena.compact]
  split
  · exact h
  · refine ⟨Nat.zero_le _, ?_⟩
    have := h.writePos_le
    dsimp only
    rw [size_overwrite, readableSize]
    omega

theorem WellFormed.clear (a : Arena) : a.clear.WellFormed :=
  ⟨Nat.le_refl _, Nat.zero_le _⟩

end Arena

end MarketWire
