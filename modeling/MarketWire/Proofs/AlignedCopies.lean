import Mathlib.Algebra.GroupWithZero.Nat
import MarketWire.Proofs.DecoderPhases

/-!
# Copies stay where they are

A call hands out views, and whoever gets them follows them after the call has gone on to later
records. A view into the arena holds because a call only moves the read position. A view into the
store of aligned copies holds only if the store does not move, and the store cannot know how many
copies are to come: it reserves its words once, when the first record is copied, from the number of
bytes that are still unread.

That is enough. The words of a copy are charged to the bytes of its record: a record has at least
sixteen bytes, so filling it up to whole words adds at most half of its size, and its copy takes at
most three words for every sixteen of its bytes. The bytes of a record are unread until it is taken,
so the words in use and those that the unread bytes may still need are together never more than what
was reserved. Records that are passed over, and those that begin at a multiple of eight, only leave
some of it unused. Which sizes are mixed, and in which order, does not matter.

## Main definitions

* `Taken`, `Framer.Takes` — a record that a pass has taken, and where a pass gets by taking records.
* `copiedWords` — the words of the copies that a pass has made.
* `Decoder.opening` — where the records of a call begin.
* `Framer.Keeps` — the invariant of a pass, with `Charged` for the copies.
* `Framer.ViewsHold` — what it says about the views.

## Main results

* `AlignedStore.wordsFor_mul_le`, `Framer.Keeps.hasRoom` — the charge for a copy, and its payment.
* `Framer.Keeps.skip`, `take_aligned`, `take_misaligned` — what one record does to the invariant.
* `Framer.Keeps.takes` — a pass keeps it.
* `Decoder.call_keeps_views` — **views hold for the whole of a call**.
-/

namespace MarketWire

/-! ### The store -/

namespace AlignedStore

/-- Filling a record up to whole words adds at most half of its size. -/
theorem wordsFor_mul_le {size : Nat} (h : headerSize ≤ size) :
    2 * wordSize * wordsFor size ≤ 3 * size := by
  simp only [wordsFor, wordSize, headerSize] at h ⊢
  omega

theorem wordsFor_pos {size : Nat} (h : headerSize ≤ size) : 0 < wordsFor size := by
  simp only [wordsFor, wordSize, headerSize] at h ⊢
  omega

theorem le_wordsFor_mul (size : Nat) : size ≤ wordsFor size * wordSize := by
  simp only [wordsFor, wordSize]
  omega

/-- Words that are charged to bytes still to be decoded are among those reserved for them. -/
theorem lt_reservation {words remaining : Nat} (h : 2 * wordSize * words ≤ 3 * remaining) :
    words < reservation remaining := by
  simp only [reservation, wordSize] at h ⊢
  omega

theorem used_of_size_eq {s : AlignedStore} {words : Nat} (h : s.cells.size = words * wordSize) :
    s.used = words := by
  rw [used, h]
  exact Nat.mul_div_cancel words (by decide)

theorem toList_cells_append (s : AlignedStore) (bs : Bytes) :
    (s.append bs).cells.toList = s.cells.toList ++
      (bs ++ List.replicate (wordsFor bs.length * wordSize - bs.length) 0) := by
  rw [append]
  split <;> simp [move]

theorem size_cells_append (s : AlignedStore) (bs : Bytes) :
    (s.append bs).cells.size = s.cells.size + wordsFor bs.length * wordSize := by
  have := le_wordsFor_mul bs.length
  rw [← Array.length_toList, toList_cells_append]
  simp only [List.length_append, List.length_replicate, Array.length_toList]
  omega

/-- With room for them, further words are used where the store lies. -/
theorem block_append_of_hasRoom {s : AlignedStore} {bs : Bytes}
    (h : s.HasRoom (wordsFor bs.length)) : (s.append bs).block = s.block := by
  rw [append, if_pos h]

theorem capacity_append_of_hasRoom {s : AlignedStore} {bs : Bytes}
    (h : s.HasRoom (wordsFor bs.length)) : (s.append bs).capacity = s.capacity := by
  rw [append, if_pos h]

@[simp] theorem cells_prepare (s : AlignedStore) (remaining : Nat) :
    (s.prepare remaining).cells = s.cells := by
  rw [prepare, reserve]
  split
  · split <;> rfl
  · rfl

@[simp] theorem used_prepare (s : AlignedStore) (remaining : Nat) :
    (s.prepare remaining).used = s.used := by
  rw [used, cells_prepare, used]

/-- The first copy of a call reserves the words. -/
theorem reservation_le_capacity_prepare {s : AlignedStore} (h : s.cells.size = 0)
    (remaining : Nat) : reservation remaining ≤ (s.prepare remaining).capacity := by
  rw [prepare, if_pos (by simpa using h), reserve]
  split
  · exact Nat.le_refl _
  · omega

/-- The later ones use what the first has reserved. -/
theorem prepare_of_pos {s : AlignedStore} (h : 0 < s.cells.size) (remaining : Nat) :
    s.prepare remaining = s := by
  rw [prepare, if_neg]
  simp only [Array.isEmpty_iff_size_eq_zero]
  omega

/-- Bytes that lie in the words in use from a word on. -/
def Stores (s : AlignedStore) (word : Nat) (bs : Bytes) : Prop :=
  bs <+: s.cells.toList.drop (word * wordSize)

theorem Stores.bytesAt_eq {s : AlignedStore} {word : Nat} {bs : Bytes} (h : s.Stores word bs) :
    s.bytesAt s.block word bs.length = some bs := by
  rw [bytesAt, if_pos rfl, Array.toList_extract, List.extract_eq_take_drop, Nat.add_sub_cancel_left,
    ← List.prefix_iff_eq_take.mp h]

/-- What was copied stays as it is when further words are used. -/
theorem Stores.append {s : AlignedStore} {word : Nat} {bs : Bytes} (h : s.Stores word bs)
    (more : Bytes) : (s.append more).Stores word bs := by
  rw [Stores, toList_cells_append, List.drop_append]
  exact h.trans (List.prefix_append _ _)

/-- What is copied lies behind the words in use. -/
theorem stores_append {s : AlignedStore} {words : Nat} (h : s.cells.size = words * wordSize)
    (bs : Bytes) : (s.append bs).Stores words bs := by
  rw [Stores, toList_cells_append, List.drop_left' (by rw [Array.length_toList, h])]
  exact List.prefix_append _ _

end AlignedStore

/-! ### Taking records -/

/-- A record that a pass has taken. -/
structure Taken where
  /-- Where it began in the arena. -/
  offset : Nat
  /-- Its bytes, as they lay in the arena. -/
  bytes : Bytes
  /-- The number of bytes that were unread behind it. -/
  behind : Nat
  /-- The view that is handed out. -/
  view : View

namespace Taken

/-- The number of bytes that the header announces. -/
def size (t : Taken) : Nat :=
  t.view.record.size

/-- The number of words that hold the record. -/
def words (t : Taken) : Nat :=
  AlignedStore.wordsFor t.size

/-- The number of bytes that were still to be decoded, those of the record included. -/
def remaining (t : Taken) : Nat :=
  t.size + t.behind

/-- Whether the record began at no multiple of eight. -/
def isMisaligned (t : Taken) : Bool :=
  t.offset % AlignedStore.wordSize != 0

end Taken

/-- The number of words of the copies that were made. -/
def copiedWords (log : List Taken) : Nat :=
  ((log.filter Taken.isMisaligned).map Taken.words).sum

theorem copiedWords_concat_of_aligned {t : Taken} (h : t.isMisaligned = false) (log : List Taken) :
    copiedWords (log ++ [t]) = copiedWords log := by
  simp [copiedWords, h]

theorem copiedWords_concat_of_misaligned {t : Taken} (h : t.isMisaligned = true)
    (log : List Taken) : copiedWords (log ++ [t]) = copiedWords log + t.words := by
  simp [copiedWords, h]

theorem copiedWords_of_find?_eq_none {log : List Taken}
    (h : log.find? Taken.isMisaligned = none) : copiedWords log = 0 := by
  rw [copiedWords, List.filter_eq_nil_iff.mpr (List.find?_eq_none.mp h)]
  rfl

namespace Framer

/-- The record of so many bytes at the front, as it is about to be taken. -/
def taken (f : Framer) (size : Nat) : Taken where
  offset := f.arena.readPos
  bytes := f.arena.peek size
  behind := (f.advance size).arena.readableSize
  view := (f.take size).1

/-- Where a pass gets by passing over records and taking those of the log. -/
inductive Takes (start : Framer) : List Taken → Framer → Prop
  /-- Nothing is taken yet. -/
  | start : Takes start [] start
  /-- A record with a code outside the catalog is passed over. -/
  | skip {log : List Taken} {f : Framer} {size : Nat} {code : UInt8} (h : Takes start log f)
    (hfront : f.front = .unknown size code) : Takes start log (f.advance size)
  /-- A record is taken. -/
  | take {log : List Taken} {f : Framer} {size : Nat} (h : Takes start log f)
    (hfront : f.front = .record size) : Takes start (log ++ [f.taken size]) (f.take size).2

theorem Takes.trans {start f g : Framer} {log more : List Taken} (h : start.Takes log f)
    (hmore : f.Takes more g) : start.Takes (log ++ more) g := by
  induction hmore with
  | start => rwa [List.append_nil]
  | skip _ hfront ih => exact ih.skip hfront
  | take _ hfront ih =>
    rw [← List.append_assoc]
    exact ih.take hfront

theorem take_of_aligned {f : Framer} (h : f.arena.readPos % AlignedStore.wordSize = 0)
    (size : Nat) :
    f.take size = (⟨⟨f.arena.peek size⟩, .arena f.arena.readPos⟩, f.advance size) := by
  rw [take, if_pos h]

/-- The store before a record of so many bytes at the front is copied, with the words reserved. -/
def prepared (f : Framer) (size : Nat) : AlignedStore :=
  f.aligned.prepare (size + (f.advance size).arena.readableSize)

/-- The store after the record was copied. -/
def copied (f : Framer) (size : Nat) : AlignedStore :=
  (f.prepared size).append (f.arena.peek size)

theorem take_of_misaligned {f : Framer} (h : ¬f.arena.readPos % AlignedStore.wordSize = 0)
    (size : Nat) :
    f.take size = (⟨⟨f.arena.peek size⟩, .aligned (f.copied size).block f.aligned.used⟩,
      { f.advance size with aligned := f.copied size }) := by
  rw [take, if_neg h]
  rfl

/-- A record at the front has at least a header, is there, and is taken in full. -/
theorem taken_of_record {f : Framer} {size : Nat} (h : f.arena.WellFormed)
    (hfront : f.front = .record size) :
    headerSize ≤ size ∧ size ≤ f.arena.readableSize ∧
      (f.taken size).size = size ∧ (f.taken size).bytes.length = size := by
  obtain ⟨hheader, hroom⟩ := size_bounds_of_front (.inl hfront)
  obtain ⟨-, hlength, hframe, -⟩ := frame_of_size? h (by rw [hfront]; rfl)
  refine ⟨hheader, hroom, ?_, hlength⟩
  rw [Taken.size, taken, record_take]
  exact hframe.length_eq.symm.trans hlength

end Framer

/-! ### What a pass keeps -/

/-- A record that was taken still lies where its view points to, and it lies in the arena too. -/
structure Taken.LiesIn (t : Taken) (f : Framer) : Prop where
  /-- The view is of what was taken. -/
  storage_eq : t.view.record.storage = t.bytes
  /-- All of it was taken. -/
  length_bytes : t.bytes.length = t.size
  /-- The arena still has its bytes. -/
  arena : (f.arena.cells.extract t.offset (t.offset + t.size)).toList = t.bytes
  /-- A record that began at a multiple of eight is viewed there. -/
  aligned : t.isMisaligned = false → t.view.place = .arena t.offset
  /-- Of another one the copy is viewed, in the block that the store lies in. -/
  misaligned : t.isMisaligned = true →
    ∃ word, t.view.place = .aligned f.aligned.block word ∧ f.aligned.Stores word t.bytes

/-- What is found where the view points to is the record. -/
theorem Taken.LiesIn.shown_eq {t : Taken} {f : Framer} (h : t.LiesIn f) :
    f.shown t.view = some t.bytes := by
  cases hoffset : t.isMisaligned with
  | false =>
    rw [Framer.shown, h.aligned hoffset]
    exact congrArg some h.arena
  | true =>
    obtain ⟨word, hplace, hstores⟩ := h.misaligned hoffset
    have hshown := hstores.bytesAt_eq
    rw [h.length_bytes] at hshown
    rw [Framer.shown, hplace]
    exact hshown

/-- What lies in the arena and in the words in use keeps lying there, as long as both stay where
they are. -/
theorem Taken.LiesIn.mono {t : Taken} {f g : Framer} (h : t.LiesIn f)
    (hcells : g.arena.cells = f.arena.cells)
    (hblock : t.isMisaligned = true → g.aligned.block = f.aligned.block)
    (hstores : ∀ word, f.aligned.Stores word t.bytes → g.aligned.Stores word t.bytes) :
    t.LiesIn g := by
  refine ⟨h.storage_eq, h.length_bytes, by rw [hcells, h.arena], h.aligned, fun hoffset => ?_⟩
  obtain ⟨word, hplace, hword⟩ := h.misaligned hoffset
  exact ⟨word, by rw [hplace, hblock hoffset], hstores word hword⟩

/-- The copies that a store holds are paid for, `first` being the first of them and `unread` the
number of bytes that are still unread. -/
structure Charged (first : Taken) (log : List Taken) (unread : Nat) (s : AlignedStore) : Prop where
  /-- There is a copy. -/
  pos : 0 < copiedWords log
  /-- What was unread when the first one was made pays for the words in use and for those that the
  bytes still unread may need. -/
  paid : 2 * AlignedStore.wordSize * copiedWords log + 3 * unread ≤ 3 * first.remaining
  /-- As much was reserved then. -/
  reserved : AlignedStore.reservation first.remaining ≤ s.capacity

namespace Framer

/-- What is true at each point of a pass. -/
structure Keeps (log : List Taken) (f : Framer) : Prop where
  /-- The positions of the arena are in order. -/
  wellFormed : f.arena.WellFormed
  /-- The words in use are those of the copies. -/
  size_cells : f.aligned.cells.size = copiedWords log * AlignedStore.wordSize
  /-- The copies are paid for. -/
  charged : ∀ first, log.find? Taken.isMisaligned = some first →
    Charged first log f.arena.readableSize f.aligned
  /-- All records lie where their views point to. -/
  lies : ∀ t ∈ log, t.LiesIn f

variable {log : List Taken} {f : Framer} {size : Nat}

theorem keeps_nil (h : f.arena.WellFormed) (hcells : f.aligned.cells = #[]) : Keeps [] f :=
  ⟨h, by simp [hcells, copiedWords], nofun, nofun⟩

/-- Before the first copy no word is in use. -/
theorem Keeps.size_cells_eq_zero (h : Keeps log f) (hnone : log.find? Taken.isMisaligned = none) :
    f.aligned.cells.size = 0 := by
  rw [h.size_cells, copiedWords_of_find?_eq_none hnone, Nat.zero_mul]

/-- Behind the first copy some word is in use. -/
theorem Keeps.size_cells_pos (h : Keeps log f) {first : Taken}
    (hfirst : log.find? Taken.isMisaligned = some first) : 0 < f.aligned.cells.size := by
  rw [h.size_cells]
  exact Nat.mul_pos (h.charged first hfirst).pos (by decide)

/-- From the first copy on nothing more is reserved. -/
theorem Keeps.prepared_eq (h : Keeps log f) {first : Taken}
    (hfirst : log.find? Taken.isMisaligned = some first) (size : Nat) :
    f.prepared size = f.aligned :=
  AlignedStore.prepare_of_pos (h.size_cells_pos hfirst) _

/-- Before the first copy words are reserved for all that is unread. -/
theorem Keeps.reservation_le (h : Keeps log f) (hnone : log.find? Taken.isMisaligned = none)
    (size : Nat) :
    AlignedStore.reservation (size + (f.advance size).arena.readableSize) ≤
      (f.prepared size).capacity :=
  AlignedStore.reservation_le_capacity_prepare (h.size_cells_eq_zero hnone) _

/-- **There is room for a copy** of any record that is there in full. -/
theorem Keeps.hasRoom (h : Keeps log f) (hheader : headerSize ≤ size)
    (hsize : size ≤ f.arena.readableSize) :
    (f.prepared size).HasRoom (AlignedStore.wordsFor size) := by
  have hcharge := AlignedStore.wordsFor_mul_le hheader
  have hused : (f.prepared size).used = copiedWords log := by
    rw [prepared, AlignedStore.used_prepare, AlignedStore.used_of_size_eq h.size_cells]
  rw [AlignedStore.HasRoom, hused]
  cases hfirst : log.find? Taken.isMisaligned with
  | none =>
    have hreserved := h.reservation_le hfirst size
    have hwords : AlignedStore.wordsFor size <
        AlignedStore.reservation (size + (f.advance size).arena.readableSize) :=
      AlignedStore.lt_reservation (by omega)
    rw [copiedWords_of_find?_eq_none hfirst]
    omega
  | some first =>
    obtain ⟨-, hpaid, hreserved⟩ := h.charged first hfirst
    have hwords : copiedWords log + AlignedStore.wordsFor size <
        AlignedStore.reservation first.remaining := by
      refine AlignedStore.lt_reservation ?_
      rw [Nat.mul_add]
      omega
    rw [h.prepared_eq hfirst]
    omega

/-- Passing over a record leaves arena and store where they are. -/
theorem Keeps.skip (h : Keeps log f) (hsize : size ≤ f.arena.readableSize) :
    Keeps log (f.advance size) := by
  refine ⟨h.wellFormed.consume hsize, h.size_cells, fun first hfirst => ?charged,
    fun t ht => (h.lies t ht).mono rfl (fun _ => rfl) fun _ => id⟩
  have hcharged := h.charged first hfirst
  have hpaid := hcharged.paid
  refine ⟨hcharged.pos, ?_, hcharged.reserved⟩
  rw [readableSize_advance]
  omega

theorem storage_taken (f : Framer) (size : Nat) :
    (f.taken size).view.record.storage = (f.taken size).bytes :=
  congrArg Record.storage (f.record_take size)

/-- The arena still has the bytes of a record that is taken. -/
theorem toList_extract_taken {g : Framer} (hcells : g.arena.cells = f.arena.cells)
    (hsize : (f.taken size).size = size) :
    (g.arena.cells.extract (f.taken size).offset
      ((f.taken size).offset + (f.taken size).size)).toList = (f.taken size).bytes := by
  rw [hcells, hsize]
  rfl

/-- A record that begins at a multiple of eight is taken without a copy. -/
theorem Keeps.take_aligned (h : Keeps log f) (hfront : f.front = .record size)
    (hoffset : f.arena.readPos % AlignedStore.wordSize = 0) :
    Keeps (log ++ [f.taken size]) (f.take size).2 := by
  obtain ⟨-, hroom, hsize, hlength⟩ := taken_of_record h.wellFormed hfront
  have haligned : (f.taken size).isMisaligned = false := by
    simp [Taken.isMisaligned, taken, hoffset]
  have hskip := h.skip hroom
  have hwords := copiedWords_concat_of_aligned haligned log
  rw [take_of_aligned hoffset]
  constructor
  case wellFormed => exact hskip.wellFormed
  case size_cells => rw [hwords, hskip.size_cells]
  case charged =>
    intro first hfirst
    rw [List.find?_append, List.find?_singleton, if_neg (by simp [haligned]), Option.or_none]
      at hfirst
    obtain ⟨hpos, hpaid, hreserved⟩ := hskip.charged first hfirst
    exact ⟨by rwa [hwords], by rwa [hwords], hreserved⟩
  case lies =>
    rw [List.forall_mem_append, List.forall_mem_singleton]
    refine ⟨hskip.lies, storage_taken f size, hlength.trans hsize.symm,
      toList_extract_taken rfl hsize, fun _ => ?_, ?_⟩
    · rw [taken, take_of_aligned hoffset]
    · intro hmisaligned
      rw [haligned] at hmisaligned
      cases hmisaligned

/-- A copy is made where the prepared store lies. -/
theorem Keeps.copied_eq (h : Keeps log f) (hfront : f.front = .record size) :
    (f.copied size).block = (f.prepared size).block ∧
      (f.copied size).capacity = (f.prepared size).capacity := by
  obtain ⟨hheader, hroom, -, hlength⟩ := taken_of_record h.wellFormed hfront
  have hbytes : (f.arena.peek size).length = size := hlength
  have hplenty : (f.prepared size).HasRoom (AlignedStore.wordsFor (f.arena.peek size).length) := by
    rw [hbytes]
    exact h.hasRoom hheader hroom
  exact ⟨AlignedStore.block_append_of_hasRoom hplenty,
    AlignedStore.capacity_append_of_hasRoom hplenty⟩

/-- A copy is paid for with the bytes of its record. -/
theorem Keeps.charged_copied (h : Keeps log f) (hfront : f.front = .record size)
    (hmisaligned : (f.taken size).isMisaligned = true) {first : Taken}
    (hfirst : (log ++ [f.taken size]).find? Taken.isMisaligned = some first) :
    Charged first (log ++ [f.taken size]) (f.advance size).arena.readableSize (f.copied size) := by
  obtain ⟨hheader, hroom, hsize, -⟩ := taken_of_record h.wellFormed hfront
  have hcharge := AlignedStore.wordsFor_mul_le hheader
  have hpositive := AlignedStore.wordsFor_pos hheader
  have hcapacity := (h.copied_eq hfront).2
  have hwords : copiedWords (log ++ [f.taken size]) =
      copiedWords log + AlignedStore.wordsFor size := by
    rw [copiedWords_concat_of_misaligned hmisaligned, Taken.words, hsize]
  rw [List.find?_append, List.find?_singleton, if_pos hmisaligned] at hfirst
  cases hearlier : log.find? Taken.isMisaligned with
  | none =>
    -- The first copy: all that is unread is charged, its own bytes included.
    rw [hearlier] at hfirst
    cases hfirst
    have hremaining : (f.taken size).remaining = size + (f.advance size).arena.readableSize := by
      rw [Taken.remaining, hsize, taken]
    rw [copiedWords_of_find?_eq_none hearlier, Nat.zero_add] at hwords
    refine ⟨by omega, ?_, ?_⟩
    · rw [hwords, hremaining]
      omega
    · rw [hremaining, hcapacity]
      exact h.reservation_le hearlier size
  | some earlier =>
    rw [hearlier] at hfirst
    cases hfirst
    obtain ⟨hpos, hpaid, hreserved⟩ := h.charged first hearlier
    refine ⟨by omega, ?_, ?_⟩
    · rw [hwords, Nat.mul_add, readableSize_advance]
      omega
    · rw [hcapacity, h.prepared_eq hearlier]
      exact hreserved

/-- Another record is copied behind the copies that are there, which stay where they are. -/
theorem Keeps.take_misaligned (h : Keeps log f) (hfront : f.front = .record size)
    (hoffset : ¬f.arena.readPos % AlignedStore.wordSize = 0) :
    Keeps (log ++ [f.taken size]) (f.take size).2 := by
  obtain ⟨-, hroom, hsize, hlength⟩ := taken_of_record h.wellFormed hfront
  have hmisaligned : (f.taken size).isMisaligned = true := by
    simp [Taken.isMisaligned, taken, hoffset]
  have hblock := (h.copied_eq hfront).1
  have hcells : (f.prepared size).cells = f.aligned.cells := AlignedStore.cells_prepare ..
  have hcopied : (f.prepared size).cells.size = copiedWords log * AlignedStore.wordSize := by
    rw [hcells, h.size_cells]
  rw [take_of_misaligned hoffset]
  constructor
  case wellFormed => exact h.wellFormed.consume hroom
  case size_cells =>
    have hbytes : (f.arena.peek size).length = size := hlength
    rw [copiedWords_concat_of_misaligned hmisaligned, Taken.words, hsize, Nat.add_mul, ← hcopied]
    dsimp only
    rw [copied, AlignedStore.size_cells_append, hbytes]
  case charged => exact fun first => h.charged_copied hfront hmisaligned
  case lies =>
    rw [List.forall_mem_append, List.forall_mem_singleton]
    refine ⟨fun t ht => ?earlier, storage_taken f size, hlength.trans hsize.symm,
      toList_extract_taken rfl hsize, ?aligned, fun _ => ?copy⟩
    case earlier =>
      refine (h.lies t ht).mono rfl (fun hcopy => ?block) fun word hword => ?stores
      case block =>
        cases hearlier : log.find? Taken.isMisaligned with
        | none => exact absurd hcopy (List.find?_eq_none.mp hearlier t ht)
        | some earlier => exact hblock.trans (congrArg _ (h.prepared_eq hearlier size))
      case stores =>
        refine AlignedStore.Stores.append ?_ _
        rwa [AlignedStore.Stores, hcells]
    case aligned =>
      intro haligned
      rw [hmisaligned] at haligned
      cases haligned
    case copy =>
      refine ⟨copiedWords log, ?_, AlignedStore.stores_append hcopied _⟩
      rw [taken, take_of_misaligned hoffset, AlignedStore.used_of_size_eq h.size_cells]

/-- **A pass keeps what it started with.** -/
theorem Keeps.takes {start : Framer} (h : Keeps [] start) (htakes : start.Takes log f) :
    Keeps log f := by
  induction htakes with
  | start => exact h
  | skip _ hfront ih => exact ih.skip (size_bounds_of_front (.inr ⟨_, hfront⟩)).2
  | @take log f size _ hfront ih =>
    by_cases hoffset : f.arena.readPos % AlignedStore.wordSize = 0
    · exact ih.take_aligned hfront hoffset
    · exact ih.take_misaligned hfront hoffset

/-- What is true of the views at each point of a pass. -/
structure ViewsHold (log : List Taken) (f : Framer) : Prop where
  /-- The words of the copies are among those that are reserved for all that was unread when the
  first of them was made. -/
  copiedWords_le : ∀ first, log.find? Taken.isMisaligned = some first →
    copiedWords log ≤ AlignedStore.reservation first.remaining
  /-- These words were reserved. -/
  reservation_le : ∀ first, log.find? Taken.isMisaligned = some first →
    AlignedStore.reservation first.remaining ≤ f.aligned.capacity
  /-- There is room for a copy of the record at the front. -/
  hasRoom : ∀ size, f.front = .record size → (f.prepared size).HasRoom (AlignedStore.wordsFor size)
  /-- The store lies in the block in which the copies were made. -/
  block_eq : ∀ t ∈ log, t.isMisaligned = true →
    ∃ word, t.view.place = .aligned f.aligned.block word
  /-- A view is of the record that was taken. -/
  storage_eq : ∀ t ∈ log, t.view.record.storage = t.bytes
  /-- Where it points to are the bytes that the record had when it was taken. -/
  shown_eq : ∀ t ∈ log, f.shown t.view = some t.bytes

theorem Keeps.viewsHold (h : Keeps log f) : ViewsHold log f := by
  constructor
  case copiedWords_le =>
    intro first hfirst
    have hpaid := (h.charged first hfirst).paid
    exact Nat.le_of_lt (AlignedStore.lt_reservation (by omega))
  case reservation_le => exact fun first hfirst => (h.charged first hfirst).reserved
  case hasRoom =>
    intro size hfront
    obtain ⟨hheader, hroom⟩ := size_bounds_of_front (.inl hfront)
    exact h.hasRoom hheader hroom
  case block_eq =>
    intro t ht hmisaligned
    obtain ⟨word, hplace, -⟩ := (h.lies t ht).misaligned hmisaligned
    exact ⟨word, hplace⟩
  case storage_eq => exact fun t ht => (h.lies t ht).storage_eq
  case shown_eq => exact fun t ht => (h.lies t ht).shown_eq

/-- The loop over the arena is a pass, which ends where no record is there. -/
theorem exists_takes_drain {α : Type} (convert : View → Except Fault α)
    (hconvert : ∀ view, IsFrame view.record.storage → isKnown view.record.storage = true →
      ∃ item, convert view = .ok item)
    {f : Framer} (h : f.arena.WellFormed) :
    ∃ log, f.Takes log (f.drain convert).2 ∧ (f.drain convert).2.front.size? = none ∧
      List.Forall₂ (fun t item => convert t.view = .ok item) log (f.drain convert).1.items := by
  fun_induction drain convert f with
  | case1 f hfront => exact ⟨[], .start, by rw [hfront]; rfl, .nil⟩
  | case2 f fault hfront => exact ⟨[], .start, by rw [hfront]; rfl, .nil⟩
  | case3 f size code hfront batch last hdrain ih =>
    obtain ⟨log, htakes, hend, hitems⟩ :=
      ih (h.consume (size_bounds_of_front (.inr ⟨_, hfront⟩)).2)
    rw [hdrain] at htakes hend hitems
    exact ⟨log, (Takes.start.skip hfront).trans htakes, hend, hitems⟩
  | case4 f size hfront fault hfail =>
    obtain ⟨hframe, hcatalog⟩ := isKnown_of_record h hfront
    obtain ⟨item, hitem⟩ := hconvert (f.take size).1 (by rwa [record_take]) (by rwa [record_take])
    rw [hitem] at hfail
    cases hfail
  | case5 f size hfront item hitem batch last hdrain ih =>
    have harena : (f.take size).2.arena.WellFormed := by
      rw [arena_take]
      exact h.consume (size_bounds_of_front (.inl hfront)).2
    obtain ⟨log, htakes, hend, hitems⟩ := ih harena
    rw [hdrain] at htakes hend hitems
    exact ⟨f.taken size :: log, (Takes.start.take hfront).trans htakes, hend, .cons hitem hitems⟩

end Framer

/-! ### Calls -/

/-- How a record that was taken is handed over. -/
inductive Taken.IsHandedAs (t : Taken) : Product → Prop
  /-- As the owned copy of what the view shows. -/
  | owned {decoded : DecodedRecord} (h : t.view.record.toOwned = .ok decoded.record) :
    IsHandedAs t (.owned decoded)
  /-- As the view. -/
  | view : IsHandedAs t (.view t.view)

namespace Decoder

variable {d : Decoder} {start : Framer}

/-- Where the records of a call begin, if it comes upon any: at the front of the arena, behind the
metadata. -/
def opening (d : Decoder) : Option Framer :=
  match d.phase with
  | .failed _ _ => none
  | .streaming _ => some d.framer.renew
  | .awaitingMetadata =>
    match takeMetadata d.framer.renew with
    | (.ok (some _), f) => some f
    | _ => none

/-- The pass over the records of a call is that of the loop from there on. -/
theorem pass_of_opening {α : Type} (convert : Metadata → View → Except Fault α) (d : Decoder) :
    (d.opening = none ∧ (d.pass convert).1.batch.items = []) ∨
      ∃ start metadata, d.opening = some start ∧
        (d.pass convert).1.batch.items = (start.drain (convert metadata)).1.items ∧
        (d.pass convert).2.framer = (start.drain (convert metadata)).2 := by
  obtain ⟨framer, phase⟩ := d
  cases phase with
  | failed _ _ => exact .inl ⟨rfl, rfl⟩
  | streaming metadata => exact .inr ⟨_, metadata, rfl, rfl, rfl⟩
  | awaitingMetadata =>
    simp only [opening, pass]
    obtain ⟨result, f⟩ := takeMetadata framer.renew
    rcases result with fault | _ | metadata
    · exact .inl ⟨rfl, rfl⟩
    · exact .inl ⟨rfl, rfl⟩
    · exact .inr ⟨f, metadata, rfl, rfl, rfl⟩

theorem length_le_readableSize_of_atFront {f : Framer} (h : f.arena.WellFormed)
    {metadata : Metadata} {length : Nat}
    (hfront : Metadata.atFront f.arena.readable = .ok (some (metadata, length))) :
    length ≤ f.arena.readableSize := by
  rw [← Arena.length_readable h]
  exact Metadata.length_le_of_atFront hfront

/-- Records begin at the front of the arena, and no earlier copy is in the store. -/
theorem opening_eq_some (h : d.WellFormed) (hopening : d.opening = some start) :
    start.arena.WellFormed ∧ start.arena.readPos = 0 ∧ start.aligned.cells = #[] := by
  obtain ⟨framer, phase⟩ := d
  have hrenew : framer.renew.arena.WellFormed := Arena.WellFormed.compact h
  cases phase with
  | failed _ _ => cases hopening
  | streaming metadata =>
    cases hopening
    exact ⟨hrenew, framer.arena.readPos_compact, rfl⟩
  | awaitingMetadata =>
    simp only [opening] at hopening
    rw [takeMetadata_eq hrenew] at hopening
    cases hfront : Metadata.atFront framer.renew.arena.readable with
    | error fault =>
      rw [hfront] at hopening
      cases hopening
    | ok front =>
      rw [hfront] at hopening
      cases front with
      | none => cases hopening
      | some front =>
        cases hopening
        exact ⟨(hrenew.consume (length_le_readableSize_of_atFront hrenew hfront)).compact,
          Arena.readPos_compact _, rfl⟩

theorem unread_write_fresh (bs : Bytes) : (fresh.write bs).unread = bs := by
  have hstanding := standing_write WellFormed.fresh bs
  rw [standing_fresh] at hstanding
  exact congrArg Standing.unread hstanding

/-- Records begin behind the metadata once all of it is there. -/
theorem opening_of_atFront (h : d.WellFormed) (hphase : d.phase = .awaitingMetadata)
    {metadata : Metadata} {length : Nat}
    (hfront : Metadata.atFront d.unread = .ok (some (metadata, length))) :
    ∃ start, d.opening = some start ∧ start.arena.readable = d.unread.drop length := by
  have hrenew : d.framer.renew.arena.WellFormed := Arena.WellFormed.compact h
  have hreadable : d.framer.renew.arena.readable = d.unread := Arena.readable_compact h
  rw [← hreadable] at hfront ⊢
  have htake := takeMetadata_eq hrenew
  rw [hfront] at htake
  refine ⟨(d.framer.renew.advance length).compact, by rw [opening, hphase, htake], ?_⟩
  rw [← Arena.readable_consume]
  exact Arena.readable_compact (hrenew.consume (length_le_readableSize_of_atFront hrenew hfront))

theorem toOwned_of_own {metadata : Metadata} {view : View} {decoded : DecodedRecord}
    (h : own metadata view = .ok decoded) : view.record.toOwned = .ok decoded.record := by
  rw [own] at h
  cases howned : view.record.toOwned with
  | error fault =>
    rw [howned] at h
    cases h
  | ok record =>
    rw [howned] at h
    cases h
    rfl

/-- A call hands over the records that its pass takes. It leaves the copies where they are, and a
call for views leaves the arena too. -/
theorem exists_takes_call (h : d.WellFormed) (kind : CallKind) :
    (d.opening = none ∧ (d.call kind).1.products = []) ∨
      ∃ start log f, d.opening = some start ∧ start.Takes log f ∧ f.front.size? = none ∧
        List.Forall₂ Taken.IsHandedAs log (d.call kind).1.products ∧
        (d.call kind).2.framer.aligned = f.aligned ∧
        (kind = .views → (d.call kind).2.framer = f) := by
  cases kind with
  | owned =>
    rw [products_call_owned]
    rcases d.pass_of_opening own with ⟨hnone, hitems⟩ | ⟨start, metadata, hstart, hitems, hframer⟩
    · exact .inl ⟨hnone, by rw [hitems]; rfl⟩
    · obtain ⟨log, htakes, hend, hlog⟩ := Framer.exists_takes_drain (own metadata)
        (fun view hframe hknown => (converts_own metadata view hframe hknown).imp fun _ h => h.1)
        (opening_eq_some h hstart).1
      refine .inr ⟨start, log, _, hstart, htakes, hend, ?_, ?_, nofun⟩
      · rw [hitems]
        exact List.forall₂_map_right_iff.mpr
          (hlog.imp fun _ _ howned => .owned (toOwned_of_own howned))
      · rw [← hframer]
        show d.decode.2.framer.aligned = _
        rw [decode_snd]
        split <;> rfl
  | views =>
    rcases d.pass_of_opening fun _ view => .ok view with
      ⟨hnone, hitems⟩ | ⟨start, metadata, hstart, hitems, hframer⟩
    · exact .inl ⟨hnone, congrArg (List.map Product.view) hitems⟩
    · obtain ⟨log, htakes, hend, hlog⟩ := Framer.exists_takes_drain (fun view => .ok view)
        (fun view _ _ => ⟨view, rfl⟩) (opening_eq_some h hstart).1
      have hproducts : (d.call .views).1.products = _ := congrArg (List.map Product.view) hitems
      refine .inr ⟨start, log, _, hstart, htakes, hend, ?_, congrArg Framer.aligned hframer,
        fun _ => hframer⟩
      rw [hproducts]
      refine List.forall₂_map_right_iff.mpr (hlog.imp fun t view hview => ?_)
      cases hview
      exact .view

/-- **Views hold for the whole of a call.** From every state that a decoder can reach, a call of
either form gives no records, or it takes them one after another from the front of the arena and
hands over each of them. Whatever it has taken so far, the copies of records that began at no
multiple of eight fit into the words that were reserved at the first of them, the next one finds
room there, and the store has not moved since; and where a view points to are the bytes that its
record had when it was taken. The copies are still there when the call returns, and after a call for
views so is what the other views point to. -/
theorem call_keeps_views (commands : List Command) (kind : CallKind) :
    let d := (fresh.run commands).2
    let last := (d.call kind).2
    (d.opening = none ∧ (d.call kind).1.products = []) ∨
      ∃ start, d.opening = some start ∧ start.arena.readPos = 0 ∧
        (∀ log f, start.Takes log f → f.ViewsHold log) ∧
        ∃ log f, start.Takes log f ∧ f.front.size? = none ∧
          List.Forall₂ Taken.IsHandedAs log (d.call kind).1.products ∧
          ∀ t ∈ log, t.isMisaligned = true ∨ kind = .views →
            last.framer.shown t.view = some t.bytes := by
  intro d last
  have hwell : d.WellFormed := WellFormed.fresh.run commands
  rcases exists_takes_call hwell kind with
    hnone | ⟨start, log, f, hstart, htakes, hend, hproducts, haligned, hviews⟩
  · exact .inl hnone
  · obtain ⟨harena, hfront, hcells⟩ := opening_eq_some hwell hstart
    have hholds : ∀ log f, start.Takes log f → f.ViewsHold log := fun log f htakes =>
      ((Framer.keeps_nil harena hcells).takes htakes).viewsHold
    refine .inr ⟨start, hstart, hfront, hholds, log, f, htakes, hend, hproducts,
      fun t ht hkind => ?_⟩
    have hshown := (hholds log f htakes).shown_eq t ht
    rcases hkind with hmisaligned | hkind
    · obtain ⟨word, hplace⟩ := (hholds log f htakes).block_eq t ht hmisaligned
      exact (Framer.shown_congr hplace haligned).trans hshown
    · have hlast : last.framer = f := hviews hkind
      rwa [hlast]

/-- A block without symbols, a record of a code outside the catalog whose size is no multiple of
eight, and a record behind it. -/
def exampleMisaligned : Bytes :=
  Metadata.magic ++ [1, 120, 0, 0, 0] ++ List.replicate 120 0 ++
    ([5, 0x99] ++ List.replicate 18 0) ++ ([14, 0xA0] ++ List.replicate 54 0)

/-- The record is taken, and it has to be copied. -/
theorem exists_takes_exampleMisaligned :
    ∃ start t f, (fresh.write exampleMisaligned).opening = some start ∧ start.Takes [t] f ∧
      t.isMisaligned = true ∧ t.size = 56 ∧ t.remaining = 56 := by
  have hwell : (fresh.write exampleMisaligned).WellFormed := WellFormed.fresh.write _
  have hunread := unread_write_fresh exampleMisaligned
  have hatFront : Metadata.atFront exampleMisaligned = .ok (some
      ({ schema := some ⟨0⟩, endTs := some 0, stypeIn := ⟨0⟩, stypeOut := ⟨0⟩ }, 128)) := by
    decide +kernel
  obtain ⟨start, hstart, hreadable⟩ := opening_of_atFront hwell rfl (by rw [hunread, hatFront])
  obtain ⟨harena, hposition, -⟩ := opening_eq_some hwell hstart
  rw [hunread] at hreadable
  have hskip : start.front = .unknown 20 0x99 := by
    rw [Framer.front_eq harena, hreadable]
    rfl
  have hroom := (Framer.size_bounds_of_front (.inr ⟨_, hskip⟩)).2
  have hbehind : (start.advance 20).arena.WellFormed := harena.consume hroom
  have hrest : (start.advance 20).arena.readable = (exampleMisaligned.drop 128).drop 20 := by
    rw [← hreadable]
    exact Arena.readable_consume start.arena 20
  have hrecord : (start.advance 20).front = .record 56 := by
    have hframe : (Front.ofBytes 0 ((exampleMisaligned.drop 128).drop 20)).size? = some 56 := by
      decide +kernel
    have hknown : isKnown (((exampleMisaligned.drop 128).drop 20).take 56) = true := by
      decide +kernel
    rw [Framer.front_eq hbehind, hrest,
      Front.ofBytes_of_size? ((Front.size?_ofBytes_congr _ 0 _).trans hframe), if_pos hknown]
  obtain ⟨-, -, hsize, -⟩ := Framer.taken_of_record hbehind hrecord
  have hoffset : ((start.advance 20).taken 56).offset = 20 := congrArg (· + 20) hposition
  have hlength : (start.advance 20).arena.readableSize = 56 := by
    rw [← Arena.length_readable hbehind, hrest]
    rfl
  refine ⟨start, _, _, hstart, (Framer.Takes.start.skip hskip).take hrecord, ?_, hsize, ?_⟩
  · rw [Taken.isMisaligned, hoffset]
    rfl
  · have hnothing : ((start.advance 20).taken 56).behind = 0 := by
      rw [Framer.taken, Framer.readableSize_advance, hlength]
    rw [Taken.remaining, hsize, hnothing]

theorem call_keeps_views_exampleMisaligned :
    ∃ start t f, (fresh.run [.write exampleMisaligned]).2.opening = some start ∧
      start.Takes [t] f ∧ t.isMisaligned = true ∧ copiedWords [t] = 7 ∧
      AlignedStore.reservation t.remaining = 11 ∧ f.shown t.view = some t.bytes := by
  obtain ⟨start, t, f, hopening, htakes, hmisaligned, hsize, hremaining⟩ :=
    exists_takes_exampleMisaligned
  have hrun : ∀ bs, (fresh.run [.write bs]).2 = fresh.write bs := fun _ => rfl
  have hstart : (fresh.run [.write exampleMisaligned]).2.opening = some start := by
    rw [hrun, hopening]
  rcases call_keeps_views [.write exampleMisaligned] .views with
    ⟨hnone, -⟩ | ⟨start', hstart', -, hholds, -⟩
  · cases hnone.symm.trans hstart
  · cases hstart'.symm.trans hstart
    refine ⟨start, t, f, hstart, htakes, hmisaligned, ?_, by rw [hremaining]; rfl,
      (hholds [t] f htakes).shown_eq t (List.mem_singleton_self t)⟩
    rw [← List.nil_append [t], copiedWords_concat_of_misaligned hmisaligned, Taken.words, hsize]
    rfl

end Decoder

end MarketWire
