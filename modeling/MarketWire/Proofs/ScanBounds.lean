import MarketWire.Proofs.PreambleLength

/-!
# What reading metadata touches

A scanner is total: past the end of the bytes it reads zeros, and a distance past the limit is zero.
Whether it ever gets there can only be told from its account. An account is in bounds if every
stretch that was read ends at or before the end of the block, every distance was taken from a
position that does not lie behind that end, no product of a count leaves 64 bits, and room was only
made for as many elements as the bytes that were left can hold.

Almost no read of the parser is checked where it is made. The fixed fields are read because the
frame has the least size, and the elements of a list because the list was measured as a whole. So a
bound on a single read is not what is carried along, but the *room*: the number of bytes ahead that
are known to lie within the block. A check makes room, and a read uses it up. An account is judged
whether or not the walk succeeds.

## Main definitions

* `InBounds` — accounts in bounds.
* `Metadata.blockEnd` — where the bytes end that may be read.
* `Scanner.Stands` — the room ahead of a scanner.
* `Scan.Safe` — a walk keeps its account in bounds.
* `Scan.Uses` — a walk uses up so many bytes of the room.

## Main results

* `Scan.Safe.bind`, `Scan.Uses.bind` — walks one after another.
* `Scan.safe_ensure` — a count that is believed makes room.
* `Metadata.safe_scanFrame` — the contents of a block.
* `Metadata.parse_inBounds` — **reading metadata stays in bounds**.
-/

namespace MarketWire

/-! ### Accounts in bounds -/

/-- The least size of an element of the list with the given index. Three lists of symbols come
first, then the list of mappings, and then the intervals of each mapping. -/
def Metadata.elementSize : (index : Nat) → Nat
  | 0 | 1 | 2 => symbolWidth
  | 3 => mappingSize
  | _ => intervalSize

theorem Metadata.elementSize_min (index : Nat) : elementSize (min index 4) = elementSize index := by
  match index with
  | 0 | 1 | 2 | 3 => rfl
  | index + 4 => rw [Nat.min_eq_right (by omega)]; rfl

theorem Metadata.elementSize_pos (index : Nat) : 0 < elementSize index := by
  match index with
  | 0 | 1 | 2 | 3 => decide
  | _ + 4 => exact Nat.succ_pos _

theorem Metadata.elementSize_le (index : Nat) : elementSize index ≤ intervalSize := by
  match index with
  | 0 | 1 | 2 | 3 => decide
  | _ + 4 => exact Nat.le_refl _

/-- Whether room was made. -/
def Touch.isReserve : Touch → Bool
  | .reserve .. => true
  | _ => false

/-- The number of lists for which room was made. -/
def reservations (account : List Touch) : Nat := account.countP Touch.isReserve

theorem reservations_reserve (count unit remaining : Nat) (earlier : List Touch) :
    reservations (.reserve count unit remaining :: earlier) = reservations earlier + 1 :=
  List.countP_cons_of_pos rfl

/-- An entry is in bounds of the block that ends at `limit`. The entries before it tell which list
is being read and which distance was taken last. -/
def Touch.InBounds (limit : Nat) (earlier : List Touch) : Touch → Prop
  | .read offset width => offset + width ≤ limit
  | .distance blockEnd offset => blockEnd = limit ∧ offset ≤ blockEnd
  | .product count unit => count < UInt32.size ∧ count * unit < UInt64.size
  | .reserve count unit remaining =>
    (∃ offset, earlier.head? = some (.distance limit offset) ∧ remaining = limit - offset) ∧
      unit = Metadata.elementSize (reservations earlier) ∧ count ≤ remaining / unit

/-- All entries of an account are in bounds of the block that ends at `limit`. -/
def InBounds (limit : Nat) : (account : List Touch) → Prop
  | [] => True
  | touch :: earlier => touch.InBounds limit earlier ∧ InBounds limit earlier

/-! ### Room -/

/-- The scanner stops at `stop`, at least `room` bytes ahead of it lie before `limit`, and room was
made for so many lists, the lists of intervals not being told apart. -/
structure Scanner.Stands (stop limit room lists : Nat) (s : Scanner) : Prop where
  /-- Where the scanner stops. -/
  stops : s.limit = stop
  /-- The room ahead. -/
  fits : s.offset + room ≤ limit
  /-- The lists so far. -/
  counts : min (reservations s.touches) 4 = lists

namespace Scan

variable {α β : Type} {stop limit room room' lists width : Nat}

/-- From where the walk begins it keeps its account in bounds, whether it succeeds or fails. If it
succeeds, it is told what it gives and where it ends. -/
def Safe (limit : Nat) (before : Scanner → Prop) (scan : Scan α) (after : α → Scanner → Prop) :
    Prop :=
  ∀ s, before s → InBounds limit s.touches →
    InBounds limit (scan.run.run s).2.touches ∧
      ∀ a, (scan.run.run s).1 = .ok a → after a (scan.run.run s).2

theorem Safe.pure {before : Scanner → Prop} {after : α → Scanner → Prop} {a : α}
    (h : ∀ s, before s → after a s) : Safe limit before (Pure.pure a) after := by
  intro s hs hin
  refine ⟨hin, ?_⟩
  rintro _ ⟨⟩
  exact h s hs

theorem Safe.throw {before : Scanner → Prop} {after : α → Scanner → Prop} (fault : Fault) :
    Safe limit before (throw fault : Scan α) after :=
  fun _ _ hin => ⟨hin, fun _ h => nomatch h⟩

/-- **Walks one after another.** -/
theorem Safe.bind {before : Scanner → Prop} {between : α → Scanner → Prop}
    {after : β → Scanner → Prop} {scan : Scan α} {next : α → Scan β}
    (hscan : Safe limit before scan between)
    (hnext : ∀ a, Safe limit (between a) (next a) after) :
    Safe limit before (scan >>= next) after := by
  intro s hs hin
  obtain ⟨hin', hbetween⟩ := hscan s hs hin
  rw [run_bind]
  rcases hrun : scan.run.run s with ⟨_ | a, t⟩
  · rw [hrun] at hin'
    exact ⟨hin', fun _ h => nomatch h⟩
  · rw [hrun] at hin' hbetween
    exact hnext a t (hbetween a rfl) hin'

theorem Safe.of_imp {before before' : Scanner → Prop} {after : α → Scanner → Prop} {scan : Scan α}
    (hscan : Safe limit before scan after) (h : ∀ s, before' s → before s) :
    Safe limit before' scan after :=
  fun s hs => hscan s (h s hs)

/-- What is known of a value may be used in what follows. -/
theorem Safe.of_and {p : Prop} {before : Scanner → Prop} {after : α → Scanner → Prop}
    {scan : Scan α} (h : p → Safe limit before scan after) :
    Safe limit (fun s => p ∧ before s) scan after :=
  fun s hs => h hs.1 s hs.2

/-- Less room may be needed than there is. -/
theorem Safe.of_room_le {after : α → Scanner → Prop} {scan : Scan α}
    (hscan : Safe limit (Scanner.Stands stop limit room lists) scan after) (h : room ≤ room') :
    Safe limit (Scanner.Stands stop limit room' lists) scan after :=
  hscan.of_imp fun _ hs => ⟨hs.stops, by have := hs.fits; omega, hs.counts⟩

/-- **Elements in a row**, each of which leaves the scanner as it found it. -/
theorem safe_repeated {element : Scan α} {stands : Scanner → Prop}
    (h : Safe limit stands element fun _ => stands) (count : Nat) :
    Safe limit stands (repeated element count) fun _ => stands := by
  induction count with
  | zero => exact Safe.pure fun _ hs => hs
  | succ n ih => exact h.bind fun _ => ih.bind fun _ => Safe.pure fun _ hs => hs

/-! ### Reads without a check -/

theorem safe_look {ahead : Nat} (h : ahead + width ≤ room) :
    Safe limit (Scanner.Stands stop limit room lists) (look ahead width) fun bs s =>
      bs.length = width ∧ s.Stands stop limit room lists := by
  intro s hs hin
  have hread : s.offset + ahead + width ≤ limit := by have := hs.fits; omega
  refine ⟨⟨hread, hin⟩, ?_⟩
  rintro _ ⟨⟩
  exact ⟨Bytes.length_window .., hs.stops, hs.fits, hs.counts⟩

theorem safe_skip :
    Safe limit (Scanner.Stands stop limit (width + room) lists) (skip width) fun _ =>
      Scanner.Stands stop limit room lists := by
  intro s hs hin
  refine ⟨hin, fun _ _ => ⟨hs.stops, ?_, hs.counts⟩⟩
  have hfits := hs.fits
  change s.offset + width + room ≤ limit
  omega

/-- The scanner may be told to stop where the block ends. -/
theorem safe_setLimit :
    Safe limit (Scanner.Stands stop limit room lists) (setLimit limit) fun _ =>
      Scanner.Stands limit limit room lists :=
  fun _ hs hin => ⟨hin, fun _ _ => ⟨rfl, hs.fits, hs.counts⟩⟩

theorem safe_take :
    Safe limit (Scanner.Stands stop limit (width + room) lists) (take width) fun bs s =>
      bs.length = width ∧ s.Stands stop limit room lists :=
  (safe_look (by omega)).bind fun _ => Safe.of_and fun hlength =>
    safe_skip.bind fun _ => Safe.pure fun _ hs => ⟨hlength, hs⟩

theorem safe_number :
    Safe limit (Scanner.Stands stop limit (width + room) lists) (number width) fun n s =>
      n < LittleEndian.modulus width ∧ s.Stands stop limit room lists :=
  safe_take.bind fun bs => Safe.of_and fun hlength =>
    Safe.pure fun _ hs => ⟨hlength ▸ LittleEndian.decode_lt bs, hs⟩

/-- The walk uses up so many bytes of the room ahead, wherever it begins. -/
def Uses (scan : Scan α) (width : Nat) : Prop :=
  ∀ stop limit room lists, Safe limit (Scanner.Stands stop limit (width + room) lists) scan fun _ =>
    Scanner.Stands stop limit room lists

namespace Uses

variable {scan : Scan α} {next : α → Scan β} {width' : Nat}

theorem pure (a : α) : Uses (Pure.pure a) 0 := by
  intro stop limit room lists
  rw [Nat.zero_add]
  exact Safe.pure fun _ hs => hs

theorem throw (fault : Fault) : Uses (throw fault : Scan α) width :=
  fun _ _ _ _ => Safe.throw fault

/-- **Walks one after another** use up what both of them use. -/
theorem bind (hscan : Uses scan width) (hnext : ∀ a, Uses (next a) width') :
    Uses (scan >>= next) (width + width') := by
  intro stop limit room lists
  rw [Nat.add_assoc]
  exact (hscan _ _ _ _).bind fun a => hnext a _ _ _ _

/-- The last step of a walk may judge the value. -/
theorem judge (hscan : Uses scan width) (hnext : ∀ a, Uses (next a) 0) :
    Uses (scan >>= next) width :=
  hscan.bind hnext

/-- The last step of a walk may work on the value. -/
theorem map (hscan : Uses scan width) (f : α → β) :
    Uses (scan >>= fun a => Pure.pure (f a)) width :=
  hscan.judge fun a => pure (f a)

/-- What follows has the room that is left. -/
theorem safe_bind {after : β → Scanner → Prop} (hscan : Uses scan width)
    (hnext : ∀ a, Safe limit (Scanner.Stands stop limit room lists) (next a) after) :
    Safe limit (Scanner.Stands stop limit (width + room) lists) (scan >>= next) after :=
  (hscan _ _ _ _).bind hnext

/-- **Elements in a row** use up what so many of them use. -/
theorem repeated (hscan : Uses scan width) (count : Nat) :
    Uses (Scan.repeated scan count) (count * width) := by
  induction count with
  | zero =>
    rw [Nat.zero_mul]
    exact pure []
  | succ n ih =>
    rw [Nat.succ_mul, Nat.add_comm (n * width)]
    exact hscan.bind fun first => ih.map (first :: ·)

end Uses

theorem uses_skip (width : Nat) : Uses (skip width) width :=
  fun _ _ _ _ => safe_skip

theorem uses_number (width : Nat) : Uses (number width) width :=
  fun _ _ _ _ => safe_take.bind fun _ => Safe.of_and fun _ => Safe.pure fun _ hs => hs

theorem uses_text (width : Nat) : Uses (text width) width :=
  fun _ _ _ _ => safe_take.bind fun _ => Safe.of_and fun _ => Safe.pure fun _ hs => hs

/-! ### Checks against the end of the block -/

theorem safe_note {touch : Touch} {before after : Scanner → Prop}
    (htouch : ∀ s, before s → touch.InBounds limit s.touches)
    (hafter : ∀ s, before s → after { s with touches := touch :: s.touches }) :
    Safe limit before (note touch) fun _ => after :=
  fun s hs hin => ⟨⟨htouch s hs, hin⟩, fun _ _ => hafter s hs⟩

/-- The distance to the end of the block is the room ahead, and the last entry of the account. -/
theorem safe_remaining :
    Safe limit (Scanner.Stands limit limit room lists) remaining fun available s =>
      (s.touches.head? = some (.distance limit s.offset) ∧ available = limit - s.offset) ∧
        s.Stands limit limit available lists := by
  rintro s ⟨rfl, hfits, hcounts⟩ hin
  refine ⟨⟨⟨rfl, by omega⟩, hin⟩, ?_⟩
  rintro _ ⟨⟩
  refine ⟨⟨rfl, rfl⟩, rfl, ?_, hcounts⟩
  change s.offset + (s.limit - s.offset) ≤ s.limit
  omega

theorem safe_word (short : Nat → Fault) :
    Safe limit (Scanner.Stands limit limit room lists) (word short) fun n s =>
      n < UInt32.size ∧ s.Stands limit limit 0 lists := by
  refine safe_remaining.bind fun available => ?_
  split
  · exact Safe.throw _
  · have hnumber : Safe limit (Scanner.Stands limit limit (4 + 0) lists) (number 4) fun n s =>
        n < UInt32.size ∧ s.Stands limit limit 0 lists := safe_number
    exact (hnumber.of_room_le (by omega)).of_imp fun _ hs => hs.2

theorem safe_checkedText :
    Safe limit (Scanner.Stands limit limit room lists) (checkedText width) fun _ =>
      Scanner.Stands limit limit 0 lists := by
  refine safe_remaining.bind fun available => ?_
  split
  · exact Safe.throw _
  · have htext := uses_text width limit limit 0 lists
    exact (htext.of_room_le (by omega)).of_imp fun _ hs => hs.2

/-- A count of 32 bits that is believed makes room for its elements. -/
theorem safe_ensure {count unit : Nat} (excess : Nat → Fault) (hcount : count < UInt32.size)
    (hunit : unit = Metadata.elementSize lists) :
    Safe limit (Scanner.Stands limit limit room lists) (ensure count unit excess) fun _ =>
      Scanner.Stands limit limit (count * unit) (min (lists + 1) 4) := by
  have hproduct : count * unit < UInt64.size := by
    calc count * unit
        ≤ UInt32.size * Metadata.intervalSize :=
          Nat.mul_le_mul (Nat.le_of_lt hcount) (hunit ▸ Metadata.elementSize_le lists)
      _ < UInt64.size := by decide
  have hpositive : 0 < unit := hunit ▸ Metadata.elementSize_pos lists
  have hnote : Safe limit (Scanner.Stands limit limit room lists) (note (.product count unit))
      fun _ => Scanner.Stands limit limit room lists :=
    safe_note (fun _ _ => ⟨hcount, hproduct⟩) fun _ hs => ⟨hs.stops, hs.fits, hs.counts⟩
  refine hnote.bind fun _ => safe_remaining.bind fun available => ?_
  split
  · exact Safe.throw _
  · rename_i hle
    rw [Nat.not_lt] at hle
    refine safe_note ?_ ?_
    · rintro s ⟨⟨hhead, havailable⟩, hs⟩
      refine ⟨⟨s.offset, hhead, havailable⟩, ?_, (Nat.le_div_iff_mul_le hpositive).mpr hle⟩
      rw [hunit, ← hs.counts, Metadata.elementSize_min]
    · rintro s ⟨-, hs⟩
      have hcounts := hs.counts
      have hfits := hs.fits
      refine ⟨hs.stops, ?_, ?_⟩
      · change s.offset + count * unit ≤ limit
        omega
      · rw [← hcounts, reservations_reserve]
        omega

end Scan

namespace Metadata

open Scan

variable {stop limit room lists : Nat}

/-! ### The size of a block -/

theorem safe_scanMagic {available : Nat} (expected : Bytes) (index : Nat)
    (h : min available (index + expected.length) ≤ room) :
    Safe limit (Scanner.Stands stop limit room lists) (scanMagic available expected index) fun _ =>
      Scanner.Stands stop limit room lists := by
  induction expected generalizing index with
  | nil => exact Safe.pure fun _ hs => hs
  | cons byte expected ih =>
    rw [List.length_cons] at h
    rw [scanMagic]
    split
    · refine (safe_look (by omega)).bind fun _ => Safe.of_and fun _ => ?_
      dsimp only
      split
      · exact ih (index + 1) (by omega)
      · exact Safe.throw _
    · exact Safe.pure fun _ hs => hs

/-- Of what is there, the first eight bytes are looked at. -/
theorem safe_scanLength {available : Nat} (h : min available prologueSize ≤ room) :
    Safe limit (Scanner.Stands stop limit room lists) (scanLength available) fun _ =>
      Scanner.Stands stop limit room lists := by
  have hmagic : magic.length = 3 := rfl
  rw [prologueSize] at h
  refine (safe_scanMagic magic 0 (by omega)).bind fun _ => ?_
  split
  · exact Safe.pure fun _ hs => hs
  · refine (safe_look (by omega)).bind fun _ => Safe.of_and fun _ => ?_
    dsimp only
    split
    · exact Safe.throw _
    · split
      · exact Safe.pure fun _ hs => hs
      · rename_i hsize
        rw [prologueSize] at hsize
        refine (safe_look (by omega)).bind fun _ => Safe.of_and fun _ => ?_
        split
        · exact Safe.throw _
        · exact Safe.pure fun _ hs => hs

/-! ### The fixed fields -/

theorem uses_scanSchema : Uses scanSchema 2 := by
  refine (uses_number 2).judge fun _ => ?_
  dsimp only
  split
  · exact Uses.pure _
  · split
    · exact Uses.pure _
    · exact Uses.throw _

theorem uses_scanTotals : Uses scanTotals Totals.size :=
  (uses_number 8).bind fun _ => (uses_number 8).bind fun _ => (uses_number 8).bind fun _ =>
    (uses_number 8).map _

theorem uses_scanSymbologyTypes : Uses scanSymbologyTypes 2 := by
  have hwidth : 1 + 1 = 2 := rfl
  rw [← hwidth]
  refine (uses_number 1).bind fun _ => (uses_number 1).judge fun _ => ?_
  dsimp only
  split
  · exact Uses.pure _
  · exact Uses.throw _

theorem uses_scanTsOut : Uses scanTsOut 1 := by
  refine (uses_number 1).judge fun _ => ?_
  dsimp only
  split
  · exact Uses.pure _
  · exact Uses.throw _

theorem uses_scanSchemaDefinition : Uses scanSchemaDefinition 4 := by
  refine (uses_number 4).judge fun _ => ?_
  split
  · exact Uses.pure _
  · exact Uses.throw _

/-! ### Lists -/

/-- A list is in bounds if its elements are, once there is room for so many. -/
theorem safe_scanList {α : Type} {element : Scan α} {unit : Nat} (short : Nat → Fault)
    (excess : Nat → Nat → Fault) (hunit : unit = elementSize lists)
    (helements : ∀ count, Safe limit (Scanner.Stands limit limit (count * unit) (min (lists + 1) 4))
      (repeated element count) fun _ => Scanner.Stands limit limit 0 (min (lists + 1) 4)) :
    Safe limit (Scanner.Stands limit limit room lists) (scanList element unit short excess) fun _ =>
      Scanner.Stands limit limit 0 (min (lists + 1) 4) :=
  (safe_word short).bind fun count => Safe.of_and fun hcount =>
    (safe_ensure (excess count) hcount hunit).bind fun _ => helements count

/-- The first three lists are lists of symbols. -/
theorem safe_scanSymbols (h : lists < 3) :
    Safe limit (Scanner.Stands limit limit room lists) scanSymbols fun _ =>
      Scanner.Stands limit limit 0 (lists + 1) := by
  have hunit : symbolWidth = elementSize lists := by
    match lists, h with
    | 0, _ | 1, _ | 2, _ => rfl
  have hnext : min (lists + 1) 4 = lists + 1 := by omega
  rw [← hnext]
  exact safe_scanList _ _ hunit fun count => (uses_text symbolWidth).repeated count _ _ 0 _

theorem uses_scanInterval : Uses scanInterval intervalSize :=
  (uses_number 4).bind fun _ => (uses_number 4).bind fun _ => (uses_text symbolWidth).map _

/-- The elements of the list of mappings are checked one by one. -/
theorem safe_scanMapping :
    Safe limit (Scanner.Stands limit limit room 4) scanMapping fun _ =>
      Scanner.Stands limit limit 0 4 :=
  safe_checkedText.bind fun _ =>
    (safe_scanList _ _ rfl fun count => uses_scanInterval.repeated count _ _ 0 _).bind fun _ =>
      Safe.pure fun _ hs => hs

theorem safe_scanMappings :
    Safe limit (Scanner.Stands limit limit room 3) scanMappings fun _ =>
      Scanner.Stands limit limit 0 4 :=
  safe_scanList _ _ rfl fun count =>
    (safe_repeated safe_scanMapping count).of_room_le (Nat.zero_le _)

/-! ### The whole block -/

/-- **The contents of a block.** A frame of the least size has room for the fixed fields, and the
lists make their own. -/
theorem safe_scanFrame (version : UInt8) :
    Safe limit (Scanner.Stands limit limit fixedSize 0) (scanFrame version) fun _ _ => True := by
  have hroom : datasetWidth + (2 + (Totals.size + (2 + (1 + (reservedSize + (4 + 0)))))) =
      fixedSize := rfl
  rw [← hroom]
  refine (uses_text datasetWidth).safe_bind fun _ => uses_scanSchema.safe_bind fun _ => ?_
  refine uses_scanTotals.safe_bind fun _ => uses_scanSymbologyTypes.safe_bind fun (_, _) => ?_
  refine uses_scanTsOut.safe_bind fun _ => (uses_skip reservedSize).safe_bind fun _ => ?_
  refine uses_scanSchemaDefinition.safe_bind fun _ => ?_
  refine (safe_scanSymbols (by decide)).bind fun _ => ?_
  refine (safe_scanSymbols (by decide)).bind fun _ => ?_
  refine (safe_scanSymbols (by decide)).bind fun _ => ?_
  exact safe_scanMappings.bind fun _ => Safe.pure fun _ _ => trivial

/-- Where the bytes end that may be read: at the announced end of the block, or sooner if the byte
string does, or if no end is announced. -/
def blockEnd (bs : Bytes) : Nat :=
  match peekLength bs with
  | .ok (some length) => min length bs.length
  | _ => bs.length

theorem blockEnd_le_length (bs : Bytes) : blockEnd bs ≤ bs.length := by
  rw [blockEnd]
  split
  · exact Nat.min_le_right _ _
  · exact Nat.le_refl _

theorem blockEnd_le_of_peekLength {bs : Bytes} {length : Nat}
    (h : peekLength bs = .ok (some length)) : blockEnd bs ≤ length := by
  rw [blockEnd, h]
  exact Nat.min_le_left _ _

/-- The prologue lies before the end. -/
theorem min_prologueSize_le_blockEnd (bs : Bytes) :
    min bs.length prologueSize ≤ blockEnd bs := by
  rw [blockEnd]
  split
  · rename_i length hlength
    rw [peekLength_eq] at hlength
    have hsize := (prologue_of_announcedLength hlength).2.2
    omega
  · exact Nat.min_le_left _ _

theorem safe_scanBlock (bs : Bytes) :
    Safe (blockEnd bs) (· = Scanner.start bs) (scanBlock bs.length) fun _ _ => True := by
  have hlength : Safe (blockEnd bs) (· = Scanner.start bs) (scanLength bs.length) fun length s =>
      peekLength bs = .ok length ∧ s.Stands bs.length (blockEnd bs) (blockEnd bs) 0 := by
    rintro _ rfl hin
    obtain ⟨hin', hafter⟩ := safe_scanLength (min_prologueSize_le_blockEnd bs) (Scanner.start bs)
      ⟨rfl, Nat.le_of_eq (Nat.zero_add _), rfl⟩ hin
    exact ⟨hin', fun length hrun => ⟨hrun, hafter length hrun⟩⟩
  refine hlength.bind fun length => Safe.of_and fun hpeek => ?_
  cases length with
  | none => exact Safe.throw _
  | some length =>
    dsimp only
    split
    · exact Safe.throw _
    · rename_i hle
      have hend : blockEnd bs = length := by
        rw [blockEnd, hpeek]
        exact Nat.min_eq_left (by omega)
      rw [peekLength_eq] at hpeek
      have hsize := (prologue_of_announcedLength hpeek).2.2
      have hmagic : magic.length = 3 := rfl
      rw [prologueSize, minFrameSize] at hsize
      rw [hend]
      refine (safe_look (by omega)).bind fun _ => Safe.of_and fun _ => ?_
      refine safe_setLimit.bind fun _ => ?_
      refine ((uses_skip prologueSize).safe_bind fun _ => safe_scanFrame _).of_room_le ?_
      rw [prologueSize]
      omega

/-- Metadata already there is left as it was when reading fails. -/
theorem snd_parseOnto_of_error {bs : Bytes} {given : Metadata} {fault : Fault}
    (h : ((parseOnto bs).run.run given).1 = .error fault) :
    ((parseOnto bs).run.run given).2 = given := by
  rw [parseOnto] at h ⊢
  cases hparse : parse bs with
  | error _ => rfl
  | ok metadata =>
    rw [hparse] at h
    cases h

/-- **Reading metadata stays in bounds.** Looking for the size of a block touches no byte behind its
prologue, and reading the block none behind the end of the block or of the byte string. All
distances are taken to the end of the block from positions before it, all products fit into 64 bits,
and room is made for no more elements than the bytes that are left can hold. If reading fails, the
metadata given is left as it was. -/
theorem parse_inBounds (bs : Bytes) :
    InBounds (min bs.length prologueSize) (peekTouches bs) ∧
      InBounds (blockEnd bs) (parseTouches bs) ∧ blockEnd bs ≤ bs.length ∧
      (∀ length, peekLength bs = .ok (some length) → blockEnd bs ≤ length) ∧
      ∀ given fault, ((parseOnto bs).run.run given).1 = .error fault →
        ((parseOnto bs).run.run given).2 = given := by
  refine ⟨?_, ?_, blockEnd_le_length bs, fun _ => blockEnd_le_of_peekLength,
    fun _ _ => snd_parseOnto_of_error⟩
  · exact (safe_scanLength (Nat.le_refl _) (Scanner.start bs)
      ⟨rfl, Nat.le_of_eq (Nat.zero_add _), rfl⟩ trivial).1
  · exact (safe_scanBlock bs (Scanner.start bs) rfl trivial).1

end Metadata

end MarketWire
