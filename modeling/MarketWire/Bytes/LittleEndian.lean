import MarketWire.Bytes.Text

/-!
# Little-endian integers

Integers travel with their lowest byte first. `encode` keeps as many low-order bytes as the width
asks for, so writing into a narrower field cuts the number; `decode` reads every byte it is given.

## Main results

* `decode_encode` — a number comes back modulo the range of its width.
* `encode_decode` — bytes come back exactly.
-/

namespace MarketWire

namespace LittleEndian

/-- The `width` lowest bytes of a number, the lowest one first. -/
def encode : (width n : Nat) → Bytes
  | 0, _ => []
  | width + 1, n => UInt8.ofNat n :: encode width (n / 256)

/-- The number whose bytes are given, the lowest one first. -/
def decode : Bytes → Nat
  | [] => 0
  | b :: bs => b.toNat + 256 * decode bs

/-- The number of values that so many bytes can take. -/
def modulus : (width : Nat) → Nat
  | 0 => 1
  | width + 1 => 256 * modulus width

/-- The two's complement reading of the bytes. -/
def decodeSigned (bs : Bytes) : Int :=
  Int.bmod (decode bs) (modulus bs.length)

@[simp] theorem length_encode (width n : Nat) : (encode width n).length = width := by
  induction width generalizing n with
  | zero => rfl
  | succ width ih => simp [encode, ih]

/-- A number survives the trip up to the range of its width. -/
theorem decode_encode (width n : Nat) : decode (encode width n) = n % modulus width := by
  induction width generalizing n with
  | zero => simp [encode, decode, modulus, Nat.mod_one]
  | succ width ih => rw [encode, decode, ih, UInt8.toNat_ofNat', modulus, Nat.mod_mul]

theorem decode_lt (bs : Bytes) : decode bs < modulus bs.length := by
  induction bs with
  | nil => simp [decode, modulus]
  | cons b bs ih =>
    have hb := b.toNat_lt
    simp only [decode, List.length_cons, modulus]
    omega

/-- No byte counts less than it would as the lowest one. -/
theorem toNat_le_decode {b : UInt8} {bs : Bytes} (h : b ∈ bs) : b.toNat ≤ decode bs := by
  induction h with
  | head bs => exact Nat.le_add_right _ _
  | tail a _ ih =>
    rw [decode]
    omega

/-- Bytes survive the trip exactly. -/
theorem encode_decode (bs : Bytes) : encode bs.length (decode bs) = bs := by
  induction bs with
  | nil => rfl
  | cons b bs ih =>
    have hb := b.toNat_lt
    have hdiv : (b.toNat + 256 * decode bs) / 256 = decode bs := by omega
    have hbyte : UInt8.ofNat (b.toNat + 256 * decode bs) = b := by
      apply UInt8.toNat.inj
      simp
    simp [encode, decode, hdiv, hbyte, ih]

end LittleEndian

end MarketWire
