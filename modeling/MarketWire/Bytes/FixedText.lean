import MarketWire.Fault

/-!
# Fixed-width text fields

A text field has a fixed width and is filled up with NULs. A text fits when it is shorter than the
field, so that at least one NUL ends it; reading stops at the first NUL, or at the end of a field
that holds none.
-/

namespace MarketWire

namespace FixedText

/-- Whether a text leaves room for the NUL that ends it. -/
def Fits (width : Nat) (text : Text) : Prop :=
  text.length < width

instance (width : Nat) (text : Text) : Decidable (Fits width text) :=
  inferInstanceAs (Decidable (text.length < width))

/-- The text filled up with NULs to the width of its field. -/
def pad (width : Nat) (text : Text) : Bytes :=
  text ++ List.replicate (width - text.length) 0

/-- The bytes of the field called `field`, refused when the text does not fit. -/
def encode (field : Text) (width : Nat) (text : Text) : Except Fault Bytes :=
  if Fits width text then .ok (pad width text) else .error (.overlongText field text width)

/-- The text of a field. -/
def decode (bs : Bytes) : Text :=
  Text.upToNul bs

theorem length_pad {width : Nat} {text : Text} (h : Fits width text) :
    (pad width text).length = width := by
  simp only [Fits] at h
  simp [pad]
  omega

theorem encode_eq_ok_iff {field text : Text} {width : Nat} {bs : Bytes} :
    encode field width text = .ok bs ↔ Fits width text ∧ pad width text = bs := by
  rw [encode]
  split <;> simp [*]

/-- A text is read back from its field up to its first NUL. -/
theorem decode_pad (width : Nat) (text : Text) : decode (pad width text) = Text.upToNul text :=
  Text.upToNul_append_replicate text _

end FixedText

end MarketWire
