import Mathlib.Data.Nat.Notation

/-! # Bytes in lowercase hexadecimal

A byte is written as two digits, the high half first.  The digits are the sixteen bytes
of `0123456789abcdef`, so every byte has one spelling, and the two halves of a byte can be
read from it and joined again.
-/
namespace Hexadecimal

/-- A property of the bytes below a bound is decided by trying them. -/
theorem forall_of_toNat_lt {bound : Nat} {p : UInt8 → Prop}
    (h : ∀ n : Fin bound, p (UInt8.ofNat n)) (byte : UInt8) (hbyte : byte.toNat < bound) :
    p byte := by
  have := h ⟨byte.toNat, hbyte⟩
  rwa [UInt8.ofNat_toNat] at this

/-! ## Half bytes -/

def high (byte : UInt8) : UInt8 := byte >>> 4

def low (byte : UInt8) : UInt8 := byte &&& 0x0f

def join (high low : UInt8) : UInt8 := high <<< 4 ||| low

theorem high_lt (byte : UInt8) : (high byte).toNat < 16 :=
  forall_of_toNat_lt (p := fun byte => (high byte).toNat < 16) (by decide +kernel) byte
    byte.toNat_lt

theorem low_lt (byte : UInt8) : (low byte).toNat < 16 :=
  forall_of_toNat_lt (p := fun byte => (low byte).toNat < 16) (by decide +kernel) byte byte.toNat_lt

theorem join_high_low (byte : UInt8) : join (high byte) (low byte) = byte :=
  forall_of_toNat_lt (p := fun byte => join (high byte) (low byte) = byte) (by decide +kernel) byte
    byte.toNat_lt

theorem high_low_join {a b : UInt8} (ha : a.toNat < 16) (hb : b.toNat < 16) :
    high (join a b) = a ∧ low (join a b) = b := by
  refine forall_of_toNat_lt (p := fun a => high (join a b) = a ∧ low (join a b) = b) ?_ a ha
  intro n
  refine forall_of_toNat_lt (p := fun b => high (join (UInt8.ofNat n) b) = UInt8.ofNat n ∧
    low (join (UInt8.ofNat n) b) = b) ?_ b hb
  revert n
  decide

/-! ## Digits -/

def digits : List UInt8 :=
  [0x30, 0x31, 0x32, 0x33, 0x34, 0x35, 0x36, 0x37, 0x38, 0x39, 0x61, 0x62, 0x63, 0x64, 0x65, 0x66]

def digit (half : UInt8) : UInt8 := digits.getD half.toNat 0

theorem digit_lt {half : UInt8} (h : half.toNat < 16) : digit half < 128 :=
  forall_of_toNat_lt (p := fun half => digit half < 128) (by decide) half h

def pair (byte : UInt8) : List UInt8 := [digit (high byte), digit (low byte)]

def spell (bytes : List UInt8) : List UInt8 := bytes.flatMap pair

@[simp] theorem spell_nil : spell [] = [] := rfl

theorem spell_cons (byte : UInt8) (bytes : List UInt8) :
    spell (byte :: bytes) = digit (high byte) :: digit (low byte) :: spell bytes := rfl

@[simp] theorem length_spell (bytes : List UInt8) : (spell bytes).length = bytes.length * 2 := by
  induction bytes with
  | nil => rfl
  | cons byte bytes ih =>
    rw [spell_cons]
    simp only [List.length_cons, ih]
    omega

theorem lt_of_mem_spell {bytes : List UInt8} {b : UInt8} (h : b ∈ spell bytes) : b < 128 := by
  obtain ⟨byte, -, hb⟩ := List.mem_flatMap.mp h
  simp only [pair, List.mem_cons, List.not_mem_nil, or_false] at hb
  rcases hb with rfl | rfl
  · exact digit_lt (high_lt byte)
  · exact digit_lt (low_lt byte)

end Hexadecimal
