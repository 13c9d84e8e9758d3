import Mathlib.Tactic

/-!
# Numbers as little endian byte strings

A number of fixed width, least significant byte first, without sign or in two's complement.
-/

namespace LittleEndian

/-- The first `w` bytes of a number. -/
def encode : Nat → Nat → List UInt8
  | 0, _ => []
  | w + 1, n => UInt8.ofNat n :: encode w (n / 256)

/-- The number that a byte string stands for. -/
def decode : List UInt8 → Nat
  | [] => 0
  | b :: bs => b.toNat + 256 * decode bs

/-- The first `w` bytes of a number in two's complement. -/
def encodeInt (w : Nat) (v : Int) : List UInt8 := encode w (v % 256 ^ w).toNat

/-- The number that a byte string stands for in two's complement. -/
def decodeInt (bs : List UInt8) : Int := Int.bmod (decode bs) (256 ^ bs.length)

/-- The numbers that have `w` bytes in two's complement. -/
def Fits (w : Nat) (v : Int) : Prop := -256 ^ w ≤ 2 * v ∧ 2 * v < 256 ^ w

@[simp] lemma length_encode (w n : Nat) : (encode w n).length = w := by
  induction w generalizing n with
  | zero => rfl
  | succ w ih => rw [encode, List.length_cons, ih]

@[simp] lemma length_encodeInt (w : Nat) (v : Int) : (encodeInt w v).length = w := length_encode w _

lemma decode_encode_mod (w n : Nat) : decode (encode w n) = n % 256 ^ w := by
  induction w generalizing n with
  | zero => rw [encode, decode, pow_zero, Nat.mod_one]
  | succ w ih => rw [encode, decode, ih, UInt8.toNat_ofNat', pow_succ' 256 w, Nat.mod_mul (x := n) (a := 256) (b := 256 ^ w)]

lemma decode_encode {w n : Nat} (h : n < 256 ^ w) : decode (encode w n) = n := by
  rw [decode_encode_mod, Nat.mod_eq_of_lt h]

lemma decode_lt (bs : List UInt8) : decode bs < 256 ^ bs.length := by
  induction bs with
  | nil => exact Nat.one_pos
  | cons b bs ih =>
    have hb := b.toNat_lt
    rw [decode, List.length_cons, pow_succ]
    omega

lemma decodeInt_encodeInt {w : Nat} {v : Int} (h : Fits w v) : decodeInt (encodeInt w v) = v := by
  have hpos : (0 : Int) < 256 ^ w := by positivity
  have hnonneg := Int.emod_nonneg v hpos.ne'
  have hlt : (v % 256 ^ w).toNat < 256 ^ w := by
    rw [Int.toNat_lt hnonneg]
    exact_mod_cast Int.emod_lt_of_pos v hpos
  rw [decodeInt, length_encodeInt, encodeInt, decode_encode hlt, Int.toNat_of_nonneg hnonneg]
  have hcast : ((256 ^ w : Nat) : Int) = 256 ^ w := by norm_cast
  rw [← hcast, Int.emod_bmod]
  obtain ⟨low, high⟩ := h
  rw [← hcast] at low high
  exact Int.bmod_eq_of_le_mul_two (by omega) (by omega)

/-- A byte string stands for a number of its width. -/
lemma fits_decodeInt (bs : List UInt8) : Fits bs.length (decodeInt bs) := by
  have hpos : 0 < 256 ^ bs.length := by positivity
  have hcast : ((256 ^ bs.length : Nat) : Int) = 256 ^ bs.length := by norm_cast
  have low : _ ≤ decodeInt bs := Int.le_bmod hpos
  have high : decodeInt bs < _ := Int.bmod_lt hpos
  rw [hcast] at low high
  exact ⟨by omega, by omega⟩

lemma fits_mono {w w' : Nat} (h : w ≤ w') {v : Int} (fits : Fits w v) : Fits w' v := by
  have hpow : (256 : Int) ^ w ≤ 256 ^ w' := pow_le_pow_right₀ (by norm_num) h
  obtain ⟨low, high⟩ := fits
  exact ⟨by omega, by omega⟩

end LittleEndian
