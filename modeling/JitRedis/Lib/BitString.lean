import Mathlib.Tactic

/-!
# Byte strings as bit strings

Bit 0 of a byte string is the most significant bit of its first byte, and behind its end it goes on with zeros. A
window of bits stands for a number, most significant bit first.
-/

namespace BitString

def bit (p : List UInt8) (i : Nat) : Bool := (p.getD (i / 8) 0).toNat.testBit (7 - i % 8)

/-- The number that `n` bits from `offset` on stand for. -/
def window (f : Nat → Bool) (offset : Nat) : Nat → Nat
  | 0 => 0
  | n + 1 => 2 * window f offset n + (f (offset + n)).toNat

variable {f g : Nat → Bool} {p q : List UInt8} {offset n v : Nat}

lemma window_lt (f : Nat → Bool) (offset n : Nat) : window f offset n < 2 ^ n := by
  induction n with
  | zero => exact Nat.one_pos
  | succ n ih =>
    have hbit := (f (offset + n)).toNat_le
    rw [window, pow_succ]
    omega

/-- The bits of the number are those of the window. -/
lemma testBit_window {k : Nat} (hk : k < n) : (window f offset n).testBit k = f (offset + (n - 1 - k)) := by
  induction n generalizing k with
  | zero => cases hk
  | succ n ih =>
    rw [window]
    cases k with
    | zero =>
      rw [Nat.testBit_zero]
      cases h : f (offset + n) with
      | false => simp [h]
      | true => simp [h]
    | succ k =>
      rw [Nat.testBit_succ, show (2 * window f offset n + (f (offset + n)).toNat) / 2 = window f offset n by
        have := (f (offset + n)).toNat_le; omega]
      rw [ih (by omega)]
      congr 2
      omega

/-- A number is read from a window that has its bits. -/
lemma window_eq (hv : v < 2 ^ n) (h : ∀ k < n, f (offset + (n - 1 - k)) = v.testBit k) : window f offset n = v := by
  apply Nat.eq_of_testBit_eq
  intro k
  by_cases hk : k < n
  · rw [testBit_window hk, h k hk]
  · have hpow : 2 ^ n ≤ 2 ^ k := Nat.pow_le_pow_right two_pos (by omega)
    rw [Nat.testBit_lt_two_pow (by have := window_lt f offset n; omega), Nat.testBit_lt_two_pow (by omega)]

lemma window_congr {offset' : Nat} (h : ∀ k < n, f (offset + k) = g (offset' + k)) :
    window f offset n = window g offset' n := by
  induction n with
  | zero => rfl
  | succ n ih => rw [window, window, ih fun k hk => h k (by omega), h n (by omega)]

/-- The first bit of a window is its most significant one. -/
lemma window_succ_left (f : Nat → Bool) (offset n : Nat) :
    window f offset (n + 1) = (f offset).toNat * 2 ^ n + window f (offset + 1) n := by
  induction n with
  | zero => rw [window, window, window]; simp
  | succ n ih =>
    rw [window, ih, window, pow_succ, add_right_comm offset 1 n, add_assoc offset n 1]
    ring

/-- A byte that is replaced changes the bits it has. -/
lemma bit_set {k : Nat} (hk : k < p.length) (b : UInt8) (i : Nat) :
    bit (p.set k b) i = if i / 8 = k then b.toNat.testBit (7 - i % 8) else bit p i := by
  rw [bit, bit, List.getD_eq_getElem?_getD, List.getD_eq_getElem?_getD, List.getElem?_set]
  by_cases h : i / 8 = k
  · rw [if_pos h.symm, if_pos (by omega), if_pos h, Option.getD_some]
  · rw [if_neg (Ne.symm h), if_neg h]

end BitString
