import Mathlib.Tactic

/-!
# Bit vectors ordered by their reversed bits

`revIdx x` reads a bit vector from its low bit on. Two vectors agree on their low `n` bits exactly
when their reversed indexes lie in the same block of `2 ^ (w - n)` numbers, and the successor that
increments the reversed low `n` bits moves to the start of the next block.
-/

namespace BitOrder

variable {w n : Nat} {x y : BitVec w}

/-- The number whose most significant bit is the low bit of `x`. -/
def revIdx (x : BitVec w) : Nat := x.reverse.toNat

/-- Set the bits from `n` on, then increment the reversed vector. -/
def revSucc (n : Nat) (x : BitVec w) : BitVec w :=
  ((x ||| ~~~(BitVec.ofNat w (2 ^ n - 1))).reverse + 1).reverse

lemma testBit_revIdx (x : BitVec w) (i : Nat) :
    (revIdx x).testBit i = (decide (i < w) && x.getLsbD (w - 1 - i)) := by
  rw [revIdx, BitVec.testBit_toNat, BitVec.getLsbD_reverse, BitVec.getMsbD_eq_getLsbD]

lemma revIdx_lt (x : BitVec w) : revIdx x < 2 ^ w := BitVec.isLt _

lemma revIdx_injective : Function.Injective (revIdx : BitVec w → Nat) := by
  intro x y h
  have rev : x.reverse = y.reverse := BitVec.eq_of_toNat_eq h
  rw [← BitVec.reverse_reverse_eq (x := x), rev, BitVec.reverse_reverse_eq]

@[simp] lemma revIdx_zero : revIdx (0 : BitVec w) = 0 := by
  apply Nat.eq_of_testBit_eq
  intro i
  simp [testBit_revIdx]

/-- The reversed index is a multiple of a block exactly when the bits from `n` on are clear. -/
lemma block_dvd_revIdx_iff (hn : n ≤ w) :
    2 ^ (w - n) ∣ revIdx x ↔ ∀ i, n ≤ i → x.getLsbD i = false := by
  rw [Nat.dvd_iff_mod_eq_zero]
  constructor
  · intro h i hi
    by_cases hw : i < w
    · have bit := congrArg (fun z => Nat.testBit z (w - 1 - i)) h
      simpa [Nat.testBit_mod_two_pow, testBit_revIdx, show w - 1 - i < w - n by omega,
        show w - 1 - i < w by omega, show w - 1 - (w - 1 - i) = i by omega] using bit
    · exact BitVec.getLsbD_of_ge _ _ (Nat.not_lt.mp hw)
  · intro h
    apply Nat.eq_of_testBit_eq
    intro i
    by_cases hi : i < w - n
    · simp [Nat.testBit_mod_two_pow, testBit_revIdx, h (w - 1 - i) (by omega)]
    · simp [Nat.testBit_mod_two_pow, hi]

/-- At the start of a block of `n₁` bits, the bits between the masks tell whether a block of `n₀` bits starts too. -/
lemma and_mask_diff_eq_zero_iff {n₀ n₁ : Nat} (h01 : n₀ ≤ n₁) (h1 : n₁ ≤ w)
    (start : 2 ^ (w - n₁) ∣ revIdx x) :
    x &&& BitVec.ofNat w ((2 ^ n₀ - 1) ^^^ (2 ^ n₁ - 1)) = 0 ↔ 2 ^ (w - n₀) ∣ revIdx x := by
  rw [block_dvd_revIdx_iff h1] at start
  rw [block_dvd_revIdx_iff (h01.trans h1)]
  constructor
  · intro h i hi
    by_cases hi1 : i < n₁
    · have bit := congrArg (fun z => BitVec.getLsbD z i) h
      rw [BitVec.getLsbD_and, BitVec.getLsbD_ofNat, Nat.testBit_xor, Nat.testBit_two_pow_sub_one,
        Nat.testBit_two_pow_sub_one] at bit
      simpa [hi1, Nat.not_lt.mpr hi, show i < w by omega] using bit
    · exact start i (Nat.not_lt.mp hi1)
  · intro h
    apply BitVec.eq_of_getLsbD_eq
    intro i _
    rw [BitVec.getLsbD_and, BitVec.getLsbD_ofNat, Nat.testBit_xor, Nat.testBit_two_pow_sub_one,
      Nat.testBit_two_pow_sub_one]
    by_cases hi : n₀ ≤ i
    · simp [h i hi]
    · simp [Nat.not_le.mp hi, show i < n₁ by omega]

/-- Agreeing on the low bits is being in the same block. -/
lemma mod_eq_iff_block_eq (hn : n ≤ w) :
    x.toNat % 2 ^ n = y.toNat % 2 ^ n ↔ revIdx x / 2 ^ (w - n) = revIdx y / 2 ^ (w - n) := by
  have low : ∀ z : BitVec w, ∀ i,
      (z.toNat % 2 ^ n).testBit i = (decide (i < n) && z.getLsbD i) := by
    intro z i
    rw [Nat.testBit_mod_two_pow, BitVec.testBit_toNat]
  have high : ∀ z : BitVec w, ∀ i, (revIdx z / 2 ^ (w - n)).testBit i =
      (decide (w - n + i < w) && z.getLsbD (w - 1 - (w - n + i))) := by
    intro z i
    rw [Nat.testBit_div_two_pow, testBit_revIdx, Nat.add_comm i]
  constructor
  · intro h
    apply Nat.eq_of_testBit_eq
    intro i
    rw [high, high]
    by_cases hi : w - n + i < w
    · have bit := congrArg (fun z => Nat.testBit z (w - 1 - (w - n + i))) h
      simp only [low, show w - 1 - (w - n + i) < n by omega, decide_true, Bool.true_and] at bit
      rw [bit]
    · simp [hi]
  · intro h
    apply Nat.eq_of_testBit_eq
    intro i
    rw [low, low]
    by_cases hi : i < n
    · have bit := congrArg (fun z => Nat.testBit z (n - 1 - i)) h
      simp only [high, show w - n + (n - 1 - i) < w by omega, decide_true, Bool.true_and,
        show w - 1 - (w - n + (n - 1 - i)) = i by omega] at bit
      rw [bit]
    · simp [hi]

/-- Setting the bits from `n` on moves to the last index of the block. -/
lemma revIdx_or_not_mask (hn : n ≤ w) :
    revIdx (x ||| ~~~(BitVec.ofNat w (2 ^ n - 1))) =
      2 ^ (w - n) * (revIdx x / 2 ^ (w - n)) + (2 ^ (w - n) - 1) := by
  apply Nat.eq_of_testBit_eq
  intro i
  rw [testBit_revIdx, Nat.testBit_two_pow_mul_add _ (Nat.sub_lt (Nat.two_pow_pos _) one_pos),
    Nat.testBit_two_pow_sub_one, Nat.testBit_div_two_pow, testBit_revIdx, BitVec.getLsbD_or,
    BitVec.getLsbD_not, BitVec.getLsbD_ofNat, Nat.testBit_two_pow_sub_one]
  by_cases hw : i < w
  · by_cases hi : i < w - n
    · simp [hw, hi, show w - 1 - i < w by omega, show ¬ w - 1 - i < n by omega]
    · simp [hw, hi, show w - 1 - i < n by omega, show i - (w - n) + (w - n) = i by omega]
  · simp [hw, show ¬ i < w - n by omega, show i - (w - n) + (w - n) = i by omega]

/-- The successor starts the next block, or starts over. -/
lemma revIdx_revSucc (hn : n ≤ w) :
    revIdx (revSucc n x) = (2 ^ (w - n) * (revIdx x / 2 ^ (w - n) + 1)) % 2 ^ w := by
  have pos := Nat.two_pow_pos (w - n)
  have last := revIdx_or_not_mask (x := x) hn
  rw [revIdx] at last
  rw [revSucc, revIdx, BitVec.reverse_reverse_eq, BitVec.toNat_add, last, Nat.mul_add]
  cases w with
  | zero => simp [Nat.mod_one]
  | succ w =>
    rw [show (1 : BitVec (w + 1)).toNat = 1 by simp]
    congr 1
    omega

/-- The successor is zero after the last block, and the start of the next block otherwise. -/
lemma revSucc_cases (hn : n ≤ w) (x : BitVec w) :
    (revSucc n x = 0 ∧ 2 ^ (w - n) * (revIdx x / 2 ^ (w - n) + 1) = 2 ^ w) ∨
      (revSucc n x ≠ 0 ∧ revIdx (revSucc n x) = 2 ^ (w - n) * (revIdx x / 2 ^ (w - n) + 1)) := by
  have pos := Nat.two_pow_pos (w - n)
  have pw : 2 ^ w = 2 ^ (w - n) * 2 ^ n := by
    rw [← pow_add]
    congr 1
    omega
  have hq : revIdx x / 2 ^ (w - n) < 2 ^ n := by
    rw [Nat.div_lt_iff_lt_mul pos, Nat.mul_comm, ← pw]
    exact revIdx_lt x
  have next := revIdx_revSucc (x := x) hn
  obtain last | inner := Nat.eq_or_lt_of_le (Nat.succ_le_of_lt hq)
  · left
    rw [Nat.succ_eq_add_one] at last
    rw [last, ← pw, Nat.mod_self] at next
    exact ⟨revIdx_injective (by rw [next, revIdx_zero]), by rw [last, pw]⟩
  right
  have lt : 2 ^ (w - n) * (revIdx x / 2 ^ (w - n) + 1) < 2 ^ w := by
    rw [pw]
    exact Nat.mul_lt_mul_of_pos_left inner pos
  rw [Nat.mod_eq_of_lt lt] at next
  refine ⟨fun h => ?_, next⟩
  rw [h, revIdx_zero] at next
  exact absurd next (by positivity)

/-- What is not below a vector is in its block or not below its successor. -/
lemma block_eq_or_revSucc_le (hn : n ≤ w) (h : revIdx x ≤ revIdx y) :
    revIdx y / 2 ^ (w - n) = revIdx x / 2 ^ (w - n) ∨
      (revSucc n x ≠ 0 ∧ revIdx (revSucc n x) ≤ revIdx y) := by
  have pos := Nat.two_pow_pos (w - n)
  obtain eq | lt := Nat.eq_or_lt_of_le (Nat.div_le_div_right (c := 2 ^ (w - n)) h)
  · exact .inl eq.symm
  right
  have le : 2 ^ (w - n) * (revIdx x / 2 ^ (w - n) + 1) ≤ revIdx y := by
    rw [Nat.mul_comm]
    exact (Nat.le_div_iff_mul_le pos).mp lt
  rcases revSucc_cases hn x with ⟨-, h'⟩ | ⟨h1, h2⟩
  · have := revIdx_lt y
    omega
  · exact ⟨h1, h2 ▸ le⟩

lemma fine_bounds {n₀ n₁ : Nat} (h01 : n₀ ≤ n₁) (h1 : n₁ ≤ w) (x : BitVec w) :
    2 ^ (n₁ - n₀) * (revIdx x / 2 ^ (w - n₀)) ≤ revIdx x / 2 ^ (w - n₁) ∧
      revIdx x / 2 ^ (w - n₁) < 2 ^ (n₁ - n₀) * (revIdx x / 2 ^ (w - n₀) + 1) := by
  have coarse : 2 ^ (w - n₀) = 2 ^ (w - n₁) * 2 ^ (n₁ - n₀) := by
    rw [← pow_add]
    congr 1
    omega
  rw [coarse, ← Nat.div_div_eq_div_mul]
  exact ⟨Nat.mul_div_le _ _, Nat.lt_mul_div_succ _ (Nat.two_pow_pos _)⟩

/-- Moving on by a fine block either completes the coarse block or stays inside it. -/
lemma revSucc_fine {n₀ n₁ : Nat} (h01 : n₀ ≤ n₁) (h1 : n₁ ≤ w) (x : BitVec w) :
    (revIdx x / 2 ^ (w - n₁) + 1 = 2 ^ (n₁ - n₀) * (revIdx x / 2 ^ (w - n₀) + 1) ∧
        revSucc n₁ x = revSucc n₀ x ∧ 2 ^ (w - n₀) ∣ revIdx (revSucc n₁ x)) ∨
      (revIdx (revSucc n₁ x) / 2 ^ (w - n₁) = revIdx x / 2 ^ (w - n₁) + 1 ∧
        revIdx (revSucc n₁ x) / 2 ^ (w - n₀) = revIdx x / 2 ^ (w - n₀) ∧
        revSucc n₀ (revSucc n₁ x) = revSucc n₀ x ∧ ¬ 2 ^ (w - n₀) ∣ revIdx (revSucc n₁ x)) := by
  have h0 := h01.trans h1
  have pos1 := Nat.two_pow_pos (w - n₁)
  have coarse : 2 ^ (w - n₀) = 2 ^ (w - n₁) * 2 ^ (n₁ - n₀) := by
    rw [← pow_add]
    congr 1
    omega
  have dvd_start : 2 ^ (w - n₀) ∣ 2 ^ w := pow_dvd_pow 2 (Nat.sub_le _ _)
  have q0 : revIdx x / 2 ^ (w - n₀) = revIdx x / 2 ^ (w - n₁) / 2 ^ (n₁ - n₀) := by
    rw [coarse, Nat.div_div_eq_div_mul]
  obtain ⟨low, high⟩ := fine_bounds h01 h1 x
  obtain last | inner := Nat.eq_or_lt_of_le (Nat.succ_le_of_lt high)
  · left
    rw [Nat.succ_eq_add_one] at last
    have same : revIdx (revSucc n₁ x) = revIdx (revSucc n₀ x) := by
      rw [revIdx_revSucc h1, revIdx_revSucc h0, last, ← Nat.mul_assoc, ← coarse]
    refine ⟨last, revIdx_injective same, ?_⟩
    rw [same, revIdx_revSucc h0]
    exact (Nat.dvd_mod_iff dvd_start).mpr (Nat.dvd_mul_right _ _)
  right
  rw [Nat.succ_eq_add_one] at inner
  have next : revIdx (revSucc n₁ x) = 2 ^ (w - n₁) * (revIdx x / 2 ^ (w - n₁) + 1) := by
    rcases revSucc_cases h1 x with ⟨-, h⟩ | ⟨-, h⟩
    · exfalso
      have lt := Nat.mul_lt_mul_of_pos_left inner pos1
      rw [← Nat.mul_assoc, ← coarse, h] at lt
      rcases revSucc_cases h0 x with ⟨-, h'⟩ | ⟨-, h'⟩
      · omega
      · have := revIdx_lt (revSucc n₀ x)
        omega
    · exact h
  have blk1 : revIdx (revSucc n₁ x) / 2 ^ (w - n₁) = revIdx x / 2 ^ (w - n₁) + 1 := by
    rw [next, Nat.mul_div_cancel_left _ pos1]
  have blk0 : revIdx (revSucc n₁ x) / 2 ^ (w - n₀) = revIdx x / 2 ^ (w - n₀) := by
    rw [coarse, ← Nat.div_div_eq_div_mul, blk1, ← Nat.div_div_eq_div_mul, ← q0]
    refine Nat.div_eq_of_lt_le ?_ ?_
    · rw [Nat.mul_comm]
      omega
    · rwa [Nat.mul_comm]
  refine ⟨blk1, blk0, revIdx_injective ?_, ?_⟩
  · rw [revIdx_revSucc h0, revIdx_revSucc h0, blk0]
  · rw [next, coarse]
    intro h
    obtain ⟨t, ht⟩ := Nat.dvd_of_mul_dvd_mul_left pos1 h
    rw [ht] at inner
    have lt := Nat.lt_of_mul_lt_mul_left inner
    have le : 2 ^ (n₁ - n₀) * t ≤ 2 ^ (n₁ - n₀) * (revIdx x / 2 ^ (w - n₀)) :=
      Nat.mul_le_mul_left _ (Nat.le_of_lt_succ lt)
    omega

end BitOrder
