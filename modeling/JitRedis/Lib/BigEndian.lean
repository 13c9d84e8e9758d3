import Mathlib.Tactic

/-!
# Numbers as big endian byte strings

A number of fixed width, most significant byte first. Byte strings of one length compare
lexicographically as the numbers that they stand for.
-/

/-- Bytes are compared as numbers. -/
instance UInt8.byteOrder : LinearOrder UInt8 where
  le_refl := UInt8.le_refl
  le_trans _ _ _ := UInt8.le_trans
  le_antisymm _ _ := UInt8.le_antisymm
  le_total := UInt8.le_total
  lt_iff_le_not_ge a b := by
    rw [UInt8.not_le, UInt8.le_iff_lt_or_eq]
    exact ⟨fun h => ⟨.inl h, h⟩, And.right⟩
  toDecidableLE := inferInstance
  toDecidableEq := inferInstance
  toDecidableLT := inferInstance

namespace BigEndian

/-- The number that a byte string stands for. -/
def decode : List UInt8 → Nat
  | [] => 0
  | b :: bs => b.toNat * 256 ^ bs.length + decode bs

/-- The last `w` bytes of a number. -/
def encode : Nat → Nat → List UInt8
  | 0, _ => []
  | w + 1, n => UInt8.ofNat (n / 256 ^ w) :: encode w n

@[simp] lemma length_encode (w n : Nat) : (encode w n).length = w := by
  induction w with
  | zero => rfl
  | succ w ih => rw [encode, List.length_cons, ih]

lemma decode_lt (bs : List UInt8) : decode bs < 256 ^ bs.length := by
  induction bs with
  | nil => exact Nat.one_pos
  | cons b bs ih =>
    have hb : b.toNat + 1 ≤ 256 := b.toNat_lt
    calc decode (b :: bs) < b.toNat * 256 ^ bs.length + 256 ^ bs.length := by
          rw [decode]
          omega
      _ = (b.toNat + 1) * 256 ^ bs.length := by ring
      _ ≤ 256 * 256 ^ bs.length := Nat.mul_le_mul_right _ hb
      _ = 256 ^ (b :: bs).length := by
        rw [List.length_cons, pow_succ, Nat.mul_comm]

lemma decode_append (as bs : List UInt8) :
    decode (as ++ bs) = decode as * 256 ^ bs.length + decode bs := by
  induction as with
  | nil => simp [decode]
  | cons a as ih =>
    rw [List.cons_append, decode, decode, ih, List.length_append, pow_add]
    ring

lemma decode_encode {w n : Nat} (h : n < 256 ^ w) : decode (encode w n) = n := by
  have any : ∀ w, decode (encode w n) = n % 256 ^ w := by
    intro w
    induction w with
    | zero => simp [encode, decode, Nat.mod_one]
    | succ w ih =>
      rw [encode, decode, ih, length_encode, UInt8.toNat_ofNat', pow_succ 256 w,
        Nat.mod_mul (x := n) (a := 256 ^ w) (b := 256), Nat.add_comm, Nat.mul_comm]
  rw [any, Nat.mod_eq_of_lt h]

/-- Among byte strings of one length the lexicographic order is the order of the numbers. -/
theorem lt_iff_decode_lt {as bs : List UInt8} (h : as.length = bs.length) :
    as < bs ↔ decode as < decode bs := by
  induction as generalizing bs with
  | nil =>
    obtain rfl : bs = [] := List.length_eq_zero_iff.mp h.symm
    simp
  | cons a as ih =>
    cases bs with
    | nil => cases h
    | cons b bs =>
      have h' : as.length = bs.length := Nat.succ.inj h
      have ha := decode_lt as
      have hb := decode_lt bs
      rw [List.cons_lt_cons_iff, ih h', decode, decode, h', UInt8.lt_iff_toNat_lt]
      rw [h'] at ha
      constructor
      · rintro (lt | ⟨rfl, lt⟩)
        · have := Nat.mul_le_mul_right (256 ^ bs.length) (Nat.succ_le_of_lt lt)
          rw [Nat.succ_mul] at this
          omega
        · omega
      · intro lt
        rcases Nat.lt_trichotomy a.toNat b.toNat with less | same | more
        · exact .inl less
        · rw [same] at lt
          exact .inr ⟨UInt8.toNat_inj.mp same, by omega⟩
        · have := Nat.mul_le_mul_right (256 ^ bs.length) (Nat.succ_le_of_lt more)
          rw [Nat.succ_mul] at this
          omega

end BigEndian
