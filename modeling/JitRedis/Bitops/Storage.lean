import JitRedis.Bitops.Model
import JitRedis.Lib.BitString
import Mathlib.Data.Nat.Bitwise

/-!
# Fields of a bit string are read back

Writing a field of `bits` bits changes these bits only, and reading it gives what was written, except for negative
fields of 64 bits: the sign is extended by a shift of 64, which a 64 bit machine takes for a shift of 0.
-/

namespace JitRedis.Bitops

open BitString Fallible List

/-- The value of a field whose bits stand for `w`. -/
def fieldValue (sign : Bool) (bits w : Nat) : Int := if sign ∧ 2 ^ (bits - 1) ≤ w then w - 2 ^ bits else w

def fieldMin (sign : Bool) (bits : Nat) : Int := if sign then -2 ^ (bits - 1) else 0

def fieldMax (sign : Bool) (bits : Nat) : Int := if sign then 2 ^ (bits - 1) - 1 else 2 ^ bits - 1

def FieldFits (sign : Bool) (bits : Nat) (value : Int) : Prop := fieldMin sign bits ≤ value ∧ value ≤ fieldMax sign bits

def setBitfield (sign : Bool) (p : Bytes) (offset bits : Nat) (value : Int) : Except Fault Bytes :=
  if sign then setSignedBitfield p offset bits (Int64.ofInt value)
  else setUnsignedBitfield p offset bits (UInt64.ofNat value.toNat)

def getBitfield (sign : Bool) (p : Bytes) (offset bits : Nat) : Except Fault Int :=
  if sign then Int64.toInt <$> getSignedBitfield p offset bits
  else (fun value : UInt64 => (value.toNat : Int)) <$> getUnsignedBitfield p offset bits

/-- The widths that a type has. -/
structure Width (sign : Bool) (bits : Nat) : Prop where
  pos : 1 ≤ bits
  le : bits ≤ 64
  unsigned : sign = false → bits ≤ 63

variable {sign : Bool} {p : Bytes} {offset bits n : Nat} {value : Int}

lemma Width.of_type {arg : Bytes} (h : getBitfieldTypeFromArgument arg = .ok (sign, bits)) : Width sign bits := by
  simp only [getBitfieldTypeFromArgument] at h
  split at h
  · split at h
    · cases h
    split at h
    · cases h
    rename_i ok
    cases h
    refine ⟨by omega, ?_, ?_⟩
    · by_contra hbits
      cases hsign : decide (arg.head? = some 105) with
      | true => exact ok (Or.inr (Or.inl ⟨hsign, by omega⟩))
      | false => exact ok (Or.inr (Or.inr ⟨hsign, by omega⟩))
    · intro hsign
      by_contra hbits
      exact ok (Or.inr (Or.inr ⟨hsign, by omega⟩))
  · cases h

/-! ## Single bits -/

lemma toNat_shl (v : UInt64) (hn : n < 64) : (shl v n).toNat = v.toNat * 2 ^ n % 2 ^ 64 := by
  rw [shl, UInt64.toNat_shiftLeft, UInt64.toNat_ofNat_of_lt' (by simp [UInt64.size]; omega), Nat.mod_eq_of_lt hn,
    Nat.shiftLeft_eq]

lemma toNat_shl_one (hn : n < 64) : (shl 1 n).toNat = 2 ^ n := by
  rw [toNat_shl 1 hn, UInt64.toNat_one, one_mul, Nat.mod_eq_of_lt (Nat.pow_lt_pow_right Nat.one_lt_two hn)]

lemma and_shl_one_ne_zero (v : UInt64) (hn : n < 64) : v &&& shl 1 n ≠ 0 ↔ v.toNat.testBit n = true := by
  rw [ne_eq, ← UInt64.toNat_inj, UInt64.toNat_and, toNat_shl_one hn, Nat.and_two_pow]
  cases v.toNat.testBit n with
  | false => simp
  | true => simp

lemma testBit_putBit (b : UInt8) {k j : Nat} (hk : k < 8) (hj : j < 8) (v : Bool) :
    ((b.toUInt64 &&& ~~~shl 1 k) ||| shl (if v then 1 else 0) k).toUInt8.toNat.testBit j =
      if j = k then v else b.toNat.testBit j := by
  have hv : (shl (if v then 1 else 0) k).toNat.testBit j = (decide (j = k) && v) := by
    cases v with
    | true => simp [toNat_shl_one (by omega : k < 64), Nat.testBit_two_pow, eq_comm]
    | false => simp [toNat_shl _ (by omega : k < 64)]
  have hlt : 2 ^ k < 2 ^ 64 := Nat.pow_lt_pow_right Nat.one_lt_two (by omega)
  rw [UInt64.toNat_toUInt8, Nat.testBit_mod_two_pow, UInt64.toNat_or, Nat.testBit_or, hv, UInt64.toNat_and,
    Nat.testBit_and, UInt64.toNat_not, toNat_shl_one (by omega),
    show UInt64.size - 1 - 2 ^ k = 2 ^ 64 - (2 ^ k + 1) by simp [UInt64.size], Nat.testBit_two_pow_sub_succ hlt]
  by_cases h : j = k
  · simp [h, hk]
  · simp [h, hj, Ne.symm h]
    omega

lemma byteAt_of_lt {i : Nat} (h : i < p.length) : byteAt p i = .ok (p.getD i 0) := by
  rw [byteAt, Memory.byte, getD_eq_getElem?_getD, getElem?_eq_getElem h, Option.getD_some]

/-! ## Windows -/

lemma setUnsignedBitfield_bit (v : UInt64) (hn : n ≤ 64) (room : offset + n ≤ 8 * p.length) :
    ∃ p', setUnsignedBitfield p offset n v = .ok p' ∧ p'.length = p.length ∧
      ∀ i, bit p' i = if offset ≤ i ∧ i < offset + n then v.toNat.testBit (offset + n - 1 - i) else bit p i := by
  induction n generalizing p offset with
  | zero =>
    refine ⟨p, rfl, rfl, fun i => ?_⟩
    rw [if_neg (by omega)]
  | succ n ih =>
    have hbyte : offset / 8 < p.length := by omega
    rw [setUnsignedBitfield, byteAt_of_lt hbyte, ok_bind]
    dsimp only
    generalize hb : UInt64.toUInt8 _ = b
    obtain ⟨p', hset, hlen, hbits⟩ := @ih (p.set (offset / 8) b) (offset + 1) (by omega)
      (by rw [length_set]; omega)
    refine ⟨p', hset, by rw [hlen, length_set], fun i => ?_⟩
    rw [hbits]
    by_cases hfield : offset + 1 ≤ i ∧ i < offset + 1 + n
    · rw [if_pos hfield, if_pos (by omega)]
      congr 1
      omega
    rw [if_neg hfield, bit_set hbyte]
    have hput := testBit_putBit (p.getD (offset / 8) 0) (k := 7 - offset % 8) (j := 7 - i % 8) (by omega) (by omega)
      (v.toNat.testBit n)
    simp only [← hb, and_shl_one_ne_zero v (by omega : n < 64), hput]
    by_cases hi : i = offset
    · subst hi
      rw [if_pos rfl, if_pos rfl, if_pos (by omega)]
      congr 1
      omega
    · rw [if_neg (by omega : ¬(offset ≤ i ∧ i < offset + (n + 1)))]
      by_cases hsame : i / 8 = offset / 8
      · rw [if_pos hsame, if_neg (by omega), bit, hsame]
      · rw [if_neg hsame]

lemma getUnsignedBitfieldLoop_eq (v : UInt64) (room : offset + n ≤ 8 * p.length) :
    ∃ r, getUnsignedBitfieldLoop p offset n v = .ok r ∧
      r.toNat = (v.toNat * 2 ^ n + window (bit p) offset n) % 2 ^ 64 := by
  induction n generalizing offset v with
  | zero =>
    refine ⟨v, rfl, ?_⟩
    rw [window, pow_zero, mul_one, add_zero, Nat.mod_eq_of_lt v.toNat_lt]
  | succ n ih =>
    rw [getUnsignedBitfieldLoop, byteAt_of_lt (by omega)]
    obtain ⟨r, hr, hval⟩ := @ih (offset + 1) _ (by omega)
    refine ⟨r, hr, ?_⟩
    have hbit : ((p.getD (offset / 8) 0).toUInt64 >>> UInt64.ofNat (7 - offset % 8) &&& 1).toNat =
        (bit p offset).toNat := by
      rw [UInt64.toNat_and, UInt64.toNat_shiftRight, UInt8.toNat_toUInt64,
        UInt64.toNat_ofNat_of_lt' (by simp [UInt64.size]; omega), Nat.mod_eq_of_lt (by omega : 7 - offset % 8 < 64),
        UInt64.toNat_one, Nat.and_one_is_mod, bit, Nat.toNat_testBit, Nat.shiftRight_eq_div_pow]
    have hor : (shl v 1 ||| (p.getD (offset / 8) 0).toUInt64 >>> UInt64.ofNat (7 - offset % 8) &&& 1).toNat =
        (v.toNat * 2 + (bit p offset).toNat) % 2 ^ 64 := by
      have hlt := (bit p offset).toNat_lt
      have heven : v.toNat * 2 % 2 ^ 64 = 2 ^ 1 * (v.toNat % 2 ^ 63) := by omega
      rw [UInt64.toNat_or, toNat_shl v (by omega), pow_one, heven, ← Nat.two_pow_add_eq_or_of_lt (by omega)]
      omega
    rw [hval, hor, window_succ_left, ← add_assoc, pow_succ' 2 n, ← mul_assoc, ← add_mul]
    exact ((Nat.mod_modEq _ _).mul_right _).add_right _

lemma getUnsignedBitfield_eq (hn : n ≤ 64) (room : offset + n ≤ 8 * p.length) :
    getUnsignedBitfield p offset n = .ok (UInt64.ofNat (window (bit p) offset n)) := by
  obtain ⟨r, hr, hval⟩ := getUnsignedBitfieldLoop_eq 0 room
  rw [getUnsignedBitfield, hr, ← UInt64.ofNat_toNat (x := r), hval, UInt64.toNat_zero, zero_mul, zero_add,
    Nat.mod_eq_of_lt ((window_lt _ _ _).trans_le (Nat.pow_le_pow_right two_pos hn))]

/-! ## Signs -/

lemma toInt_toInt64 (v : UInt64) : v.toInt64.toInt = (v.toNat : Int).bmod (2 ^ 64) :=
  BitVec.toInt_eq_toNat_bmod v.toBitVec

lemma toNat_ofNat_of_lt {w : Nat} (hn : n ≤ 64) (hw : w < 2 ^ n) : (UInt64.ofNat w).toNat = w :=
  UInt64.toNat_ofNat_of_lt' (hw.trans_le (Nat.pow_le_pow_right two_pos hn))

lemma toNat_shl_neg (hn : n < 64) : (shl (-1) n).toNat = 2 ^ 64 - 2 ^ n := by
  have hle : 2 ^ n ≤ 2 ^ 64 := Nat.pow_le_pow_right two_pos hn.le
  have hpos : 0 < 2 ^ n := Nat.two_pow_pos n
  have hsplit : (2 ^ 64 - 1) * 2 ^ n = (2 ^ 64 - 2 ^ n) + 2 ^ 64 * (2 ^ n - 1) := by
    zify [hle, hpos]
    ring
  rw [toNat_shl _ hn, show (-1 : UInt64).toNat = 2 ^ 64 - 1 from rfl, hsplit, Nat.add_mul_mod_self_left,
    Nat.mod_eq_of_lt (by omega)]

lemma or_mask {w : Nat} (hn : n < 64) (hw : w < 2 ^ 64) : w ||| (2 ^ 64 - 2 ^ n) = w % 2 ^ n + (2 ^ 64 - 2 ^ n) := by
  have hpow : 2 ^ n * 2 ^ (64 - n) = 2 ^ 64 := by
    rw [← pow_add]
    congr 1
    omega
  have hmask : 2 ^ 64 - 2 ^ n = 2 ^ n * (2 ^ (64 - n) - 1) := by rw [Nat.mul_sub_one, hpow]
  rw [hmask, add_comm, Nat.two_pow_add_eq_or_of_lt (Nat.mod_lt w (Nat.two_pow_pos n)), Nat.or_comm]
  apply Nat.eq_of_testBit_eq
  intro i
  simp only [Nat.testBit_or, Nat.testBit_two_pow_mul, Nat.testBit_two_pow_sub_one, Nat.testBit_mod_two_pow]
  by_cases hi : i < n
  · simp [hi]
  · by_cases hi' : i < 64
    · simp [hi, show n ≤ i by omega, show i - n < 64 - n by omega]
    · have hlt : 2 ^ 64 ≤ 2 ^ i := Nat.pow_le_pow_right two_pos (by omega)
      simp [hi, show ¬(i - n < 64 - n) by omega, Nat.testBit_lt_two_pow (show w < 2 ^ i by omega)]

lemma testBit_top {w : Nat} (pos : 1 ≤ n) (hw : w < 2 ^ n) : w.testBit (n - 1) = true ↔ 2 ^ (n - 1) ≤ w := by
  obtain ⟨n, rfl⟩ := Nat.exists_eq_add_of_le' pos
  rw [Nat.add_sub_cancel, Nat.testBit_eq_decide_div_mod_eq, decide_eq_true_eq]
  have hdiv : w / 2 ^ n < 2 := Nat.div_lt_of_lt_mul (by omega)
  have hone : 1 ≤ w / 2 ^ n ↔ 2 ^ n ≤ w := by rw [Nat.le_div_iff_mul_le (Nat.two_pow_pos n), one_mul]
  generalize w / 2 ^ n = top at hdiv hone
  omega

lemma toInt_of_lt {c : UInt64} (h : c.toNat < 2 ^ 63) : c.toInt64.toInt = c.toNat := by
  rw [toInt_toInt64]
  exact Int.bmod_eq_of_le_mul_two (by omega) (by omega)

lemma toInt_or_mask (pos : 1 ≤ n) (hn : n < 64) {c : UInt64} (hneg : 2 ^ (n - 1) ≤ c.toNat % 2 ^ n) :
    (c ||| shl (-1) n).toInt64.toInt = (c.toNat % 2 ^ n : Nat) - 2 ^ n := by
  have hle : 2 ^ n ≤ 2 ^ 63 := Nat.pow_le_pow_right two_pos (by omega)
  have hdouble : 2 ^ n = 2 * 2 ^ (n - 1) := by rw [← pow_succ', Nat.sub_add_cancel pos]
  have hcast : (2 : Int) ^ n = (2 ^ n : Nat) := by norm_cast
  have hlt := Nat.mod_lt c.toNat (Nat.two_pow_pos n)
  rw [toInt_toInt64, UInt64.toNat_or, toNat_shl_neg hn, or_mask hn c.toNat_lt, Nat.cast_add,
    Nat.cast_sub (hle.trans (by norm_num)), Int.bmod_def]
  generalize c.toNat % 2 ^ n = w at hneg hlt
  split
  · omega
  · omega

lemma getSignedBitfield_eq (pos : 1 ≤ n) (hn : n ≤ 64) (room : offset + n ≤ 8 * p.length) :
    Int64.toInt <$> getSignedBitfield p offset n =
      .ok (if n = 64 then max (-1) (fieldValue true n (window (bit p) offset n))
        else fieldValue true n (window (bit p) offset n)) := by
  rw [getSignedBitfield, getUnsignedBitfield_eq hn room, ok_bind]
  have hw := window_lt (bit p) offset n
  generalize window (bit p) offset n = w at hw
  have hdouble : 2 ^ n = 2 * 2 ^ (n - 1) := by rw [← pow_succ', Nat.sub_add_cancel pos]
  have hle : 2 ^ n ≤ 2 ^ 64 := Nat.pow_le_pow_right two_pos hn
  have htop := (and_shl_one_ne_zero (UInt64.ofNat w) (by omega : n - 1 < 64)).trans
    (by rw [toNat_ofNat_of_lt hn hw, testBit_top pos hw])
  by_cases hneg : 2 ^ (n - 1) ≤ w
  · have hfield : fieldValue true n w = w - 2 ^ n := if_pos ⟨rfl, hneg⟩
    rw [if_pos (htop.mpr hneg), hfield]
    by_cases h64 : n = 64
    · subst h64
      have hones : UInt64.ofNat w ||| shl (-1) 64 = -1 := UInt64.or_neg_one
      rw [hones, max_eq_left (by omega)]
      rfl
    have hval := toInt_or_mask pos (by omega : n < 64) (c := UInt64.ofNat w)
      (by rwa [toNat_ofNat_of_lt hn hw, Nat.mod_eq_of_lt hw])
    rw [toNat_ofNat_of_lt hn hw, Nat.mod_eq_of_lt hw] at hval
    rw [if_neg h64]
    exact congrArg Except.ok hval
  · have hfield : fieldValue true n w = w := if_neg fun h => hneg h.2
    have hval := toInt_of_lt (c := UInt64.ofNat w) (by rw [toNat_ofNat_of_lt hn hw]; omega)
    rw [toNat_ofNat_of_lt hn hw] at hval
    rw [if_neg (mt htop.mp hneg), hfield, max_eq_right (by omega), ite_self]
    exact congrArg Except.ok hval

lemma getBitfield_eq (h : Width sign n) (room : offset + n ≤ 8 * p.length) :
    getBitfield sign p offset n =
      .ok (if sign ∧ n = 64 then max (-1) (fieldValue sign n (window (bit p) offset n))
        else fieldValue sign n (window (bit p) offset n)) := by
  cases sign with
  | true => simpa [getBitfield] using getSignedBitfield_eq h.pos h.le room
  | false =>
    rw [getBitfield, getUnsignedBitfield_eq h.le room]
    simp [fieldValue, toNat_ofNat_of_lt h.le (window_lt _ _ _)]

lemma two_pow_pred (pos : 1 ≤ n) :
    (2 : Int) ^ n = 2 * 2 ^ (n - 1) ∧ ((2 ^ (n - 1) : Nat) : Int) = 2 ^ (n - 1) ∧ (0 : Int) < 2 ^ (n - 1) :=
  ⟨by rw [← pow_succ', Nat.sub_add_cancel pos], by norm_cast, by positivity⟩

lemma fieldValue_eq {w : Nat} (pos : 1 ≤ n) (fits : FieldFits sign n value) (hw : (w : Int) = value % 2 ^ n) :
    fieldValue sign n w = value := by
  obtain ⟨hdouble, hcast, hpos⟩ := two_pow_pred pos
  obtain ⟨low, high⟩ := fits
  cases sign with
  | false =>
    simp only [fieldMin, fieldMax, Bool.false_eq_true, if_false] at low high
    rw [Int.emod_eq_of_lt low (by omega)] at hw
    exact (if_neg (by simp)).trans hw
  | true =>
    simp only [fieldMin, fieldMax, if_true] at low high
    by_cases hneg : value < 0
    · rw [Int.emod_eq_add_self_emod, Int.emod_eq_of_lt (by omega) (by omega)] at hw
      rw [fieldValue, if_pos ⟨rfl, by omega⟩, hw, add_sub_cancel_right]
    · rw [Int.emod_eq_of_lt (by omega) (by omega)] at hw
      rw [fieldValue, if_neg fun h => by omega, hw]

lemma setBitfield_window (h : Width sign n) (fits : FieldFits sign n value) (room : offset + n ≤ 8 * p.length) :
    ∃ p', setBitfield sign p offset n value = .ok p' ∧ p'.length = p.length ∧
      fieldValue sign n (window (bit p') offset n) = value ∧
      ∀ i, ¬(offset ≤ i ∧ i < offset + n) → bit p' i = bit p i := by
  obtain ⟨v, hset, hv⟩ : ∃ v, setBitfield sign p offset n value = setUnsignedBitfield p offset n v ∧
      ((v.toNat % 2 ^ n : Nat) : Int) = value % 2 ^ n := by
    cases sign with
    | true =>
      refine ⟨_, if_pos rfl, ?_⟩
      have hv : ((Int64.ofInt value).toUInt64.toNat : Int) = value % 2 ^ 64 :=
        (congrArg _ (BitVec.toNat_ofInt value)).trans (Int.toNat_of_nonneg (Int.emod_nonneg _ (by norm_num)))
      rw [Int.natCast_mod, hv, Nat.cast_pow, Nat.cast_ofNat, Int.emod_emod_of_dvd _ (pow_dvd_pow 2 h.le)]
    | false =>
      refine ⟨_, if_neg Bool.false_ne_true, ?_⟩
      obtain ⟨low, high⟩ := fits
      simp only [fieldMin, fieldMax, Bool.false_eq_true, if_false] at low high
      have hlt : value.toNat < 2 ^ n := by
        zify
        omega
      rw [toNat_ofNat_of_lt h.le hlt, Int.natCast_mod, Int.toNat_of_nonneg low, Nat.cast_pow, Nat.cast_ofNat]
  obtain ⟨p', hp', hlen, hbits⟩ := setUnsignedBitfield_bit v h.le room
  refine ⟨p', hset.trans hp', hlen, ?_, fun i hi => by rw [hbits, if_neg hi]⟩
  have hwindow : window (bit p') offset n = v.toNat % 2 ^ n := by
    apply window_eq (Nat.mod_lt _ (Nat.two_pow_pos n))
    intro k hk
    rw [hbits, if_pos (by omega), Nat.testBit_mod_two_pow, decide_eq_true hk]
    congr 1
    omega
  exact fieldValue_eq h.pos fits (hwindow ▸ hv)

/-! ## The command -/

/-- Writing a value makes the getter return it, and keeps the bits of the other fields. -/
def RoundTrips (sign : Bool) (p : Bytes) (offset bits : Nat) (value : Int) : Prop :=
  ∃ p', setBitfield sign p offset bits value = .ok p' ∧ getBitfield sign p' offset bits = .ok value ∧
    p'.length = p.length ∧ ∀ i, ¬(offset ≤ i ∧ i < offset + bits) → bit p' i = bit p i

/-- The fields whose sign is extended by a shift of their whole width. -/
def Shifted (sign : Bool) (bits : Nat) (value : Int) : Prop := sign = true ∧ bits = 64 ∧ value < -1

lemma read_eq_iff : (if sign ∧ n = 64 then max (-1) value else value) = value ↔ ¬Shifted sign n value := by
  rw [Shifted]
  split
  · rename_i h
    simp [h]
  · tauto

lemma roundTrips_iff (h : Width sign n) (fits : FieldFits sign n value) (room : offset + n ≤ 8 * p.length) :
    RoundTrips sign p offset n value ↔ ¬Shifted sign n value := by
  obtain ⟨p', hset, hlen, hval, hrest⟩ := setBitfield_window h fits room
  have hget := getBitfield_eq h (hlen ▸ room)
  rw [hval] at hget
  rw [← read_eq_iff]
  constructor
  · rintro ⟨q, hq, hread, -⟩
    cases hset.symm.trans hq
    exact Except.ok.inj (hget.symm.trans hread)
  · intro heq
    exact ⟨p', hset, heq ▸ hget, hlen, hrest⟩

lemma getD_sdsgrowzero (s : Bytes) (len k : Nat) : (sdsgrowzero s len).getD k 0 = s.getD k 0 := by
  rw [sdsgrowzero, getD_eq_getElem?_getD, getD_eq_getElem?_getD, getElem?_append]
  split
  · rfl
  rw [getElem?_replicate, getElem?_eq_none (l := s) (by omega)]
  split
  · rfl
  · rfl

lemma bit_getBuffer (src : Bytes) (byte : Nat) {i : Nat} (hi : i < 72) :
    bit (getBuffer src byte) i = bit src (8 * byte + i) := by
  rw [bit, bit, getBuffer, getD_sdsgrowzero, getD_eq_getElem?_getD, getElem?_take_of_lt (by omega),
    getElem?_drop, ← getD_eq_getElem?_getD, show (8 * byte + i) / 8 = byte + i / 8 by omega,
    show (8 * byte + i) % 8 = i % 8 by omega]

lemma bitfieldGet_eq (src : Bytes) {op : BitfieldOp} (h : Width op.sign op.bits) :
    bitfieldGet src op = .ok (.longLong
      (if op.sign ∧ op.bits = 64 then max (-1) (fieldValue op.sign op.bits (window (bit src) op.offset op.bits))
        else fieldValue op.sign op.bits (window (bit src) op.offset op.bits))) := by
  have hle := h.le
  have hlen : (getBuffer src (op.offset / 8)).length = 9 := by
    rw [getBuffer, sdsgrowzero, length_append, length_replicate, length_take]
    omega
  have hroom : op.offset - op.offset / 8 * 8 + op.bits ≤ 8 * (getBuffer src (op.offset / 8)).length := by omega
  have hwindow : window (bit (getBuffer src (op.offset / 8))) (op.offset - op.offset / 8 * 8) op.bits =
      window (bit src) op.offset op.bits := by
    apply window_congr
    intro k hk
    rw [bit_getBuffer src _ (by omega)]
    congr 1
    omega
  have hget := getBitfield_eq h hroom
  rw [hwindow] at hget
  rw [bitfieldGet]
  cases hsign : op.sign with
  | true =>
    rw [hsign] at hget
    rw [getBitfield] at hget
    rw [if_pos rfl]
    cases hval : getSignedBitfield (getBuffer src (op.offset / 8)) (op.offset - op.offset / 8 * 8) op.bits with
    | error e =>
      rw [hval] at hget
      cases hget
    | ok val =>
      rw [hval] at hget
      rw [ok_bind, ← Except.ok.inj hget]
  | false =>
    have hlt := window_lt (bit src) op.offset op.bits
    have hpow : 2 ^ op.bits ≤ 2 ^ 63 := Nat.pow_le_pow_right two_pos (h.unsigned hsign)
    have hnat := toNat_ofNat_of_lt hle hlt
    rw [getUnsignedBitfield_eq hle hroom, ok_bind, hwindow, toInt_of_lt (by omega), hnat]
    simp [fieldValue]

/-- Fields are read back at every width that `BITFIELD` accepts, and its `GET` reads them from the string followed by
zeros, but for negative fields of 64 bits other than -1. -/
theorem bitfield_roundTrips_iff {arg : Bytes} (accepted : getBitfieldTypeFromArgument arg = .ok (sign, bits)) :
    (∀ p offset value, offset + bits ≤ 8 * p.length → FieldFits sign bits value →
      (RoundTrips sign p offset bits value ↔ ¬Shifted sign bits value)) ∧
    ∀ junk src op, op.opcode = .get → op.sign = sign → op.bits = bits →
      (bitfieldExec junk src op =
          .ok (src, .longLong (fieldValue sign bits (window (bit src) op.offset bits))) ↔
        ¬Shifted sign bits (fieldValue sign bits (window (bit src) op.offset bits))) := by
  have h := Width.of_type accepted
  refine ⟨fun p offset value room fits => roundTrips_iff h fits room, fun junk src op hop hsign hbits => ?_⟩
  subst hsign hbits
  rw [bitfieldExec, if_pos hop, bitfieldGet_eq src h, ok_bind, ← read_eq_iff]
  constructor
  · intro heq
    exact ReplyItem.longLong.inj (Prod.mk.inj (Except.ok.inj heq)).2
  · intro heq
    rw [heq]

/-- A field of 8 bits across two bytes. -/
theorem bitfield_roundTrips_i8 :
    getBitfieldTypeFromArgument (ascii "i8") = .ok (true, 8) ∧ RoundTrips true [0, 255] 3 8 (-2) :=
  ⟨by decide, ((@bitfield_roundTrips_iff true 8 (ascii "i8") (by decide)).1 [0, 255] 3 (-2) (by decide)
    ⟨by decide, by decide⟩).mpr fun h => absurd h.2.1 (by decide)⟩

/-- `BITFIELD key SET i64 0 -2 GET i64 0` reads -1. -/
theorem getSignedBitfield_forgets :
    getBitfieldTypeFromArgument (ascii "i64") = .ok (true, 64) ∧ FieldFits true 64 (-2) ∧
    setBitfield true [0, 0, 0, 0, 0, 0, 0, 0] 0 64 (-2) = .ok [255, 255, 255, 255, 255, 255, 255, 254] ∧
    getBitfield true [255, 255, 255, 255, 255, 255, 255, 254] 0 64 = .ok (-1) ∧
    bitfieldExec 0 [255, 255, 255, 255, 255, 255, 255, 254] ⟨0, 0, .get, .wrap, 64, true⟩ =
      .ok ([255, 255, 255, 255, 255, 255, 255, 254], .longLong (-1)) :=
  ⟨by decide, ⟨by decide, by decide⟩, by decide +kernel, by decide +kernel, by decide +kernel⟩

variable {s : Bytes} {op : BitfieldOp} {ops : List BitfieldOp}

def BitfieldOp.Writes (op : BitfieldOp) (i : Nat) : Prop := op.opcode ≠ .get ∧ op.offset ≤ i ∧ i < op.offset + op.bits

/-- The width was accepted, and what is written is in the string. -/
def BitfieldOp.Within (op : BitfieldOp) (s : Bytes) : Prop :=
  Width op.sign op.bits ∧ (op.opcode ≠ .get → op.offset + op.bits ≤ 8 * s.length)

/-- The length of the string is kept, and so are the bits that no operation writes. -/
def Keeps (ops : List BitfieldOp) (s s' : Bytes) : Prop :=
  s'.length = s.length ∧ ∀ i, (∀ op ∈ ops, ¬op.Writes i) → bit s' i = bit s i

lemma keeps_refl : Keeps ops s s := ⟨rfl, fun _ _ => rfl⟩

lemma store_keeps {failed : Prop} [Decidable failed] {v : UInt64} {null item : ReplyItem} (hop : op.opcode ≠ .get)
    (h : op.Within s) : Sat NoFault (fun r => Keeps [op] s r.1) (if failed then .ok (s, null) else do
      let s ← setUnsignedBitfield s op.offset op.bits v
      .ok (s, item)) := by
  split
  · exact keeps_refl
  · obtain ⟨s', hset, hlen, hbits⟩ := setUnsignedBitfield_bit v h.1.le (h.2 hop)
    rw [hset]
    refine ⟨hlen, fun i hi => ?_⟩
    rw [hbits, if_neg fun hin => hi op mem_cons_self ⟨hop, hin⟩]

lemma bitfieldExec_keeps (junk : UInt64) (h : op.Within s) :
    Sat NoFault (fun r => Keeps [op] s r.1) (bitfieldExec junk s op) := by
  rw [bitfieldExec]
  split
  · rw [bitfieldGet_eq s h.1]
    exact keeps_refl
  rename_i hop
  have hget := getUnsignedBitfield_eq h.1.le (h.2 hop)
  split
  · rw [bitfieldWriteSigned, getSignedBitfield, hget, ok_bind]
    refine Sat.bind (P := fun _ => True) (by split <;> trivial) fun oldval _ => ?_
    dsimp only
    split <;> exact store_keeps hop h
  · rw [bitfieldWriteUnsigned, hget, ok_bind]
    dsimp only
    split <;> exact store_keeps hop h

lemma bitfieldRun_keeps (junk : UInt64) (h : ∀ op ∈ ops, op.Within s) :
    Sat NoFault (fun r => Keeps ops s r.1 ∧ r.2.length = ops.length) (bitfieldRun junk s ops) := by
  induction ops generalizing s with
  | nil => exact ⟨keeps_refl, rfl⟩
  | cons op ops ih =>
    obtain ⟨hop, hops⟩ := forall_mem_cons.mp h
    refine (bitfieldExec_keeps junk hop).bind fun ⟨s', item⟩ ⟨hlen, hbits⟩ => ?_
    refine (ih fun op' h' => ⟨(hops op' h').1, hlen ▸ (hops op' h').2⟩).bind fun ⟨s'', reply⟩ ⟨⟨hlen', hbits'⟩, hn⟩ => ?_
    refine ⟨⟨hlen'.trans hlen, fun i hi => ?_⟩, congrArg (· + 1) hn⟩
    obtain ⟨hi, his⟩ := forall_mem_cons.mp hi
    exact (hbits' i his).trans (hbits i (by simpa using hi))

lemma bitfieldOp_width {opcode owtype type offset amount}
    (h : bitfieldOp opcode owtype type offset amount = .ok op) : Width op.sign op.bits := by
  obtain ⟨⟨sign, bits⟩, htype, h⟩ := bind_eq_ok.mp h
  obtain ⟨k, -, h⟩ := bind_eq_ok.mp h
  cases amount
  all_goals
    obtain ⟨_, -, h⟩ := bind_eq_ok.mp h
    cases h
    exact Width.of_type htype

lemma bitfieldOps_width {args owtype} (h : bitfieldOps args owtype = .ok ops) : ∀ op ∈ ops, Width op.sign op.bits := by
  fun_induction bitfieldOps args owtype generalizing ops with
  | case1 =>
    cases h
    simp
  | case4 | case5 =>
    rename_i ih
    obtain ⟨op, hop, h⟩ := bind_eq_ok.mp h
    obtain ⟨ops, hops, h⟩ := bind_eq_ok.mp h
    cases h
    exact forall_mem_cons.mpr ⟨bitfieldOp_width hop, ih hops⟩
  | case7 | case8 | case9 =>
    rename_i ih
    exact ih h
  | _ => cases h

lemma le_highestWriteOffset (hop : op ∈ ops) (hset : op.opcode ≠ .get) :
    op.offset + op.bits ≤ highestWriteOffset ops + 1 := by
  induction ops using reverseRecOn with
  | nil => cases hop
  | append_singleton ops op' ih =>
    rw [highestWriteOffset, foldl_append, ← highestWriteOffset, foldl_cons, foldl_nil]
    rcases mem_append.mp hop with hop | hop
    · have := ih hop
      split <;> omega
    · obtain rfl := mem_singleton.mp hop
      simp only [hset, ne_eq, not_false_eq_true, true_and]
      split <;> omega

/-- The string of a key, empty if there is no key. -/
def stringAt (db : Db) (key : Bytes) : Bytes :=
  match db key with
  | some (.string s) => s
  | _ => []

lemma lookupStringForBitCommand_spec (db : Db) (key : Bytes) (maxbit : Nat) :
    Sat (fun err => db key = some .other ∧ err = wrongtypeerr) (· = sdsgrowzero (stringAt db key) (maxbit / 8 + 1))
      (lookupStringForBitCommand db key maxbit) := by
  rw [lookupStringForBitCommand, stringAt]
  rcases db key with _ | _ | _ <;> simp [sdsgrowzero]

/-- One reply for each operation; the string may get zeros at its end, and only bits that are written change. -/
structure Served (db : Db) (key : Bytes) (ops : List BitfieldOp) (db' : Db) (reply : Reply) : Prop where
  replies : ∃ items, reply = .multiBulkLen ops.length :: items ∧ items.length = ops.length
  others : ∀ k ≠ key, db' k = db k
  kept : ∃ n, Keeps ops (sdsgrowzero (stringAt db key) n) (stringAt db' key)

/-- `BITFIELD` always returns: no operation reads or writes outside of the string. What is refused changes nothing. -/
theorem bitfieldCommand_served (junk : UInt64) (db : Db) (key : Bytes) (args : List Bytes) :
    ∃ db' reply, bitfieldCommand junk db key args = .ok (db', reply) ∧
      (db' = db ∧ (bitfieldOps args .wrap = .error reply ∨ db key = some .other ∧ reply = wrongtypeerr) ∨
        ∃ ops, bitfieldOps args .wrap = .ok ops ∧ Served db key ops db' reply) := by
  rw [bitfieldCommand]
  split
  · exact ⟨_, _, rfl, .inl ⟨rfl, .inl ‹_›⟩⟩
  rename_i ops hops
  have hwidth := bitfieldOps_width hops
  split
  · rename_i hall
    have hwithin (s : Bytes) : ∀ op ∈ ops, op.Within s := fun op hop =>
      ⟨hwidth op hop, fun h => absurd (of_decide_eq_true (all_eq_true.mp hall op hop)) h⟩
    split
    · exact ⟨_, _, rfl, .inl ⟨rfl, .inr ⟨‹_›, rfl⟩⟩⟩
    all_goals
      obtain ⟨⟨s, items⟩, hrun, -, hn⟩ := (bitfieldRun_keeps junk (hwithin _)).returns
      rw [hrun]
      exact ⟨db, _, rfl, .inr ⟨ops, hops, ⟨items, rfl, hn⟩, fun _ _ => rfl, 0, by simp [sdsgrowzero, Keeps]⟩⟩
  · have hlookup := lookupStringForBitCommand_spec db key (highestWriteOffset ops)
    split <;> rename_i heq <;> rw [heq] at hlookup
    · exact ⟨_, _, rfl, .inl ⟨rfl, .inr hlookup⟩⟩
    cases hlookup
    have hwithin : ∀ op ∈ ops, op.Within (sdsgrowzero (stringAt db key) (highestWriteOffset ops / 8 + 1)) := by
      refine fun op hop => ⟨hwidth op hop, fun h => ?_⟩
      have := le_highestWriteOffset hop h
      rw [sdsgrowzero, length_append, length_replicate]
      omega
    obtain ⟨⟨s, items⟩, hrun, hkeeps, hn⟩ := (bitfieldRun_keeps junk hwithin).returns
    rw [hrun]
    refine ⟨_, _, rfl, .inr ⟨ops, hops, ⟨items, rfl, hn⟩, fun k hk => Function.update_of_ne hk ..,
      highestWriteOffset ops / 8 + 1, ?_⟩⟩
    simpa [stringAt] using hkeeps

end JitRedis.Bitops
