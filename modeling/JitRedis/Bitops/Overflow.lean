import JitRedis.Bitops.Storage

/-!
# Overflows of bit fields

The checks of `BITFIELD` against the integers: what they report, and what a field saturates or wraps around to. They
fail in two ways. A field of 64 bits is wrapped with a mask that is shifted by 64; and the distance of a value to the
maximum of a field wraps around itself if the value is far below the field, so that it saturates to the maximum. The
product that gives the offset of a numbered field can wrap around as well.
-/

namespace JitRedis.Bitops

open BitString Fallible

variable {sign : Bool} {n : Nat} {value incr : Int} {owtype : Owtype}

def checkBitfieldOverflow (sign : Bool) (value incr : Int) (bits : Nat) (owtype : Owtype) (limit : UInt64) : Int × Int :=
  if sign then
    let r := checkSignedBitfieldOverflow (Int64.ofInt value) (Int64.ofInt incr) bits owtype limit.toInt64
    (r.1, r.2.toInt)
  else
    let r := checkUnsignedBitfieldOverflow (UInt64.ofNat value.toNat) (Int64.ofInt incr) bits owtype limit
    (r.1, r.2.toNat)

/-- What the checks are called with: a stored value and an increment, or the value of a `SET` and no increment. -/
inductive Operands (sign : Bool) (bits : Nat) : Opcode → Int → Int → Prop where
  | incrby {value incr : Int} :
    FieldFits sign bits value → -2 ^ 63 ≤ incr → incr < 2 ^ 63 → Operands sign bits .incrby value incr
  | set {value : Int} :
    sign = true → -2 ^ 63 ≤ value → value < 2 ^ 63 → Operands sign bits .set value 0

/-- The operation of a command with these operands, on a string that holds the field. -/
structure Operation (sign : Bool) (bits : Nat) (value incr : Int) (s : Bytes) (op : BitfieldOp) : Prop where
  signed : op.sign = sign
  width : op.bits = bits
  room : op.offset + bits ≤ 8 * s.length
  incrby : op.opcode = .incrby → op.i64 = Int64.ofInt incr ∧ getBitfield sign s op.offset bits = .ok value
  set : op.opcode = .set → op.i64 = Int64.ofInt value

/-- The field is handled as the integers have it. -/
structure Exact (sign : Bool) (bits : Nat) (opcode : Opcode) (owtype : Owtype) (value incr : Int) : Prop where
  zero : ∀ limit, (checkBitfieldOverflow sign value incr bits owtype limit).1 = 0 ↔ FieldFits sign bits (value + incr)
  sat : ∀ limit, owtype = .sat → ¬FieldFits sign bits (value + incr) →
    (checkBitfieldOverflow sign value incr bits owtype limit).2 =
      if fieldMax sign bits < value + incr then fieldMax sign bits else fieldMin sign bits
  wrap : ∀ limit, owtype = .wrap → ¬FieldFits sign bits (value + incr) →
    FieldFits sign bits (checkBitfieldOverflow sign value incr bits owtype limit).2 ∧
      (checkBitfieldOverflow sign value incr bits owtype limit).2 ≡ value + incr [ZMOD 2 ^ bits]
  fail : ∀ junk s op, Operation sign bits value incr s op → op.opcode = opcode → op.owtype = .fail → owtype = .fail →
    ¬FieldFits sign bits (value + incr) → bitfieldExec junk s op = .ok (s, .nullBulk)

def Misjudged (sign : Bool) (bits : Nat) (owtype : Owtype) (value incr : Int) : Prop :=
  sign = true ∧
    (bits = 64 ∧ owtype = .wrap ∧ ¬FieldFits true 64 (value + incr) ∧ value + incr ≠ -2 ^ 64 ∨
      bits ≠ 64 ∧ owtype = .sat ∧ value < 2 ^ (bits - 1) - 2 ^ 63)

lemma Width.signed (h : Width sign 64) : sign = true := by
  by_contra hsign
  have := h.unsigned (Bool.eq_false_iff.mpr hsign)
  omega

/-! ## The checks on integers -/

lemma toInt_ofInt (low : -2 ^ 63 ≤ value) (high : value < 2 ^ 63) : (Int64.ofInt value).toInt = value :=
  Int64.toInt_ofInt_of_le low high

lemma toNat_toUInt64_ofInt (value : Int) : ((Int64.ofInt value).toUInt64.toNat : Int) = value % 2 ^ 64 :=
  (congrArg _ (BitVec.toNat_ofInt value)).trans (Int.toNat_of_nonneg (Int.emod_nonneg _ (by norm_num)))

lemma toNat_and_not_mask (c : UInt64) (hn : n < 64) : (c &&& ~~~shl (-1) n).toNat = c.toNat % 2 ^ n := by
  have hle : 2 ^ n ≤ 2 ^ 64 := Nat.pow_le_pow_right two_pos hn.le
  have hmask : UInt64.size - 1 - (2 ^ 64 - 2 ^ n) = 2 ^ n - 1 := by
    simp only [UInt64.size]
    omega
  rw [UInt64.toNat_and, UInt64.toNat_not, toNat_shl_neg hn, hmask, Nat.and_two_pow_sub_one_eq_mod]

lemma fieldFits_fieldValue {w : Nat} (pos : 1 ≤ n) (hw : w < 2 ^ n) : FieldFits sign n (fieldValue sign n w) := by
  obtain ⟨hdouble, hcast, hpos⟩ := two_pow_pred pos
  have hw' : (w : Int) < 2 ^ n := by exact_mod_cast hw
  cases sign with
  | false =>
    simp only [FieldFits, fieldMin, fieldMax, fieldValue, Bool.false_eq_true, if_false, false_and]
    omega
  | true =>
    simp only [FieldFits, fieldMin, fieldMax, fieldValue, if_true, true_and]
    split
    · omega
    · omega

lemma fieldValue_modEq (w : Nat) : fieldValue sign n w ≡ w [ZMOD 2 ^ n] := by
  rw [fieldValue]
  split
  · exact Int.sub_modulus_modEq_iff.mpr (Int.ModEq.refl _)
  · rfl

lemma toNat_add_ofInt (value incr : Int) :
    (((Int64.ofInt value).toUInt64 + (Int64.ofInt incr).toUInt64).toNat : Int) = (value + incr) % 2 ^ 64 := by
  rw [UInt64.toNat_add, Int.natCast_mod, Nat.cast_add, toNat_toUInt64_ofInt, toNat_toUInt64_ofInt]
  exact (Int.add_emod value incr (2 ^ 64)).symm

def wrappedTo (sign : Bool) (bits : Nat) (sum : Int) : Int :=
  if bits = 64 then if 2 ^ 63 ≤ sum % 2 ^ 64 then -1 else 0 else fieldValue sign bits (sum % 2 ^ bits).toNat

lemma toNat_emod (hn : n ≤ 64) {c : UInt64} {sum : Int} (hc : (c.toNat : Int) = sum % 2 ^ 64) :
    c.toNat % 2 ^ n = (sum % 2 ^ n).toNat := by
  zify
  rw [Int.toNat_of_nonneg (Int.emod_nonneg _ (by positivity)), hc, Int.emod_emod_of_dvd _ (pow_dvd_pow 2 hn)]

lemma toNat_wrapUnsigned (hn : n < 64) (low : 0 ≤ value) :
    ((wrapUnsigned (UInt64.ofNat value.toNat) (Int64.ofInt incr) n).toNat : Int) =
      wrappedTo false n (value + incr) := by
  have hvalue : UInt64.ofNat value.toNat = (Int64.ofInt value).toUInt64 := by
    apply UInt64.toNat_inj.mp
    zify
    rw [toNat_toUInt64_ofInt, UInt64.toNat_ofNat', Int.natCast_mod, Int.toNat_of_nonneg low]
    rfl
  rw [wrapUnsigned, hvalue, toNat_and_not_mask _ hn, toNat_emod hn.le (toNat_add_ofInt value incr), wrappedTo,
    if_neg hn.ne]
  simp [fieldValue]

lemma toInt_wrapSigned (pos : 1 ≤ n) (hn : n ≤ 64) (value incr : Int) :
    (wrapSigned (Int64.ofInt value) (Int64.ofInt incr) n).toInt = wrappedTo true n (value + incr) := by
  have hc := toNat_add_ofInt value incr
  rw [wrapSigned]
  generalize (Int64.ofInt value).toUInt64 + (Int64.ofInt incr).toUInt64 = c at hc
  have htop := and_shl_one_ne_zero c (by omega : n - 1 < 64)
  have hlt := c.toNat_lt
  by_cases h64 : n = 64
  · subst h64
    have hneg : c.toNat.testBit (64 - 1) = true ↔ 2 ^ 63 ≤ (value + incr) % 2 ^ 64 := by
      rw [testBit_top pos hlt, ← hc]
      norm_cast
    rw [wrappedTo, if_pos rfl]
    by_cases hneg' : 2 ^ 63 ≤ (value + incr) % 2 ^ 64
    · have hones : c ||| shl (-1) 64 = -1 := UInt64.or_neg_one
      rw [if_pos hneg', if_pos (htop.mpr (hneg.mpr hneg')), hones]
      rfl
    · have hzero : c &&& ~~~shl (-1) 64 = 0 := UInt64.and_zero
      rw [if_neg hneg', if_neg (mt htop.mp (mt hneg.mp hneg')), hzero]
      rfl
  · have hn64 : n < 64 := by omega
    have hw := toNat_emod hn hc
    have hmod := Nat.mod_lt c.toNat (Nat.two_pow_pos n)
    have hneg : c.toNat.testBit (n - 1) = true ↔ 2 ^ (n - 1) ≤ c.toNat % 2 ^ n := by
      rw [← testBit_top pos hmod, Nat.testBit_mod_two_pow, decide_eq_true (by omega : n - 1 < n), Bool.true_and]
    rw [wrappedTo, if_neg h64, ← hw, fieldValue]
    by_cases hneg' : 2 ^ (n - 1) ≤ c.toNat % 2 ^ n
    · rw [if_pos (htop.mpr (hneg.mpr hneg')), if_pos ⟨rfl, hneg'⟩, toInt_or_mask pos hn64 hneg']
    · have hle : 2 ^ (n - 1) ≤ 2 ^ 63 := Nat.pow_le_pow_right two_pos (by omega)
      have hclear := toNat_and_not_mask c hn64
      rw [if_neg (mt htop.mp (mt hneg.mp hneg')), if_neg fun h => hneg' h.2, toInt_of_lt (by omega), hclear]

/-! ## What the checks report -/

lemma overflowResult_map {α β : Type} (f : α → β) (high low : Bool) (owtype : Owtype) (wrapped max min limit : α) :
    ((overflowResult high low owtype wrapped max min limit).1, f (overflowResult high low owtype wrapped max min limit).2) =
      overflowResult high low owtype (f wrapped) (f max) (f min) (f limit) := by
  cases high <;> cases low <;> cases owtype <;> rfl

lemma bmod_cases {x : Int} (low : -2 ^ 64 ≤ x) (high : x < 2 ^ 64) :
    x.bmod (2 ^ 64) = x ∧ -2 ^ 63 ≤ x ∧ x < 2 ^ 63 ∨ x.bmod (2 ^ 64) = x - 2 ^ 64 ∧ 2 ^ 63 ≤ x ∨
      x.bmod (2 ^ 64) = x + 2 ^ 64 ∧ x < -2 ^ 63 := by
  rw [Int.bmod_def]
  split <;> omega

lemma toInt_signedMax (pos : 1 ≤ n) (hn : n ≤ 64) :
    (if n = 64 then Int64.maxValue else (shl 1 (n - 1)).toInt64 - 1).toInt = 2 ^ (n - 1) - 1 := by
  split
  · rename_i h
    subst h
    rfl
  have hle : 2 ^ (n - 1) ≤ 2 ^ 62 := Nat.pow_le_pow_right two_pos (by omega)
  have hcast : ((2 ^ (n - 1) : Nat) : Int) = 2 ^ (n - 1) := by norm_cast
  have hone : (1 : Int64).toInt = 1 := rfl
  have hpow := toNat_shl_one (n := n - 1) (by omega)
  rw [Int64.toInt_sub, toInt_of_lt (by omega), hpow, hcast, hone]
  rcases bmod_cases (x := 2 ^ (n - 1) - 1) (by omega) (by omega) with h | h | h <;> omega

/-- The value is so far below a field that its distance to the maximum wraps around. -/
def Far (sign : Bool) (bits : Nat) (value : Int) : Prop := sign = true ∧ bits ≠ 64 ∧ value < 2 ^ (bits - 1) - 2 ^ 63

instance : Decidable (Far sign n value) := inferInstanceAs (Decidable (_ ∧ _ ∧ _))

/-- What a check reports, and the values that it stores for `SAT` and `WRAP`. -/
def Checks (sign : Bool) (n : Nat) (value incr : Int) : Prop :=
  ∀ owtype limit, ∃ high low, ∃ junk,
    checkBitfieldOverflow sign value incr n owtype limit =
      overflowResult high low owtype (wrappedTo sign n (value + incr)) (fieldMax sign n) (fieldMin sign n) junk ∧
    (high = true ↔ fieldMax sign n < value + incr ∨ Far sign n value) ∧
    (high = false → (low = true ↔ value + incr < fieldMin sign n))

lemma Operands.range {opcode : Opcode} (h : Width sign n) (ops : Operands sign n opcode value incr) :
    -2 ^ 63 ≤ value ∧ value < 2 ^ 63 ∧ -2 ^ 63 ≤ incr ∧ incr < 2 ^ 63 := by
  have hle := h.le
  cases ops with
  | set _ low high => omega
  | incrby fits low high =>
    cases sign with
    | true =>
      have hpow : (2 : Int) ^ (n - 1) ≤ 2 ^ 63 := pow_le_pow_right₀ one_le_two (by omega)
      have fits' : -2 ^ (n - 1) ≤ value ∧ value ≤ 2 ^ (n - 1) - 1 := fits
      omega
    | false =>
      have hpow : (2 : Int) ^ n ≤ 2 ^ 63 := pow_le_pow_right₀ one_le_two (h.unsigned rfl)
      have fits' : 0 ≤ value ∧ value ≤ 2 ^ n - 1 := fits
      omega

lemma checkSigned {opcode : Opcode} (h : Width true n) (ops : Operands true n opcode value incr) :
    Checks true n value incr := by
  intro owtype limit
  have hmax := toInt_signedMax h.pos h.le
  have hpos : (0 : Int) < 2 ^ (n - 1) := by positivity
  have hone : (1 : Int64).toInt = 1 := rfl
  have hzero : (0 : Int64).toInt = 0 := rfl
  have hle : (2 : Int) ^ (n - 1) ≤ 2 ^ 63 := pow_le_pow_right₀ one_le_two (by have := h.le; omega)
  have hle' : n ≠ 64 → (2 : Int) ^ (n - 1) ≤ 2 ^ 62 := fun hn =>
    pow_le_pow_right₀ one_le_two (by have := h.le; omega)
  have hlast : n = 64 → (2 : Int) ^ (n - 1) = 2 ^ 63 := fun hn => by rw [hn]
  rw [checkBitfieldOverflow, checkSignedBitfieldOverflow]
  generalize (if n = 64 then Int64.maxValue else (shl 1 (n - 1)).toInt64 - 1) = max at hmax
  have hmin : (-max - 1).toInt = -2 ^ (n - 1) := by
    rw [Int64.toInt_sub, Int64.toInt_neg, hmax, hone]
    rcases bmod_cases (x := -(2 ^ (n - 1) - 1)) (by omega) (by omega) with h | h | h <;>
      rcases bmod_cases (x := (-(2 ^ (n - 1) - 1) : Int).bmod (2 ^ 64) - 1) (by omega) (by omega) with h | h | h <;>
        omega
  generalize -max - 1 = min at hmin
  rw [overflowResult_map Int64.toInt, toInt_wrapSigned h.pos h.le, hmax, hmin]
  obtain ⟨vlow, vhigh, ilow, ihigh⟩ := ops.range h
  have hin : incr = 0 ∨ -2 ^ (n - 1) ≤ value ∧ value ≤ 2 ^ (n - 1) - 1 := by
    cases ops with
    | incrby fits => exact .inr fits
    | set => exact .inl rfl
  have hv := toInt_ofInt vlow vhigh
  have hi := toInt_ofInt ilow ihigh
  have hmaxincr := bmod_cases (x := 2 ^ (n - 1) - 1 - value) (by omega) (by omega)
  have hminincr := bmod_cases (x := -2 ^ (n - 1) - value) (by omega) (by omega)
  refine ⟨_, _, _, rfl, ?_, ?_⟩
  · rw [decide_eq_true_iff, Far, fieldMax, if_pos rfl]
    simp only [gt_iff_lt, ge_iff_le, Int64.lt_iff_toInt_lt, Int64.le_iff_toInt_le, Int64.toInt_sub, hv, hi, hmax, hzero,
      true_and]
    generalize (2 ^ (n - 1) - 1 - value).bmod (2 ^ 64) = maxincr at hmaxincr
    generalize (2 : Int) ^ (n - 1) = top at *
    omega
  · intro hhigh
    rw [decide_eq_false_iff_not] at hhigh
    rw [decide_eq_true_iff, fieldMin, if_pos rfl]
    simp only [gt_iff_lt, ge_iff_le, Int64.lt_iff_toInt_lt, Int64.le_iff_toInt_le, Int64.toInt_sub, hv, hi, hmax, hmin,
      hzero] at hhigh ⊢
    generalize (2 ^ (n - 1) - 1 - value).bmod (2 ^ 64) = maxincr at hmaxincr hhigh
    generalize (-2 ^ (n - 1) - value).bmod (2 ^ 64) = minincr at hminincr
    generalize (2 : Int) ^ (n - 1) = top at *
    omega

lemma checkUnsigned {opcode : Opcode} (h : Width false n) (ops : Operands false n opcode value incr) :
    Checks false n value incr := by
  intro owtype limit
  have hn := h.unsigned rfl
  have hle : 2 ^ n ≤ 2 ^ 63 := Nat.pow_le_pow_right two_pos hn
  have hpos := Nat.two_pow_pos n
  have hcast : (2 : Int) ^ n = (2 ^ n : Nat) := by norm_cast
  cases ops with
  | set hsign => cases hsign
  | incrby fits ilow ihigh =>
    have fits' : 0 ≤ value ∧ value ≤ 2 ^ n - 1 := fits
    obtain ⟨vlow, vhigh⟩ := fits'
    have hi := toInt_ofInt ilow ihigh
    have hzero : (0 : Int64).toInt = 0 := rfl
    have hvalue := toNat_ofNat_of_lt (n := 63) (w := value.toNat) (by omega) (by omega)
    have hmax : (if n = 64 then (-1 : UInt64) else shl 1 n - 1).toNat = 2 ^ n - 1 := by
      rw [if_neg (by omega), UInt64.toNat_sub_of_le _ _ (by rw [UInt64.le_iff_toNat_le, toNat_shl_one (by omega)]; exact hpos),
        toNat_shl_one (by omega), UInt64.toNat_one]
    rw [checkBitfieldOverflow, checkUnsignedBitfieldOverflow]
    generalize (if n = 64 then (-1 : UInt64) else shl 1 n - 1) = max at hmax
    rw [overflowResult_map fun value : UInt64 => (value.toNat : Int), toNat_wrapUnsigned (by omega) vlow]
    generalize UInt64.ofNat value.toNat = v at hvalue
    have hnot : v ≤ max := by
      rw [UInt64.le_iff_toNat_le]
      omega
    have hmaxincr : (max - v).toInt64.toInt = 2 ^ n - 1 - value := by
      have hsub := UInt64.toNat_sub_of_le _ _ hnot
      rw [toInt_of_lt (by omega)]
      omega
    have hminincr : (-v).toInt64.toInt = -value := by
      rw [toInt_toInt64, UInt64.toNat_neg, UInt64.size, Int.bmod_def]
      split <;> omega
    have hmax' : (max.toNat : Int) = fieldMax false n := by
      rw [fieldMax, if_neg Bool.false_ne_true]
      omega
    have hmin' : ((0 : UInt64).toNat : Int) = fieldMin false n := rfl
    rw [hmax']
    refine ⟨_, _, _, rfl, ?_, ?_⟩
    · rw [decide_eq_true_iff, Far, fieldMax, if_neg Bool.false_ne_true]
      simp only [gt_iff_lt, UInt64.not_lt.mpr hnot, Int64.lt_iff_toInt_lt, hi, hmaxincr, hzero, false_or,
        Bool.false_eq_true, false_and, or_false]
      omega
    · intro _
      rw [decide_eq_true_iff, fieldMin, if_neg Bool.false_ne_true]
      simp only [Int64.lt_iff_toInt_lt, hi, hminincr, hzero]
      omega

lemma Checks.result (checks : Checks sign n value incr) (far : Far sign n value → value + incr < fieldMin sign n)
    (owtype : Owtype) (limit : UInt64) :
    ((checkBitfieldOverflow sign value incr n owtype limit).1 = 0 ↔ FieldFits sign n (value + incr)) ∧
    (¬FieldFits sign n (value + incr) → owtype = .sat → (checkBitfieldOverflow sign value incr n owtype limit).2 =
      if fieldMax sign n < value + incr ∨ Far sign n value then fieldMax sign n else fieldMin sign n) ∧
    (¬FieldFits sign n (value + incr) → owtype = .wrap →
      (checkBitfieldOverflow sign value incr n owtype limit).2 = wrappedTo sign n (value + incr)) := by
  obtain ⟨high, low, junk, heq, hhigh, hlow⟩ := checks owtype limit
  rw [heq, FieldFits]
  cases high with
  | true =>
    have hout := hhigh.mp rfl
    have hout' := hout.imp_right far
    refine ⟨?_, fun _ hsat => ?_, fun _ hwrap => by rw [hwrap]; rfl⟩
    · cases owtype <;> simp only [overflowResult, if_true] <;> omega
    · rw [hsat, if_pos hout]
      rfl
  | false =>
    have hin := mt hhigh.mpr Bool.false_ne_true
    cases low with
    | true =>
      have hout := (hlow rfl).mp rfl
      refine ⟨?_, fun _ hsat => ?_, fun _ hwrap => by rw [hwrap]; rfl⟩
      · cases owtype <;> simp only [overflowResult, if_true, Bool.false_eq_true, if_false] <;> omega
      · rw [hsat, if_neg hin]
        rfl
    | false =>
      have hout := mt (hlow rfl).mpr Bool.false_ne_true
      have fits : fieldMin sign n ≤ value + incr ∧ value + incr ≤ fieldMax sign n := by omega
      exact ⟨iff_of_true rfl fits, fun hnot => absurd fits hnot, fun hnot => absurd fits hnot⟩

lemma Operands.checks {opcode : Opcode} (h : Width sign n) (ops : Operands sign n opcode value incr) :
    Checks sign n value incr := by
  cases sign with
  | true => exact checkSigned h ops
  | false => exact checkUnsigned h ops

lemma Operands.far {opcode : Opcode} (h : Width sign n) (ops : Operands sign n opcode value incr)
    (far : Far sign n value) : value + incr < fieldMin sign n := by
  obtain ⟨rfl, hn, hfar⟩ := far
  have hle : (2 : Int) ^ (n - 1) ≤ 2 ^ 62 := pow_le_pow_right₀ one_le_two (by have := h.le; omega)
  rw [fieldMin]
  cases ops with
  | incrby fits =>
    have low : -2 ^ (n - 1) ≤ value := fits.1
    omega
  | set => omega

lemma bitfieldExec_fail {opcode : Opcode} (h : Width sign n) (ops : Operands sign n opcode value incr) {s : Bytes}
    {op : BitfieldOp} (hop : Operation sign n value incr s op) (hcode : op.opcode = opcode) (howtype : op.owtype = .fail)
    (hout : ¬FieldFits sign n (value + incr)) (junk : UInt64) : bitfieldExec junk s op = .ok (s, .nullBulk) := by
  obtain ⟨hsign, rfl, room, hincrby, hset⟩ := hop
  have hcheck := mt (((ops.checks h).result (ops.far h) .fail junk).1.mp) hout
  have hnotget : op.opcode ≠ .get := by
    rw [hcode]
    cases ops <;> nofun
  rw [bitfieldExec, if_neg hnotget, hsign]
  cases sign with
  | true =>
    have hread := getSignedBitfield_eq h.pos h.le room
    rw [if_pos rfl, bitfieldWriteSigned]
    rw [checkBitfieldOverflow, if_pos rfl] at hcheck
    cases hold : getSignedBitfield s op.offset op.bits with
    | error e =>
      rw [hold] at hread
      cases hread
    | ok oldval =>
      rw [ok_bind]
      cases ops with
      | incrby =>
        obtain ⟨hi64, hval⟩ := hincrby hcode
        rw [getBitfield, hold] at hval
        obtain rfl : oldval.toInt = value := Except.ok.inj hval
        rw [Int64.ofInt_toInt] at hcheck
        simp only [hcode, if_true, hi64, howtype, ne_eq, hcheck, not_false_eq_true, and_self]
      | set =>
        simp only [hcode, hset hcode, howtype, reduceCtorEq, if_false]
        exact if_pos ⟨hcheck, trivial⟩
  | false =>
    have hread := getUnsignedBitfield_eq h.le room
    rw [if_neg Bool.false_ne_true, bitfieldWriteUnsigned, hread, ok_bind]
    rw [checkBitfieldOverflow, if_neg Bool.false_ne_true] at hcheck
    cases ops with
    | incrby =>
      obtain ⟨hi64, hval⟩ := hincrby hcode
      rw [getBitfield, hread] at hval
      obtain rfl := Except.ok.inj hval
      simp only [Int.toNat_natCast, UInt64.ofNat_toNat] at hcheck
      simp only [hcode, if_true, hi64, howtype, ne_eq, hcheck, not_false_eq_true, and_self]
    | set hsign => cases hsign

lemma wrappedTo_right_iff (h : Width sign n) {sum : Int} (hout : ¬FieldFits true 64 sum ∨ n ≠ 64)
    (low : -2 ^ 64 ≤ sum) (high : sum ≤ 2 ^ 64 - 2) :
    FieldFits sign n (wrappedTo sign n sum) ∧ wrappedTo sign n sum ≡ sum [ZMOD 2 ^ n] ↔ n ≠ 64 ∨ sum = -2 ^ 64 := by
  by_cases hn : n = 64
  · subst hn
    obtain rfl := h.signed
    have hout' : sum < -2 ^ 63 ∨ 2 ^ 63 ≤ sum := by
      have hout' : ¬(-2 ^ 63 ≤ sum ∧ sum ≤ 2 ^ 63 - 1) := hout.resolve_right fun h => h rfl
      omega
    have fits : ∀ v : Int, v = -1 ∨ v = 0 → FieldFits true 64 v := by
      rintro v (rfl | rfl)
      · exact ⟨by decide, by decide⟩
      · exact ⟨by decide, by decide⟩
    rw [wrappedTo, if_pos rfl, Int.ModEq]
    split
    · omega
    · rw [and_iff_right (fits _ (.inr rfl))]
      omega
  · have hnonneg : 0 ≤ sum % 2 ^ n := Int.emod_nonneg _ (by positivity)
    have hlt : (sum % 2 ^ n).toNat < 2 ^ n := by
      zify
      rw [Int.toNat_of_nonneg hnonneg]
      exact Int.emod_lt_of_pos _ (by positivity)
    rw [wrappedTo, if_neg hn]
    refine iff_of_true ⟨fieldFits_fieldValue h.pos hlt, ?_⟩ (.inl hn)
    refine (fieldValue_modEq _).trans ?_
    rw [Int.toNat_of_nonneg hnonneg]
    exact Int.mod_modEq _ _

/-- `o` denotes the bit `k` below 512 MB, as its number or, after a `#`, as the number of a field. -/
def DenotesBit (o : Bytes) (hash : Bool) (bits k : Nat) : Prop :=
  k < 2 ^ 32 ∧ (o = decimal k ∨ (hash = true ∧ 0 < bits ∧ ∃ n, o = 35 :: decimal n ∧ k = n * bits))

/-- `o` is a `#` and a number of 64 bits whose field is not below 512 MB, but starts there modulo 2^64. -/
def OffsetWraps (o : Bytes) (hash : Bool) (bits : Nat) : Prop :=
  hash = true ∧ 0 < bits ∧ ∃ t n, o = 35 :: t ∧ string2ll t = some n ∧ ¬(0 ≤ n * bits ∧ n * bits < 2 ^ 32) ∧
    n * bits % 2 ^ 64 < 2 ^ 32

lemma getBitOffsetFromArgument_ok {o : Bytes} {hash : Bool} {bits k : Nat} :
    getBitOffsetFromArgument o hash bits = .ok k ↔
      ∃ l : Int, string2ll (if o.head? = some 35 ∧ hash ∧ 0 < bits then o.tail else o) = some l ∧
        (if o.head? = some 35 ∧ hash ∧ 0 < bits then (l * bits).bmod (2 ^ 64) else l) = k ∧ k < 2 ^ 32 := by
  rw [getBitOffsetFromArgument]
  split
  · rename_i hnone
    simp [hnone]
  rename_i l hl
  simp only [hl, Option.some.injEq, exists_eq_left']
  generalize (if o.head? = some 35 ∧ hash ∧ 0 < bits then (l * bits).bmod (2 ^ 64) else l) = offset
  split
  · exact iff_of_false (by rintro ⟨⟩) (by omega)
  · rw [Except.ok.injEq]
    omega

lemma hash_ne_decimal {t : Bytes} {k : Nat} (hk : k < 2 ^ 32) : 35 :: t ≠ decimal k := by
  intro h
  have := string2ll_decimal (lt_trans hk (by norm_num))
  rw [← h] at this
  cases this

/-- Bit offsets are what they denote unless the product for a field wraps around. -/
theorem getBitOffsetFromArgument_exact_iff (o : Bytes) (hash : Bool) (bits : Nat) :
    (∀ k, getBitOffsetFromArgument o hash bits = .ok k ↔ DenotesBit o hash bits k) ↔ ¬OffsetWraps o hash bits := by
  simp only [getBitOffsetFromArgument_ok]
  by_cases hu : o.head? = some 35 ∧ hash ∧ 0 < bits
  · obtain ⟨ho, hhash, hbits⟩ := id hu
    obtain ⟨t, rfl⟩ := List.head?_eq_some_iff.mp ho
    simp only [if_pos hu, List.tail_cons]
    constructor
    · rintro right ⟨-, -, t', l, ht, hl, hout, hlow⟩
      cases ht
      have hk : (l * bits).bmod (2 ^ 64) = ((l * bits).bmod (2 ^ 64)).toNat ∧
          ((l * bits).bmod (2 ^ 64)).toNat < 2 ^ 32 := by
        rw [Int.bmod_def]
        split <;> omega
      obtain ⟨hlt, hdec | ⟨-, -, n, hn, heq⟩⟩ := (right _).mp ⟨l, hl, hk⟩
      · exact absurd hdec (hash_ne_decimal hlt)
      obtain rfl := List.cons.inj hn |>.2
      rw [heq] at hlt
      rw [string2ll_decimal (by nlinarith)] at hl
      cases hl
      exact hout ⟨mul_nonneg (Int.natCast_nonneg _) (Int.natCast_nonneg _), by exact_mod_cast hlt⟩
    · intro within k
      constructor
      · rintro ⟨l, hl, hk, hlt⟩
        have hin : 0 ≤ l * bits ∧ l * bits < 2 ^ 32 := by
          by_contra hout
          refine within ⟨hhash, hbits, t, l, rfl, hl, hout, ?_⟩
          rw [Int.bmod_def] at hk
          split at hk <;> omega
        rw [Int.bmod_eq_of_le (by omega) (by omega)] at hk
        obtain ⟨n, rfl⟩ := Int.eq_ofNat_of_zero_le (nonneg_of_mul_nonneg_left hin.1 (by omega))
        exact ⟨hlt, .inr ⟨hhash, hbits, n, by rw [← eq_decimal_of_string2ll hl], by exact_mod_cast hk.symm⟩⟩
      · rintro ⟨hlt, hdec | ⟨-, -, n, hn, rfl⟩⟩
        · exact absurd hdec (hash_ne_decimal hlt)
        · obtain rfl := List.cons.inj hn |>.2
          refine ⟨n, string2ll_decimal (by nlinarith), ?_, hlt⟩
          rw [Int.bmod_eq_of_le (by omega) (by omega), Nat.cast_mul]
  · simp only [if_neg hu]
    constructor
    · rintro - ⟨hhash, hbits, t, n, rfl, -⟩
      exact hu ⟨rfl, hhash, hbits⟩
    · intro _ k
      constructor
      · rintro ⟨l, hl, rfl, hlt⟩
        exact ⟨hlt, .inl (eq_decimal_of_string2ll hl)⟩
      · rintro ⟨hlt, rfl | ⟨hhash, hbits, n, rfl, -⟩⟩
        · exact ⟨k, string2ll_decimal (by omega), rfl, hlt⟩
        · exact absurd ⟨rfl, hhash, hbits⟩ hu

/-- The field 2^62 of 4 bits is read as the bit 0. -/
theorem getBitOffsetFromArgument_wraps :
    getBitOffsetFromArgument (ascii "#4611686018427387904") true 4 = .ok 0 ∧
      ¬DenotesBit (ascii "#4611686018427387904") true 4 0 := by
  refine ⟨by decide, ?_⟩
  rintro ⟨-, h | ⟨-, -, n, h, heq⟩⟩
  · cases h
  · obtain rfl : n = 0 := by omega
    exact absurd h (by decide)

end JitRedis.Bitops
