import Mathlib.Data.List.TakeWhile
import JitRedis.Stream.Groups

/-!
# The text of an ID

`streamGenericParseIDOrReply` reads `d1-d2`, or `d1` alone, up to the first zero byte. A number that `string2ll`
refuses goes to `strtoull`, which skips blanks and takes a sign.
-/

namespace JitRedis

open List

lemma cstr_eq {t} (h : (0 : UInt8) ∉ t) : cstr t = t := by
  rw [cstr, takeWhile_eq_self_iff]
  intro c hc
  have hne : c ≠ 0 := fun heq => h (heq ▸ hc)
  simpa using hne

/-- The one part of a text satisfies `P`, or both parts around the dash. -/
inductive Parts (P : Bytes → Prop) : Bytes → Prop
  | one {a} : 45 ∉ a → P a → Parts P a
  | two {a b} : 45 ∉ a → P a → P b → Parts P (a ++ 45 :: b)

/-- An ID from the parts of a text, with `read` for its numbers. -/
def readID (read : Bytes → Option Nat) (o : Bytes) (missingSeq : UInt64) : Option StreamID := do
  let ms ← read (o.takeWhile (· ≠ 45))
  match o.dropWhile (· ≠ 45) with
  | [] => some ⟨UInt64.ofNat ms, missingSeq⟩
  | _ :: rest => do
    let seq ← read rest
    some ⟨UInt64.ofNat ms, UInt64.ofNat seq⟩

section Read

variable {read : Bytes → Option Nat} {a b o : Bytes} {missingSeq : UInt64}

lemma readID_one (ha : 45 ∉ a) : readID read a missingSeq = (read a).map fun ms => ⟨UInt64.ofNat ms, missingSeq⟩ := by
  have hne : ∀ c ∈ a, decide (c ≠ 45) = true := fun c hc => decide_eq_true fun heq => ha (heq ▸ hc)
  rw [readID, takeWhile_eq_self_iff.mpr hne, dropWhile_eq_nil_iff.mpr hne]
  cases read a <;> rfl

lemma readID_two (ha : 45 ∉ a) : readID read (a ++ 45 :: b) missingSeq =
    (read a).bind fun ms => (read b).map fun seq => ⟨UInt64.ofNat ms, UInt64.ofNat seq⟩ := by
  have hne : ∀ c ∈ a, decide (c ≠ 45) = true := fun c hc => decide_eq_true fun heq => ha (heq ▸ hc)
  rw [readID, takeWhile_append_of_pos hne, dropWhile_append_of_pos hne, takeWhile_cons_of_neg (by decide),
    dropWhile_cons_of_neg (by decide), append_nil]
  cases read a <;> cases hb : read b <;> simp [hb]

lemma isSome_readID : (readID read o missingSeq).isSome ↔ Parts (fun p => (read p).isSome) o := by
  constructor
  · intro h
    by_cases hdash : 45 ∈ o
    · obtain ⟨a, b, rfl, ha⟩ := eq_append_cons_of_mem hdash
      rw [readID_two ha, Option.isSome_bind, Option.any_eq_true] at h
      obtain ⟨ms, hms, h⟩ := h
      exact .two ha (by rw [hms]; rfl) (by simpa using h)
    · rw [readID_one hdash, Option.isSome_map] at h
      exact .one hdash h
  · rintro (⟨ha, h⟩ | ⟨ha, h, hb⟩)
    · rwa [readID_one ha, Option.isSome_map]
    · obtain ⟨ms, hms⟩ := Option.isSome_iff_exists.mp h
      rwa [readID_two ha, hms, Option.bind_some, Option.isSome_map]

end Read

lemma streamGenericParseID_eq {o : Bytes} {strict : Bool} (hlen : o.length ≤ 127) (hminus : cstr o ≠ [45])
    (hplus : cstr o ≠ [43]) (missingSeq : UInt64) :
    streamGenericParseID o missingSeq strict = readID string2ull (cstr o) missingSeq := by
  rw [streamGenericParseID]
  simp only [hminus, hplus, or_self, and_false, if_false]
  rw [if_neg (by omega)]
  rfl

lemma streamParseStrictID_eq {o : Bytes} (hlen : o.length ≤ 127) (missingSeq : UInt64) :
    streamParseStrictID o missingSeq = readID string2ull (cstr o) missingSeq := by
  by_cases hsign : cstr o = [45] ∨ cstr o = [43]
  · rw [streamParseStrictID, streamGenericParseID]
    simp only [hsign, and_self, if_true, ite_self]
    rcases hsign with h | h <;> rw [h] <;> rfl
  · obtain ⟨hminus, hplus⟩ := not_or.mp hsign
    exact streamGenericParseID_eq hlen hminus hplus missingSeq

/-- What a text denotes: its two numbers, or one and the supplied sequence. -/
def idOfText : Bytes → UInt64 → Option StreamID := readID fun p => if isULong p then some (digitsValue p) else none

lemma notMem_of_isULong {p : Bytes} {c : UInt8} (h : isULong p = true) (hc : c.toNat < 48) : c ∉ p := by
  rw [isULong, decide_eq_true_iff, all_eq_true] at h
  exact fun hmem => ne_of_isdigit (h.2.1 c hmem) hc rfl

/-- A text of digits is its own C string, and is read as the ID that it denotes. -/
lemma Parts.exact {o : Bytes} (h : Parts (isULong · = true) o) :
    cstr o = o ∧ ∀ missingSeq, readID string2ull o missingSeq = idOfText o missingSeq := by
  cases h with
  | one ha hdigits =>
    refine ⟨cstr_eq (notMem_of_isULong hdigits (by decide)), fun missingSeq => ?_⟩
    rw [idOfText, readID_one ha, readID_one ha, string2ull_digits hdigits, if_pos hdigits]
  | two ha hms hseq =>
    refine ⟨cstr_eq ?_, fun missingSeq => ?_⟩
    · simp [notMem_of_isULong hms, notMem_of_isULong hseq]
    · rw [idOfText, readID_two ha, readID_two ha, string2ull_digits hms, string2ull_digits hseq, if_pos hms, if_pos hseq]

lemma isULong_sdsull2str (x : UInt64) : isULong (sdsull2str x.toNat) = true ∧ digitsValue (sdsull2str x.toNat) = x.toNat ∧
    (sdsull2str x.toNat).length ≤ 20 := by
  have hx := x.toNat_lt
  have hle : x.toNat ≤ ullongMax := by rw [ullongMax]; omega
  rw [sdsull2str_eq hle, length_decimal_le_iff (by decide)]
  exact ⟨isULong_decimal hle, digitsValue_decimal _, by omega⟩

lemma parts_streamIDText (id : StreamID) : Parts (isULong · = true) (streamIDText id) :=
  have hms := (isULong_sdsull2str id.ms).1
  .two (notMem_of_isULong hms (by decide)) hms (isULong_sdsull2str id.seq).1

lemma cstr_streamIDText (id : StreamID) : cstr (streamIDText id) = streamIDText id := (parts_streamIDText id).exact.1

lemma streamGenericParseID_text (id : StreamID) (missingSeq : UInt64) (strict : Bool) :
    streamGenericParseID (streamIDText id) missingSeq strict = some id := by
  obtain ⟨hms, hmsv, hmsl⟩ := isULong_sdsull2str id.ms
  obtain ⟨hseq, hseqv, hseql⟩ := isULong_sdsull2str id.seq
  have hlen : (streamIDText id).length = (sdsull2str id.ms.toNat).length + ((sdsull2str id.seq.toNat).length + 1) :=
    length_append
  have hpos : 0 < (sdsull2str id.seq.toNat).length := by
    rw [isULong, decide_eq_true_iff] at hseq
    exact length_pos_of_ne_nil hseq.1
  have hne : ∀ c : UInt8, cstr (streamIDText id) ≠ [c] := by
    intro c h
    rw [cstr_streamIDText] at h
    rw [h, length_singleton] at hlen
    omega
  rw [streamGenericParseID_eq (by omega) (hne 45) (hne 43), cstr_streamIDText, (parts_streamIDText id).exact.2,
    idOfText, streamIDText, readID_two (notMem_of_isULong hms (by decide))]
  simp [hms, hseq, hmsv, hseqv]

lemma streamParseStrictID_text (id : StreamID) (missingSeq : UInt64) :
    streamParseStrictID (streamIDText id) missingSeq = some id := streamGenericParseID_text id missingSeq true

/-- Digits after blanks and a sign, but not the text of a negative 64 bit number. -/
def Readable (p : Bytes) : Prop := isULong (afterSign p) = true ∧ ∀ v : Int64, v < 0 → p ≠ ll2string v.toInt

lemma isSome_string2ull {p : Bytes} : (string2ull p).isSome ↔ Readable p := by
  rw [string2ull, Readable]
  cases hll : string2ll p with
  | none =>
    have hneg : ∀ v : Int64, v < 0 → p ≠ ll2string v.toInt := by
      rintro v - rfl
      rw [string2ll_ll2string v.le_toInt v.toInt_lt] at hll
      cases hll
    rw [← isSome_strtoull, and_iff_left hneg]
  | some ll =>
    obtain ⟨low, high⟩ := string2ll_range hll
    have hll64 := Int64.toInt_ofInt_of_le low high
    have hp := ll2string_of_string2ll hll
    simp only
    split
    · refine iff_of_false (by simp) fun h => h.2 (Int64.ofInt ll) ?_ (by rw [hll64, hp])
      rwa [Int64.lt_iff_toInt_lt, hll64]
    · rename_i nonneg
      obtain ⟨n, rfl⟩ := Int.eq_ofNat_of_zero_le (not_lt.mp nonneg)
      refine iff_of_true rfl ⟨?_, ?_⟩
      · have hdec : isULong (decimal n) = true := isULong_decimal (by rw [ullongMax]; omega)
        rwa [eq_decimal_of_string2ll hll, afterSign_digits (isdigit_decimal n)]
      · rintro v hv rfl
        rw [string2ll_ll2string v.le_toInt v.toInt_lt, Option.some.injEq] at hll
        rw [Int64.lt_iff_toInt_lt, hll] at hv
        exact nonneg hv

/-- The text of an ID is read back. A text is read as the ID that it denotes, or refused if it denotes none, unless
its parts up to a zero byte are readable with blanks or a sign, or are followed by the zero byte. -/
theorem streamParseStrictID_exact_iff (o : Bytes) (missingSeq : UInt64) (hlen : o.length ≤ 127) :
    (∀ id missingSeq strict, streamGenericParseID (streamIDText id) missingSeq strict = some id) ∧
    (streamParseStrictID o missingSeq = idOfText o missingSeq ↔
      Parts (isULong · = true) o ∨ ¬Parts Readable (cstr o)) := by
  refine ⟨streamGenericParseID_text, ?_⟩
  rw [streamParseStrictID_eq hlen]
  by_cases hexact : Parts (isULong · = true) o
  · refine iff_of_true ?_ (.inl hexact)
    rw [hexact.exact.1, hexact.exact.2]
  · have hnone : idOfText o missingSeq = none := by
      rw [← Option.not_isSome_iff_eq_none, idOfText, isSome_readID]
      simpa using hexact
    rw [or_iff_right hexact, hnone, ← Option.not_isSome_iff_eq_none, isSome_readID]
    simp only [isSome_string2ull]

theorem streamParseStrictID_exact_plain :
    streamParseStrictID [49, 45, 50] 0 = idOfText [49, 45, 50] 0 ∧ idOfText [49, 45, 50] 0 = some ⟨1, 2⟩ :=
  ⟨(streamParseStrictID_exact_iff [49, 45, 50] 0 (by decide)).2.mpr
    (.inl (.two (a := [49]) (by simp) (by decide +kernel) (by decide +kernel))), by decide +kernel⟩

/-- A blank in front of the milliseconds is skipped. -/
theorem streamParseStrictID_skips_blank :
    streamParseStrictID [32, 53] 0 = some ⟨5, 0⟩ ∧ idOfText [32, 53] 0 = none := by decide +kernel

end JitRedis
