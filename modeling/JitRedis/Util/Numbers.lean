import JitRedis.Base
import JitRedis.Lib.Memory

/-!
# Integers and their decimal text

Model of `string2ll` and `ll2string` of `src/util.c`. `string2ll` accepts canonical text only, so that
writing the number back gives the same bytes. The second part is `ll2string` with its buffer.
-/

namespace JitRedis

open List Option

/-- Two entries of the table `digits` of `ll2string`. -/
def digitPair (n : Nat) : Bytes := [UInt8.ofNat (48 + n / 10), UInt8.ofNat (48 + n % 10)]

/-- The loop of `ll2string`: two digits a turn, from the right. `fuel` bounds the pairs of digits. -/
def ll2stringLoop : Nat → Nat → Bytes → Bytes
  | 0, _, dst => dst
  | fuel + 1, value, dst =>
    if 100 ≤ value then ll2stringLoop fuel (value / 100) (digitPair (value % 100) ++ dst)
    else if value < 10 then UInt8.ofNat (48 + value) :: dst
    else digitPair value ++ dst

/-- `ll2string` into a buffer that is long enough; ten pairs of digits hold every 64 bit value. -/
def ll2string (svalue : Int) : Bytes :=
  (if svalue < 0 then [45] else []) ++ ll2stringLoop 10 svalue.natAbs []

lemma length_ll2stringLoop_le (fuel value : Nat) (dst : Bytes) :
    (ll2stringLoop fuel value dst).length ≤ 2 * fuel + dst.length := by
  induction fuel generalizing value dst with
  | zero => simp [ll2stringLoop]
  | succ fuel ih =>
    rw [ll2stringLoop]
    split
    · refine (ih _ _).trans ?_
      simp [digitPair]
      omega
    split
    · rw [length_cons]
      omega
    · rw [digitPair, length_append, length_cons, length_singleton]
      omega

lemma length_ll2string_le (svalue : Int) : (ll2string svalue).length ≤ 21 := by
  have := length_ll2stringLoop_le 10 svalue.natAbs []
  rw [ll2string]
  split <;> simp at * <;> omega

def ullongMax : Nat := 2 ^ 64 - 1

/-- The loop of `string2ll` over the digits after the first. -/
def string2llDigits : Bytes → Nat → Option Nat
  | [], v => some v
  | c :: p, v =>
    if 48 ≤ c.toNat ∧ c.toNat ≤ 57 then
      if ullongMax / 10 < v then none
      else if ullongMax - (c.toNat - 48) < v * 10 then none
      else string2llDigits p (v * 10 + (c.toNat - 48))
    else none

/-- The digits of `string2ll` after the sign. -/
def string2llUnsigned : Bytes → Option Nat
  | [] => none
  | c :: p => if 49 ≤ c.toNat ∧ c.toNat ≤ 57 then string2llDigits p (c.toNat - 48) else none

def string2ll (s : Bytes) : Option Int :=
  if s = [48] then some 0
  else if s.head? = some 45 then do
    let v ← string2llUnsigned s.tail
    if 2 ^ 63 < v then none else some (-v)
  else do
    let v ← string2llUnsigned s
    if 2 ^ 63 - 1 < v then none else some v

def decimal (n : Nat) : Bytes :=
  if n = 0 then [48] else (Nat.digits 10 n).reverse.map fun d => UInt8.ofNat (48 + d)

lemma decimal_snoc {v d : Nat} (hv : 0 < v) (hd : d < 10) :
    decimal (v * 10 + d) = decimal v ++ [UInt8.ofNat (48 + d)] := by
  have dig : Nat.digits 10 (v * 10 + d) = d :: Nat.digits 10 v := by
    rw [Nat.digits_def' (by norm_num) (by omega)]
    congr 1
    · omega
    · congr 1
      omega
  rw [decimal, decimal, if_neg (by omega), if_neg (by omega), dig]
  simp

lemma decimal_digit {d : Nat} (hd : d < 10) : decimal d = [UInt8.ofNat (48 + d)] := by
  rw [decimal]
  split_ifs with h
  · subst h
    rfl
  · rw [Nat.digits_of_lt 10 d h hd]
    rfl

lemma decimal_step {n : Nat} (hn : 10 ≤ n) :
    decimal n = decimal (n / 10) ++ [UInt8.ofNat (48 + n % 10)] := by
  rw [← decimal_snoc (v := n / 10) (by omega) (Nat.mod_lt _ (by norm_num))]
  congr 1
  omega

lemma decimal_pair {n : Nat} (hn : 100 ≤ n) : decimal n = decimal (n / 100) ++ digitPair (n % 100) := by
  rw [decimal_step (n := n) (by omega), decimal_step (n := n / 10) (by omega), digitPair, Nat.div_div_eq_div_mul,
    show n % 100 / 10 = n / 10 % 10 by omega]
  simp

lemma decimal_two {n : Nat} (low : 10 ≤ n) (high : n < 100) : decimal n = digitPair n := by
  rw [decimal_step low, decimal_digit (d := n / 10) (by omega), digitPair]
  simp

lemma div_hundred_lt {value fuel : Nat} (hge : 100 ≤ value) (hf : value < 100 ^ (fuel + 1)) :
    value / 100 < 100 ^ fuel ∧ 0 < fuel := by
  constructor
  · rw [Nat.div_lt_iff_lt_mul (by norm_num)]
    exact hf
  · by_contra h
    obtain rfl : fuel = 0 := by omega
    omega

lemma ll2stringLoop_eq {fuel value : Nat} {dst : Bytes} (hf : value < 100 ^ fuel) (pos : 0 < fuel) :
    ll2stringLoop fuel value dst = decimal value ++ dst := by
  induction fuel generalizing value dst with
  | zero => omega
  | succ fuel ih =>
    rw [ll2stringLoop]
    split_ifs with hge hlt
    · obtain ⟨hf', pos'⟩ := div_hundred_lt hge hf
      rw [ih hf' pos', decimal_pair hge, append_assoc]
    · rw [decimal_digit hlt]
      rfl
    · rw [decimal_two (by omega) (by omega)]

lemma string2llDigits_spec {p : Bytes} {v n : Nat} (hv : 0 < v) (h : string2llDigits p v = some n) :
    0 < n ∧ decimal n = decimal v ++ p := by
  induction p generalizing v with
  | nil =>
    cases h
    exact ⟨hv, by simp⟩
  | cons c p ih =>
    rw [string2llDigits] at h
    split at h
    · split at h
      · cases h
      split at h
      · cases h
      · obtain ⟨pos, dec⟩ := ih (by omega) h
        rw [decimal_snoc hv (by omega), show 48 + (c.toNat - 48) = c.toNat by omega] at dec
        exact ⟨pos, by simpa using dec⟩
    · cases h

lemma string2llUnsigned_spec {p : Bytes} {n : Nat} (h : string2llUnsigned p = some n) :
    0 < n ∧ decimal n = p := by
  cases p with
  | nil => cases h
  | cons c p =>
    rw [string2llUnsigned] at h
    split at h
    · obtain ⟨pos, dec⟩ := string2llDigits_spec (by omega) h
      rw [decimal_digit (d := c.toNat - 48) (by omega), show 48 + (c.toNat - 48) = c.toNat by omega,
        UInt8.ofNat_toNat] at dec
      exact ⟨pos, dec⟩
    · cases h

lemma ll2stringLoop_ten {n : Nat} (hn : n ≤ 2 ^ 63) : ll2stringLoop 10 n [] = decimal n := by
  rw [ll2stringLoop_eq (by omega) (by norm_num), append_nil]

lemma string2llDigits_append (p q : Bytes) (v : Nat) :
    string2llDigits (p ++ q) v = (string2llDigits p v).bind (string2llDigits q) := by
  induction p generalizing v with
  | nil => rfl
  | cons c p ih =>
    rw [cons_append, string2llDigits, string2llDigits, ih]
    split <;> [split <;> [rfl; split <;> rfl]; rfl]

lemma string2llUnsigned_append {p : Bytes} (hp : p ≠ []) (q : Bytes) :
    string2llUnsigned (p ++ q) = (string2llUnsigned p).bind (string2llDigits q) := by
  cases p with
  | nil => exact absurd rfl hp
  | cons c p =>
    rw [cons_append, string2llUnsigned, string2llUnsigned, string2llDigits_append]
    split <;> rfl

lemma toNat_digit {d : Nat} (hd : d < 10) : (UInt8.ofNat (48 + d)).toNat = 48 + d := by
  rw [UInt8.toNat_ofNat']
  omega

lemma decimal_ne_nil (n : Nat) : decimal n ≠ [] := by
  cases Nat.lt_or_ge n 10 with
  | inl hn => simp [decimal_digit hn]
  | inr hn => simp [decimal_step hn]

lemma string2llUnsigned_decimal {n : Nat} (pos : 0 < n) (hn : n ≤ ullongMax) :
    string2llUnsigned (decimal n) = some n := by
  induction n using Nat.strong_induction_on with
  | _ n ih =>
    cases Nat.lt_or_ge n 10 with
    | inl lt =>
      rw [decimal_digit lt, string2llUnsigned, toNat_digit lt, if_pos (by omega), string2llDigits]
      congr 1
      omega
    | inr ge =>
      have hd := toNat_digit (d := n % 10) (by omega)
      rw [decimal_step ge, string2llUnsigned_append (decimal_ne_nil _), ih (n / 10) (by omega) (by omega) (by omega),
        bind_some, string2llDigits, if_pos (by omega), if_neg (by omega), if_neg (by omega),
        string2llDigits]
      congr 1
      omega

lemma head?_decimal_ne_sign (n : Nat) : (decimal n).head? ≠ some 45 := by
  induction n using Nat.strong_induction_on with
  | _ n ih =>
    cases Nat.lt_or_ge n 10 with
    | inl lt =>
      rw [decimal_digit lt]
      intro h
      have := congrArg UInt8.toNat (some.inj h)
      simp at this
      omega
    | inr ge =>
      rw [decimal_step ge, head?_append_of_ne_nil _ (decimal_ne_nil _)]
      exact ih _ (by omega)

/-- The text written for a 64 bit integer is read back. -/
theorem string2ll_ll2string {v : Int} (low : -2 ^ 63 ≤ v) (high : v < 2 ^ 63) : string2ll (ll2string v) = some v := by
  cases lt_or_ge v 0 with
  | inl neg =>
    rw [ll2string, if_pos neg, ll2stringLoop_ten (by omega), string2ll, if_neg (by simp), singleton_append,
      head?_cons, if_pos rfl, tail_cons, string2llUnsigned_decimal (by omega) (by rw [ullongMax]; omega)]
    simp only [bind_eq_bind, bind_some]
    rw [if_neg (by omega)]
    congr 1
    omega
  | inr nonneg =>
    rw [ll2string, if_neg (by omega), ll2stringLoop_ten (by omega), nil_append, string2ll]
    by_cases zero : v = 0
    · subst zero
      rfl
    rw [if_neg, if_neg (head?_decimal_ne_sign _),
      string2llUnsigned_decimal (by omega) (by rw [ullongMax]; omega)]
    · simp only [bind_eq_bind, bind_some]
      rw [if_neg (by omega)]
      congr 1
      omega
    · intro h
      have := string2llUnsigned_decimal (n := v.natAbs) (by omega) (by rw [ullongMax]; omega)
      rw [h] at this
      cases this

/-- Text that converts to an integer is the text written for that integer. -/
theorem ll2string_of_string2ll {s : Bytes} {v : Int} (h : string2ll s = some v) :
    ll2string v = s := by
  rw [string2ll] at h
  split at h
  · rename_i zero
    cases h
    rw [zero]
    rfl
  split at h
  · rename_i minus
    obtain ⟨n, hn, h⟩ := bind_eq_some_iff.mp h
    obtain ⟨pos, dec⟩ := string2llUnsigned_spec hn
    split at h
    · cases h
    cases h
    rw [ll2string, if_pos (by omega), Int.natAbs_neg, Int.natAbs_natCast, ll2stringLoop_ten (n := n) (by omega), dec]
    cases s with
    | nil => cases minus
    | cons c p =>
      cases minus
      rfl
  · obtain ⟨n, hn, h⟩ := bind_eq_some_iff.mp h
    obtain ⟨pos, dec⟩ := string2llUnsigned_spec hn
    split at h
    · cases h
    · cases h
      rw [ll2string, Int.natAbs_natCast, ll2stringLoop_ten (n := n) (by omega), dec]
      rfl

lemma string2ll_range {t : Bytes} {v : Int} (h : string2ll t = some v) : -2 ^ 63 ≤ v ∧ v < 2 ^ 63 := by
  rw [string2ll] at h
  split at h
  · cases h
    decide
  split at h
  · obtain ⟨n, -, hn⟩ := bind_eq_some_iff.mp h
    split at hn
    · cases hn
    · cases hn
      omega
  obtain ⟨n, -, hn⟩ := bind_eq_some_iff.mp h
  split at hn
  · cases hn
  · cases hn
    omega

lemma ll2string_natCast {n : Nat} (hn : n < 2 ^ 63) : ll2string n = decimal n := by
  rw [ll2string, if_neg (by omega), Int.natAbs_natCast, ll2stringLoop_ten (by omega), nil_append]

lemma string2ll_decimal {n : Nat} (hn : n < 2 ^ 63) : string2ll (decimal n) = some (n : Int) := by
  rw [← ll2string_natCast hn, string2ll_ll2string (by omega) (by omega)]

lemma eq_decimal_of_string2ll {s : Bytes} {n : Nat} (h : string2ll s = some (n : Int)) : s = decimal n := by
  rw [← ll2string_of_string2ll h, ll2string_natCast (by have := string2ll_range h; omega)]

lemma length_ll2string_lt {v : Int} (low : -2 ^ 63 ≤ v) (high : v < 2 ^ 63) : (ll2string v).length ≤ 20 := by
  have hdec : (decimal v.natAbs).length ≤ 19 := by
    rw [decimal]
    split
    · decide
    · rw [length_map, length_reverse, Nat.digits_length_le_iff (by norm_num)]
      omega
  rw [ll2string, ll2stringLoop_ten (by omega), length_append]
  split
  · rw [length_singleton]
    omega
  · rw [length_nil]
    omega

/-! ## The buffer of `ll2string` -/

/-- `digits10`; a 64 bit number needs one call of itself. -/
def digits10 : Nat → Nat → Nat
  | 0, _ => 0
  | fuel + 1, v =>
    if v < 10 then 1
    else if v < 100 then 2
    else if v < 1000 then 3
    else if v < 1000000000000 then
      if v < 100000000 then
        if v < 1000000 then
          if v < 10000 then 4 else 5 + if 100000 ≤ v then 1 else 0
        else 7 + if 10000000 ≤ v then 1 else 0
      else if v < 10000000000 then 9 + if 1000000000 ≤ v then 1 else 0
      else 11 + if 100000000000 ≤ v then 1 else 0
    else 12 + digits10 fuel (v / 1000000000000)

def sdigits10 (v : Int) : Nat := if v < 0 then digits10 2 v.natAbs + 1 else digits10 2 v.natAbs

/-- Store the last digits before `next`. -/
def storeDigits (dst : Bytes) (next : Nat) (digits : Bytes) : Except Fault Bytes :=
  if next < digits.length then .error .badAccess else Memory.store .overflow dst (next - digits.length) digits

/-- The loop of `ll2string` with the digits before `next` to be written. -/
def ll2stringWrite : Nat → Bytes → Nat → Nat → Except Fault Bytes
  | 0, _, _, _ => .error .diverged
  | fuel + 1, dst, next, value =>
    if 100 ≤ value then do
      let dst ← storeDigits dst next (digitPair (value % 100))
      ll2stringWrite fuel dst (next - 2) (value / 100)
    else if value < 10 then storeDigits dst next [UInt8.ofNat (48 + value)]
    else storeDigits dst next (digitPair value)

/-- `ll2string` with its buffer: the number returned, and the buffer after the call. -/
def ll2stringBuffer (dst : Bytes) (svalue : Int) : Except Fault (Nat × Bytes) := do
  let length := sdigits10 svalue
  if dst.length ≤ length then .ok (0, dst)
  else
    let dst ← Memory.store .overflow dst length [0]
    let dst ← ll2stringWrite 10 dst length svalue.natAbs
    let dst ← if svalue < 0 then Memory.store .overflow dst 0 [45] else .ok dst
    .ok (length, dst)

lemma length_decimal_le_iff {n k : Nat} (hk : 0 < k) : (decimal n).length ≤ k ↔ n < 10 ^ k := by
  rw [decimal]
  split_ifs with zero
  · subst zero
    exact iff_of_true hk (by positivity)
  · rw [length_map, length_reverse, Nat.digits_length_le_iff (by norm_num)]

lemma digits10_eq {fuel v : Nat} (pos : 0 < fuel) (h : v < 10 ^ (12 * fuel)) : digits10 fuel v = (decimal v).length := by
  induction fuel generalizing v with
  | zero => omega
  | succ fuel ih =>
    have size (k : Nat) (hk : 0 < k) : (decimal v).length ≤ k ↔ v < 10 ^ k := length_decimal_le_iff hk
    rw [digits10]
    by_cases big : v < 1000000000000
    · have := length_pos_of_ne_nil (decimal_ne_nil v)
      have := size 1
      have := size 2
      have := size 3
      have := size 4
      have := size 5
      have := size 6
      have := size 7
      have := size 8
      have := size 9
      have := size 10
      have := size 11
      have := size 12
      split_ifs <;> omega
    · have hdiv {k : Nat} : v / 1000000000000 < 10 ^ k ↔ v < 10 ^ (12 + k) := by
        rw [Nat.div_lt_iff_lt_mul (by norm_num), pow_add, mul_comm]
        norm_num
      have shift {k : Nat} (hk : 0 < k) : (decimal (v / 1000000000000)).length ≤ k ↔ (decimal v).length ≤ 12 + k := by
        rw [length_decimal_le_iff hk, size _ (by omega), hdiv]
      have pos' : 0 < fuel := by
        by_contra h0
        obtain rfl : fuel = 0 := by omega
        omega
      have hrest := length_pos_of_ne_nil (decimal_ne_nil (v / 1000000000000))
      have := (shift hrest).mp le_rfl
      have := @shift ((decimal v).length - 12)
      have := size 12
      rw [Nat.mul_succ, Nat.add_comm] at h
      rw [if_neg (by omega), if_neg (by omega), if_neg (by omega), if_neg big, ih pos' (hdiv.mpr h)]
      omega

lemma exists_append_of_length {α : Type} {l : List α} {m n : Nat} (h : l.length = m + n) :
    ∃ a b, l = a ++ b ∧ a.length = m ∧ b.length = n :=
  ⟨l.take m, l.drop m, (take_append_drop m l).symm, length_take_of_le (by omega), by rw [length_drop]; omega⟩

lemma storeDigits_eq {a b c digits : Bytes} (hb : b.length = digits.length) :
    storeDigits (a ++ (b ++ c)) (a.length + b.length) digits = .ok (a ++ (digits ++ c)) := by
  rw [storeDigits, if_neg (by omega)]
  exact Memory.store_eq rfl (by omega) hb

lemma ll2stringWrite_eq {fuel value : Nat} {a b c : Bytes} (hf : value < 100 ^ fuel) (pos : 0 < fuel)
    (hb : b.length = (decimal value).length) :
    ll2stringWrite fuel (a ++ (b ++ c)) (a.length + b.length) value = .ok (a ++ (decimal value ++ c)) := by
  induction fuel generalizing value b c with
  | zero => omega
  | succ fuel ih =>
    rw [ll2stringWrite]
    split_ifs with hge hlt
    · obtain ⟨hf', pos'⟩ := div_hundred_lt hge hf
      rw [decimal_pair hge, length_append] at hb
      -- the part of the buffer for the digits to come, and the one for the pair
      obtain ⟨b₁, b₂, rfl, hb₁, hb₂⟩ := exists_append_of_length hb
      have hstore := storeDigits_eq (a := a ++ b₁) (c := c) hb₂
      rw [length_append, Nat.add_assoc, ← length_append, append_assoc, ← append_assoc b₁] at hstore
      rw [hstore, Fallible.ok_bind, length_append, hb₂, ← Nat.add_assoc]
      rw [show a.length + b₁.length + (digitPair (value % 100)).length - 2 = a.length + b₁.length from rfl, append_assoc,
        ih hf' pos' hb₁, decimal_pair hge, append_assoc]
    · rw [decimal_digit hlt] at hb ⊢
      exact storeDigits_eq hb
    · rw [decimal_two (by omega) (by omega)] at hb ⊢
      exact storeDigits_eq hb

lemma length_ll2string {n : Int} (low : -2 ^ 63 ≤ n) (high : n < 2 ^ 63) :
    (ll2string n).length = (decimal n.natAbs).length + if n < 0 then 1 else 0 := by
  rw [ll2string, ll2stringLoop_ten (by omega), length_append]
  split <;> simp [Nat.add_comm]

lemma sdigits10_eq {n : Int} (low : -2 ^ 63 ≤ n) (high : n < 2 ^ 63) : sdigits10 n = (ll2string n).length := by
  rw [length_ll2string low high, sdigits10, digits10_eq (by norm_num) (by omega)]
  split <;> rfl

lemma ll2stringBuffer_eq {v : Int} (low : -2 ^ 63 ≤ v) (high : v < 2 ^ 63) (dst : Bytes) :
    ll2stringBuffer dst v = .ok (if dst.length ≤ (ll2string v).length then (0, dst)
      else ((ll2string v).length, ll2string v ++ 0 :: dst.drop ((ll2string v).length + 1))) := by
  rw [ll2stringBuffer, sdigits10_eq low high]
  split
  · rfl
  have htext : ll2string v = (if v < 0 then [45] else []) ++ decimal v.natAbs := by
    rw [ll2string, ll2stringLoop_ten (by omega)]
  obtain ⟨x, yz, rfl, hx, hyz⟩ := exists_append_of_length (l := dst) (m := (ll2string v).length)
    (n := dst.length - (ll2string v).length) (by omega)
  obtain ⟨y, z, rfl, hy, -⟩ := exists_append_of_length (l := yz) (m := 1) (n := yz.length - 1) (by omega)
  have hrest : (x ++ (y ++ z)).drop ((ll2string v).length + 1) = z := by
    rw [← append_assoc, drop_left' (by rw [length_append, hx, hy])]
  rw [Memory.store_eq rfl hx.symm hy, Fallible.ok_bind, hrest, ← hx]
  rw [htext, length_append] at hx
  obtain ⟨a, b, rfl, ha, hb⟩ := exists_append_of_length hx
  rw [length_append, append_assoc, ll2stringWrite_eq (show v.natAbs < 100 ^ 10 by omega) (by norm_num) hb,
    Fallible.ok_bind, htext]
  split_ifs at ha with neg
  · obtain ⟨u, rfl⟩ := length_eq_one_iff.mp ha
    have hsign {c : Bytes} : Memory.store Fault.overflow ([u] ++ c) 0 [45] = .ok ([45] ++ c) :=
      Memory.store_eq (a := []) (b := [u]) rfl rfl rfl
    rw [if_pos neg, if_pos neg]
    rfl
  · obtain rfl := eq_nil_of_length_eq_zero ha
    rw [if_neg neg, if_neg neg]
    rfl

/-- Text converts to a number exactly if it is the text of the number; what `ll2string` returns is the length of this
text, and it writes nothing but the text and its terminator, and only if both fit. -/
theorem string2ll_iff_ll2string (s : Bytes) (v : Int64) :
    (string2ll s = some v.toInt ↔ s = ll2string v.toInt) ∧
    (∀ w, string2ll s = some w → ∃ v : Int64, w = v.toInt) ∧
    ∀ dst : Bytes, ll2stringBuffer dst v.toInt = .ok (if dst.length ≤ (ll2string v.toInt).length then (0, dst)
      else ((ll2string v.toInt).length, ll2string v.toInt ++ 0 :: dst.drop ((ll2string v.toInt).length + 1))) := by
  have low := v.le_toInt
  have high := v.toInt_lt
  refine ⟨⟨fun h => (ll2string_of_string2ll h).symm, ?_⟩, fun w hw => ?_, ll2stringBuffer_eq low high⟩
  · rintro rfl
    exact string2ll_ll2string low high
  · obtain ⟨hlow, hhigh⟩ := string2ll_range hw
    exact ⟨Int64.ofInt w, (Int64.toInt_ofInt_of_le hlow hhigh).symm⟩

end JitRedis
