import JitRedis.Util.Numbers

/-!
# C strings, and unsigned numbers in them

Arguments are compared with `strcmp` and `strcasecmp`, which see them up to the first zero byte. Unsigned numbers
are written by `sdsull2str` of `src/sds.c` and read by `string2ull` of `src/t_stream.c`.
-/

namespace JitRedis

open List

def cstr (s : Bytes) : Bytes := s.takeWhile (· ≠ 0)

/-- The bytes of a literal. -/
def ascii (s : String) : Bytes := s.toList.map fun c => UInt8.ofNat c.toNat

def tolower (c : UInt8) : UInt8 := if 65 ≤ c.toNat ∧ c.toNat ≤ 90 then c + 32 else c

def toupper (c : UInt8) : UInt8 := if 97 ≤ c.toNat ∧ c.toNat ≤ 122 then c - 32 else c

/-- `strcmp(s,lit) == 0` -/
def streq (s : Bytes) (lit : String) : Bool := cstr s = ascii lit

/-- `strcasecmp(s,lit) == 0` -/
def strcaseeq (s : Bytes) (lit : String) : Bool := (cstr s).map tolower = (ascii lit).map tolower

/-- The loop of `sdsull2str`, with the reversal that follows it. -/
def sdsull2strLoop : Nat → Nat → Bytes → Bytes
  | 0, _, s => s
  | fuel + 1, v, s =>
    if v / 10 = 0 then UInt8.ofNat (48 + v % 10) :: s
    else sdsull2strLoop fuel (v / 10) (UInt8.ofNat (48 + v % 10) :: s)

/-- `sdsull2str`; 20 digits hold every 64 bit value. -/
def sdsull2str (v : Nat) : Bytes := sdsull2strLoop 20 v []

def isspace (c : UInt8) : Bool := c = 32 ∨ 9 ≤ c.toNat ∧ c.toNat ≤ 13

def isdigit (c : UInt8) : Bool := 48 ≤ c.toNat ∧ c.toNat ≤ 57

def digitsValue (s : Bytes) : Nat := s.foldl (fun v c => v * 10 + (c.toNat - 48)) 0

/-- `strtoull(s,&endptr,10)`: `none` if `errno` is set or `*endptr` is not the terminator. -/
def strtoull (s : Bytes) : Option Nat :=
  let t := s.dropWhile isspace
  let neg := t.head? = some 45
  let p := if neg ∨ t.head? = some 43 then t.tail else t
  if p = [] ∨ p.any (fun c => !isdigit c) then none
  else if ullongMax < digitsValue p then none
  else some (if neg then (2 ^ 64 - digitsValue p) % 2 ^ 64 else digitsValue p)

/-- Digits that denote a number below 2^64. -/
def isULong (p : Bytes) : Bool := p ≠ [] ∧ p.all isdigit ∧ digitsValue p ≤ ullongMax

/-- What `strtoull` leaves for the digits. -/
def afterSign (s : Bytes) : Bytes :=
  let t := s.dropWhile isspace
  if t.head? = some 45 ∨ t.head? = some 43 then t.tail else t

/-- `strtol(s,NULL,10)` -/
def strtol (s : Bytes) : Int :=
  let t := (cstr s).dropWhile isspace
  let neg := t.head? = some 45
  let p := if neg ∨ t.head? = some 43 then t.tail else t
  let v := digitsValue (p.takeWhile isdigit)
  if neg then max (-v) (-2 ^ 63) else min v (2 ^ 63 - 1)

/-- `atoi`, which is `strtol` cut to an `int` -/
def atoi (s : Bytes) : Int := (strtol s).bmod (2 ^ 32)

def string2ull (s : Bytes) : Option Nat :=
  match string2ll s with
  | some ll => if ll < 0 then none else some ll.toNat
  | none => strtoull s

lemma sdsull2strLoop_eq {fuel v : Nat} {s : Bytes} (h : v < 10 ^ fuel) (pos : 0 < fuel) :
    sdsull2strLoop fuel v s = decimal v ++ s := by
  induction fuel generalizing v s with
  | zero => cases pos
  | succ fuel ih =>
    rw [sdsull2strLoop]
    split
    · have hv : v < 10 := by omega
      rw [Nat.mod_eq_of_lt hv, decimal_digit hv]
      rfl
    have hv : 10 ≤ v := by omega
    have hfuel : 0 < fuel := by
      cases fuel with
      | zero => omega
      | succ fuel => exact Nat.succ_pos _
    rw [ih (by rw [Nat.pow_succ] at h; omega) hfuel, decimal_step hv, append_assoc]
    rfl

lemma sdsull2str_eq {v : Nat} (h : v ≤ ullongMax) : sdsull2str v = decimal v := by
  rw [sdsull2str, sdsull2strLoop_eq (by rw [ullongMax] at h; omega) (by omega), append_nil]

lemma isdigit_decimal (n : Nat) : ∀ c ∈ decimal n, isdigit c = true := by
  have digit : ∀ {d : Nat}, d < 10 → isdigit (UInt8.ofNat (48 + d)) = true := by
    intro d hd
    rw [isdigit, toNat_digit hd]
    exact decide_eq_true (by omega)
  induction n using Nat.strong_induction_on with
  | _ n ih =>
    intro c hc
    cases Nat.lt_or_ge n 10 with
    | inl lt =>
      rw [decimal_digit lt, mem_singleton] at hc
      rw [hc]
      exact digit lt
    | inr ge =>
      rw [decimal_step ge, mem_append, mem_singleton] at hc
      cases hc with
      | inl hc => exact ih _ (by omega) c hc
      | inr hc =>
        rw [hc]
        exact digit (by omega)

lemma digitsValue_decimal (n : Nat) : digitsValue (decimal n) = n := by
  induction n using Nat.strong_induction_on with
  | _ n ih =>
    cases Nat.lt_or_ge n 10 with
    | inl lt =>
      rw [decimal_digit lt, digitsValue, foldl_cons, foldl_nil, toNat_digit lt]
      omega
    | inr ge =>
      have hd := toNat_digit (d := n % 10) (by omega)
      have hrest := ih (n / 10) (by omega)
      rw [digitsValue] at hrest
      rw [decimal_step ge, digitsValue, foldl_append, hrest, foldl_cons, foldl_nil, hd]
      omega

lemma ne_of_isdigit {c d : UInt8} (h : isdigit c = true) (hd : d.toNat < 48) : c ≠ d := by
  intro heq
  rw [isdigit, heq, decide_eq_true_iff] at h
  omega

lemma isspace_of_isdigit {c : UInt8} (hc : isdigit c = true) : isspace c = false := by
  rw [isdigit, decide_eq_true_iff] at hc
  rw [isspace, decide_eq_false_iff_not]
  rintro (h | h)
  · rw [h] at hc
    simp at hc
  · omega

/-- A text that starts with a digit has no blank and no sign in front. -/
lemma digit_first {p : Bytes} (digit : ∀ c ∈ p.head?, isdigit c = true) :
    p.dropWhile isspace = p ∧ p.head? ≠ some 45 ∧ p.head? ≠ some 43 := by
  refine ⟨?_, fun h => ne_of_isdigit (digit _ h) (by decide) rfl, fun h => ne_of_isdigit (digit _ h) (by decide) rfl⟩
  cases p with
  | nil => rfl
  | cons c p => exact dropWhile_cons_of_neg (by simp [isspace_of_isdigit (digit c rfl)])

lemma afterSign_digits {p : Bytes} (digits : ∀ c ∈ p, isdigit c = true) : afterSign p = p := by
  obtain ⟨hdrop, hminus, hplus⟩ := digit_first fun c hc => digits c (mem_of_mem_head? hc)
  simp only [afterSign, hdrop, hminus, hplus, or_self, if_false]

lemma isSome_strtoull (s : Bytes) : (strtoull s).isSome = isULong (afterSign s) := by
  have heq : strtoull s = if afterSign s = [] ∨ (afterSign s).any (fun c => !isdigit c) then none
      else if ullongMax < digitsValue (afterSign s) then none else some _ := rfl
  rw [heq, isULong]
  split_ifs <;> grind

lemma strtoull_digits {p : Bytes} (h : isULong p = true) : strtoull p = some (digitsValue p) := by
  rw [isULong, decide_eq_true_iff, all_eq_true] at h
  obtain ⟨hne, digits, hle⟩ := h
  obtain ⟨hdrop, hminus, hplus⟩ := digit_first fun c hc => digits c (mem_of_mem_head? hc)
  have hany : p.any (fun c => !isdigit c) = false := by
    rw [any_eq_false]
    intro c hc
    simp [digits c hc]
  rw [strtoull]
  simp only [hdrop, hminus, hplus, or_self, Bool.false_eq_true, if_false, hany, hne]
  rw [if_neg (by omega)]

lemma cstr_append_of_isdigit {p : Bytes} (digits : ∀ c ∈ p, isdigit c = true) (q : Bytes) :
    cstr (p ++ q) = p ++ cstr q := by
  rw [cstr, takeWhile_append_of_pos]
  · rfl
  · intro c hc
    exact decide_eq_true (ne_of_isdigit (digits c hc) (by decide))

lemma strtol_digits {p q : Bytes} (hp : p ≠ []) (digits : ∀ c ∈ p, isdigit c = true)
    (hq : ∀ c ∈ q.head?, isdigit c = false) (hv : digitsValue p < 2 ^ 63) : strtol (p ++ q) = digitsValue p := by
  obtain ⟨c, p', rfl⟩ := exists_cons_of_ne_nil hp
  have htake : (c :: p' ++ cstr q).takeWhile isdigit = c :: p' := by
    rw [takeWhile_append_of_pos digits]
    cases q with
    | nil => exact append_nil _
    | cons d q =>
      rw [cstr, takeWhile_cons]
      split
      · rw [takeWhile_cons_of_neg (by simp [hq d rfl]), append_nil]
      · exact append_nil _
  obtain ⟨hdrop, hminus, hplus⟩ : (c :: p' ++ cstr q).dropWhile isspace = c :: p' ++ cstr q ∧ _ := digit_first (by
    rintro _ ⟨⟩
    exact digits c (mem_cons_self ..))
  rw [strtol, cstr_append_of_isdigit digits, hdrop]
  simp only [hminus, hplus, or_self, if_false, htake]
  omega

lemma atoi_digits {p q : Bytes} (hp : p ≠ []) (digits : ∀ c ∈ p, isdigit c = true)
    (hq : ∀ c ∈ q.head?, isdigit c = false) (hv : digitsValue p < 2 ^ 31) : atoi (p ++ q) = digitsValue p := by
  rw [atoi, strtol_digits hp digits hq (by omega), Int.bmod_eq_of_le] <;> omega

lemma digitsValue_le_append (p q : Bytes) : digitsValue p ≤ digitsValue (p ++ q) := by
  induction q using List.reverseRecOn with
  | nil => rw [append_nil]
  | append_singleton q c ih =>
    have hsnoc : digitsValue (p ++ q ++ [c]) = digitsValue (p ++ q) * 10 + (c.toNat - 48) := by
      rw [digitsValue, foldl_append]
      rfl
    rw [← append_assoc, hsnoc]
    omega

lemma decimal_head {n : Nat} (pos : 0 < n) : ∀ c ∈ (decimal n).head?, 49 ≤ c.toNat := by
  induction n using Nat.strong_induction_on with
  | _ n ih =>
    cases Nat.lt_or_ge n 10 with
    | inl lt =>
      rw [decimal_digit lt]
      intro c hc
      cases hc
      rw [toNat_digit lt]
      omega
    | inr ge =>
      rw [decimal_step ge, head?_append_of_ne_nil _ (decimal_ne_nil _)]
      exact ih _ (by omega) (by omega)

lemma isULong_decimal {n : Nat} (hn : n ≤ ullongMax) : isULong (decimal n) = true := by
  rw [isULong, decide_eq_true_iff, all_eq_true, digitsValue_decimal]
  exact ⟨decimal_ne_nil n, isdigit_decimal n, hn⟩

lemma string2ull_digits {p : Bytes} (h : isULong p = true) : string2ull p = some (digitsValue p) := by
  rw [string2ull]
  cases hll : string2ll p with
  | none => exact strtoull_digits h
  | some ll =>
    simp only
    rw [isULong, decide_eq_true_iff, all_eq_true] at h
    split
    · rename_i neg
      refine absurd ?_ (digit_first fun c hc => h.2.1 c (mem_of_mem_head? hc)).2.1
      rw [← ll2string_of_string2ll hll, ll2string, if_pos neg]
      rfl
    · obtain ⟨n, rfl⟩ := Int.eq_ofNat_of_zero_le (not_lt.mp ‹_›)
      rw [eq_decimal_of_string2ll hll, digitsValue_decimal]
      rfl

end JitRedis
