import JitRedis.Util.Strings

/-!
# Quoted arguments

`sdscatrepr` writes a string in quotes with escapes, and `sdssplitargs` splits a line into arguments. A line of quoted
strings is split into the strings it was made of.
-/

namespace JitRedis.Quoting

/-- `isprint`, in a locale without characters above 127. -/
def isprint (c : UInt8) : Bool := 32 ≤ c.toNat ∧ c.toNat ≤ 126

/-- A digit of the format `%02x`. -/
def hexDigit (n : UInt8) : UInt8 := if n.toNat < 10 then 48 + n else 87 + n

/-- What the loop of `sdscatrepr` appends for one byte. -/
def escape (c : UInt8) : Bytes :=
  match c with
  | 92 | 34 => [92, c]
  | 10 => [92, 110]
  | 13 => [92, 114]
  | 9 => [92, 116]
  | 7 => [92, 97]
  | 8 => [92, 98]
  | _ => if isprint c then [c] else [92, 120, hexDigit (c / 16), hexDigit (c % 16)]

def sdscatrepr (s p : Bytes) : Bytes := s ++ [34] ++ p.flatMap escape ++ [34]

def isHexDigit (c : UInt8) : Bool :=
  48 ≤ c.toNat ∧ c.toNat ≤ 57 ∨ 97 ≤ c.toNat ∧ c.toNat ≤ 102 ∨ 65 ≤ c.toNat ∧ c.toNat ≤ 70

def hexDigitToInt (c : UInt8) : UInt8 :=
  if 48 ≤ c.toNat ∧ c.toNat ≤ 57 then c - 48
  else if 97 ≤ c.toNat ∧ c.toNat ≤ 102 then c - 87
  else if 65 ≤ c.toNat ∧ c.toNat ≤ 70 then c - 55
  else 0

def unescape (c : UInt8) : UInt8 :=
  match c with
  | 110 => 10
  | 114 => 13
  | 116 => 9
  | 98 => 8
  | 97 => 7
  | c => c

/-- A closing quote is followed by a space or by nothing at all. -/
def closes (p : Bytes) : Bool := p.headD 0 = 0 ∨ isspace (p.headD 0)

-- The nested loops of `sdssplitargs`, each with the rest of the line, which ends with a NUL, and the current token.
mutual

/-- The blanks before a token, and its first byte. -/
def skipBlanks : Bytes → Option (List Bytes)
  | [] => some []
  | c :: p =>
    if c = 0 then some []
    else if isspace c then skipBlanks p
    else if c = 34 then inQuotes [] p
    else if c = 39 then inSingleQuotes [] p
    else getToken [c] p

def getToken (current : Bytes) : Bytes → Option (List Bytes)
  | [] => some [current]
  | c :: p =>
    if c = 0 then some [current]
    else if c = 32 ∨ c = 10 ∨ c = 13 ∨ c = 9 then (skipBlanks p).map (current :: ·)
    else if c = 34 then inQuotes current p
    else if c = 39 then inSingleQuotes current p
    else getToken (current ++ [c]) p

def inQuotes (current : Bytes) : Bytes → Option (List Bytes)
  | [] => none
  | 92 :: 120 :: a :: b :: p =>
    if isHexDigit a ∧ isHexDigit b then inQuotes (current ++ [hexDigitToInt a * 16 + hexDigitToInt b]) p
    else inQuotes (current ++ [120]) (a :: b :: p)
  | 92 :: c :: p => if c = 0 then none else inQuotes (current ++ [unescape c]) p
  | 34 :: p => if closes p then (skipBlanks p).map (current :: ·) else none
  | c :: p => if c = 0 then none else inQuotes (current ++ [c]) p

def inSingleQuotes (current : Bytes) : Bytes → Option (List Bytes)
  | [] => none
  | 92 :: 39 :: p => inSingleQuotes (current ++ [39]) p
  | 39 :: p => if closes p then (skipBlanks p).map (current :: ·) else none
  | c :: p => if c = 0 then none else inSingleQuotes (current ++ [c]) p

end

def sdssplitargs (line : Bytes) : Option (List Bytes) := skipBlanks line

/-- Two hexadecimal digits give the byte back. -/
lemma hexDigit_spec (c : UInt8) : isHexDigit (hexDigit (c / 16)) ∧ isHexDigit (hexDigit (c % 16)) ∧
    hexDigitToInt (hexDigit (c / 16)) * 16 + hexDigitToInt (hexDigit (c % 16)) = c := by
  have spec : ∀ n : Fin 256, let c := UInt8.ofNat n
      isHexDigit (hexDigit (c / 16)) ∧ isHexDigit (hexDigit (c % 16)) ∧
        hexDigitToInt (hexDigit (c / 16)) * 16 + hexDigitToInt (hexDigit (c % 16)) = c := by
    decide +kernel
  simpa only [UInt8.ofNat_toNat] using spec ⟨c.toNat, c.toNat_lt⟩

/-- A printable byte that has no escape. -/
lemma inQuotes_plain {c : UInt8} (hne : c ≠ 92) (hq : c ≠ 34) (hz : c ≠ 0) (current p : Bytes) :
    inQuotes current (c :: p) = inQuotes (current ++ [c]) p := by
  rw [inQuotes.eq_def]
  split <;> simp_all

/-- The loop reads back what the writer puts for a byte. -/
lemma inQuotes_escape (current p : Bytes) (c : UInt8) :
    inQuotes current (escape c ++ p) = inQuotes (current ++ [c]) p := by
  fun_cases escape c with
  | case1 | case2 | case3 | case4 | case5 | case6 | case7 => simp [inQuotes, unescape]
  | case8 _ hprint hbs hq =>
    have hz : c ≠ 0 := by
      rintro rfl
      cases hprint
    rw [if_pos hprint]
    exact inQuotes_plain hbs hq hz current p
  | case9 _ hprint =>
    obtain ⟨ha, hb, heq⟩ := hexDigit_spec c
    rw [if_neg hprint]
    show inQuotes current (92 :: 120 :: hexDigit (c / 16) :: hexDigit (c % 16) :: p) = _
    rw [inQuotes, if_pos ⟨ha, hb⟩, heq]

lemma inQuotes_flatMap (s current : Bytes) {p : Bytes} (hp : closes p) :
    inQuotes current (s.flatMap escape ++ 34 :: p) = (skipBlanks p).map ((current ++ s) :: ·) := by
  induction s generalizing current with
  | nil => simp [inQuotes, hp]
  | cons c s ih => rw [List.flatMap_cons, List.append_assoc, inQuotes_escape, ih, List.append_assoc, List.singleton_append]

/-- A quoted string at the front of a line is its first argument. -/
lemma skipBlanks_repr (s : Bytes) {p : Bytes} (hp : closes p) :
    skipBlanks (sdscatrepr [] s ++ p) = (skipBlanks p).map (s :: ·) := by
  have hline : sdscatrepr [] s ++ p = 34 :: (s.flatMap escape ++ 34 :: p) := by simp [sdscatrepr]
  rw [hline, skipBlanks]
  exact inQuotes_flatMap s [] hp

/-- A line of quoted strings, joined with single spaces, is split into the strings. -/
theorem sdssplitargs_sdscatrepr (args : List Bytes) :
    sdssplitargs ([32].intercalate (args.map (sdscatrepr []))) = some args := by
  rw [sdssplitargs]
  induction args with
  | nil => rfl
  | cons s args ih =>
    cases args with
    | nil =>
      rw [List.map_singleton, List.intercalate_singleton, ← List.append_nil (sdscatrepr [] s), skipBlanks_repr s rfl]
      rfl
    | cons s' args =>
      rw [List.map_cons, List.map_cons, List.intercalate_cons_cons, ← List.map_cons, List.append_assoc,
        skipBlanks_repr s rfl, List.singleton_append, skipBlanks]
      exact congrArg _ ih

end JitRedis.Quoting
