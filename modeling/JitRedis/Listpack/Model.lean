import JitRedis.Util.Numbers

/-!
# Listpacks, element by element

Model of `src/listpack.c` on the sequence of elements. The header field with the total size has 32 bits, so
that a listpack carries the bound on its size. A pointer to an element is its position, `none` is `NULL`.
-/

namespace JitRedis

open Fallible

/-- An element: an integer in the smallest encoding that fits, or a string. -/
inductive LpElement where
  | int (v : Int)
  | str (s : Bytes)
  deriving DecidableEq, Repr

/-- The size of an encoded element (`enclen` of `lpEncodeGetType`). -/
def LpElement.enclen : LpElement → Nat
  | .int v =>
    if 0 ≤ v ∧ v ≤ 127 then 1
    else if -4096 ≤ v ∧ v ≤ 4095 then 2
    else if -32768 ≤ v ∧ v ≤ 32767 then 3
    else if -8388608 ≤ v ∧ v ≤ 8388607 then 4
    else if -2147483648 ≤ v ∧ v ≤ 2147483647 then 5
    else 9
  | .str s => if s.length < 64 then 1 + s.length else if s.length < 4096 then 2 + s.length else 5 + s.length

/-- The size of the length behind an element (`lpEncodeBacklen`). -/
def lpEncodeBacklen (l : Nat) : Nat :=
  if l ≤ 127 then 1 else if l < 16383 then 2 else if l < 2097151 then 3 else if l < 268435455 then 4 else 5

def LpElement.size (e : LpElement) : Nat := e.enclen + lpEncodeBacklen e.enclen

def lpTotalBytes (elements : List LpElement) : Nat := 7 + (elements.map LpElement.size).sum

def uint32Max : Nat := 2 ^ 32 - 1

structure Listpack where
  elements : List LpElement
  small : lpTotalBytes elements ≤ uint32Max

@[ext] lemma Listpack.ext {lp lp' : Listpack} (h : lp.elements = lp'.elements) : lp = lp' := by
  cases lp
  cases lp'
  cases h
  rfl

instance : DecidableEq Listpack := fun lp lp' =>
  decidable_of_iff (lp.elements = lp'.elements) ⟨Listpack.ext, fun h => by rw [h]⟩

def lpBytes (lp : Listpack) : Nat := lpTotalBytes lp.elements

def lpNew : Listpack := ⟨[], by decide⟩

/-- `lpStringToInt64` makes the same checks as `string2ll`. -/
def lpStringToInt64 (s : Bytes) : Option Int := string2ll s

/-- The element that is stored for a string (`lpEncodeGetType`). -/
def lpEncode (s : Bytes) : LpElement :=
  match lpStringToInt64 s with
  | some v => .int v
  | none => .str s

/-- The bytes of a string that a `size` of 32 bits covers. -/
def lpSized (s : Bytes) : Bytes := s.take (s.length % 2 ^ 32)

/-- `where` of `lpInsert`. -/
inductive LpWhere where
  | before
  | replace
  deriving DecidableEq, Repr

/-- `lpInsert` of a string; `p` may be the position after the last element. The fault also stands for the strings of
`2 ^ 32 - 5` bytes and more that the code writes past the end of the block (`RawListpack.lpInsert`). -/
def lpInsert (lp : Listpack) (ele : Bytes) (p : Nat) (w : LpWhere) : Except Fault Listpack :=
  let e := lpEncode (lpSized ele)
  let elements := match w with
    | .before => lp.elements.take p ++ e :: lp.elements.drop p
    | .replace => lp.elements.set p e
  if small : lpTotalBytes elements ≤ uint32Max then .ok ⟨elements, small⟩ else .error .listpackFull

def lpAppend (lp : Listpack) (ele : Bytes) : Except Fault Listpack :=
  lpInsert lp ele lp.elements.length .before

def lpFirst (lp : Listpack) : Option Nat := if lp.elements.length = 0 then none else some 0

def lpLast (lp : Listpack) : Option Nat := if lp.elements.length = 0 then none else some (lp.elements.length - 1)

def lpNext (lp : Listpack) : Option Nat → Except Fault (Option Nat)
  | none => .error .badAccess
  | some i =>
    if i < lp.elements.length then .ok (if i + 1 < lp.elements.length then some (i + 1) else none)
    else .error .badAccess

def lpPrev (lp : Listpack) : Option Nat → Except Fault (Option Nat)
  | none => .error .badAccess
  | some i => if i < lp.elements.length then .ok (if i = 0 then none else some (i - 1)) else .error .badAccess

/-- The element that `lpGet` reads. -/
def lpElementAt (lp : Listpack) (p : Option Nat) : Except Fault LpElement :=
  match p.bind (lp.elements[·]?) with
  | some e => .ok e
  | none => .error .badAccess

/-- The text of an element, an integer being printed with `%lld`. -/
def LpElement.text : LpElement → Bytes
  | .int v => ll2string v
  | .str s => s

/-- `lpGet` with a buffer. -/
def lpGet (lp : Listpack) (p : Option Nat) : Except Fault Bytes := do
  let e ← lpElementAt lp p
  .ok e.text

def lpAppendInteger (lp : Listpack) (value : Int) : Except Fault Listpack := lpAppend lp (ll2string value)

/-- `lpReplaceInteger`; the replaced element keeps its position. -/
def lpReplaceInteger (lp : Listpack) (pos : Option Nat) (value : Int) : Except Fault Listpack :=
  match pos with
  | some p => if p < lp.elements.length then lpInsert lp (ll2string value) p .replace else .error .badAccess
  | none => .error .badAccess

def LpElement.toInteger : LpElement → Except Fault Int
  | .int v => .ok v
  | .str s =>
    match string2ll s with
    | some ll => .ok ll
    | none => .error .assertFailed

def lpGetInteger (lp : Listpack) (p : Option Nat) : Except Fault Int := do
  let e ← lpElementAt lp p
  e.toInteger

/-- A loop of `lpNext`. -/
def lpNextTimes (lp : Listpack) : Nat → Option Nat → Except Fault (Option Nat)
  | 0, p => .ok p
  | n + 1, p => do
    let p ← lpNext lp p
    lpNextTimes lp n p

/-- A loop of `lpPrev`. -/
def lpPrevTimes (lp : Listpack) : Nat → Option Nat → Except Fault (Option Nat)
  | 0, p => .ok p
  | n + 1, p => do
    let p ← lpPrev lp p
    lpPrevTimes lp n p

lemma two_le_size (e : LpElement) : 2 ≤ e.size := by
  have henc : 1 ≤ e.enclen := by
    cases e with
    | int v | str s =>
      rw [LpElement.enclen]
      repeat' split
      all_goals omega
  have hback : 1 ≤ lpEncodeBacklen e.enclen := by
    rw [lpEncodeBacklen]
    repeat' split
    all_goals omega
  rw [LpElement.size]
  omega

lemma Listpack.length_lt (lp : Listpack) : lp.elements.length < 2 ^ 31 := by
  have bound : ∀ l : List LpElement, 2 * l.length ≤ (l.map LpElement.size).sum := by
    intro l
    induction l with
    | nil => simp
    | cons e l ih =>
      have := two_le_size e
      rw [List.length_cons, List.map_cons, List.sum_cons]
      omega
  have := lp.small
  have := bound lp.elements
  rw [lpTotalBytes, uint32Max] at *
  omega

@[simp] lemma text_lpEncode (s : Bytes) : (lpEncode s).text = s := by
  rw [lpEncode]
  split
  · rename_i v h
    exact ll2string_of_string2ll h
  · rfl

lemma lpEncode_ll2string {v : Int} (low : -2 ^ 63 ≤ v) (high : v < 2 ^ 63) :
    lpEncode (ll2string v) = .int v := by
  rw [lpEncode, lpStringToInt64, string2ll_ll2string low high]

lemma lpSized_eq {s : Bytes} (h : s.length < 2 ^ 32) : lpSized s = s := by
  rw [lpSized, Nat.mod_eq_of_lt h, List.take_length]

lemma lpSized_ll2string (v : Int) : lpSized (ll2string v) = ll2string v := by
  apply lpSized_eq
  have := length_ll2string_le v
  omega

end JitRedis
