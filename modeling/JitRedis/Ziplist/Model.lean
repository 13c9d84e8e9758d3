import JitRedis.Util.Numbers

/-!
# Ziplists, entry by entry

Model of the editing functions of `src/ziplist.c` on the sequence of entries. An entry is the form of
its `prevlen` field (one byte, or five) and its value; the number stored in `prevlen` is the raw length
of the entry before it and is left implicit, and so are `zlbytes`, `zltail` and `zllen`, which are
functions of the entries. A pointer to an entry is its position, and the position after the last one is
`ZIP_END`. `ziplistResize` takes the new size as `unsigned int`: a ziplist that would reach `2 ^ 32`
bytes overwrites memory (`Fault.overflow`).
-/

namespace JitRedis

open Fallible List

/-- What an entry holds: a string, or an integer in the smallest encoding that fits. -/
inductive ZlValue where
  | str (s : Bytes)
  | int (v : Int)
  deriving DecidableEq, Repr

/-- An entry: whether `prevlen` takes five bytes, and the value. -/
structure ZlEntry where
  big : Bool
  value : ZlValue
  deriving DecidableEq, Repr

abbrev Ziplist := List ZlEntry

/-- `zipIntSize` of the encoding that `zipTryEncoding` chooses. -/
def zipIntSize (v : Int) : Nat :=
  if 0 ≤ v ∧ v ≤ 12 then 0
  else if -2 ^ 7 ≤ v ∧ v < 2 ^ 7 then 1
  else if -2 ^ 15 ≤ v ∧ v < 2 ^ 15 then 2
  else if -2 ^ 23 ≤ v ∧ v < 2 ^ 23 then 3
  else if -2 ^ 31 ≤ v ∧ v < 2 ^ 31 then 4
  else 8

/-- The bytes of the encoding header (`zipStoreEntryEncoding`). -/
def ZlValue.lensize : ZlValue → Nat
  | .str s => if s.length ≤ 0x3f then 1 else if s.length ≤ 0x3fff then 2 else 5
  | .int _ => 1

/-- The bytes of the payload. -/
def ZlValue.len : ZlValue → Nat
  | .str s => s.length
  | .int v => zipIntSize v

/-- The text of a value: what `ziplistGet` returns, an integer being written by `ll2string`. -/
def ZlValue.text : ZlValue → Bytes
  | .str s => s
  | .int v => ll2string v

def zipTryEncoding (s : Bytes) : Option Int :=
  if 32 ≤ s.length ∨ s.length = 0 then none else string2ll s

def zipEncode (s : Bytes) : ZlValue :=
  match zipTryEncoding s with
  | some v => .int v
  | none => .str s

/-- Whether a previous length needs the five byte form (`ZIP_BIG_PREVLEN`). -/
def bigPrevlen (len : Nat) : Bool := decide (254 ≤ len)

/-- `zipRawEntryLength` -/
def ZlEntry.rawlen (e : ZlEntry) : Nat :=
  (if e.big then 5 else 1) + e.value.lensize + e.value.len

/-- `ziplistBlobLen`: header, entries and end marker. -/
def ziplistBlobLen (zl : Ziplist) : Nat := 11 + (zl.map ZlEntry.rawlen).sum

def ziplistLen (zl : Ziplist) : Nat := zl.length

def ziplistNew : Ziplist := []

/-- `ziplistResize` fails to hold a ziplist of `2 ^ 32` bytes or more. -/
def ziplistResize (zl : Ziplist) : Except Fault Ziplist :=
  if 2 ^ 32 ≤ ziplistBlobLen zl then .error .overflow else .ok zl

/-- `__ziplistCascadeUpdate`: `prevlen` fields grow as long as they have to, and never shrink. -/
def cascadeUpdate : Nat → Ziplist → Ziplist
  | _, [] => []
  | rawlen, next :: rest =>
    if bigPrevlen rawlen ∧ next.big = false then
      let next := { next with big := true }
      next :: cascadeUpdate next.rawlen rest
    else
      next :: rest

/-- Store the `prevlen` of the first entry in the given form; a changed size cascades. -/
def storePrevlen (big : Bool) : Ziplist → Ziplist
  | [] => []
  | next :: rest =>
    if next.big = big then
      next :: rest
    else
      let next := { next with big }
      next :: cascadeUpdate next.rawlen rest

/-- The raw length of the entry before a position, 0 at the head. -/
def prevlenAt (zl : Ziplist) (p : Nat) : Nat := ((zl.take p).getLast?.map ZlEntry.rawlen).getD 0

/-- `__ziplistInsert` at position `p`. -/
def ziplistInsert (zl : Ziplist) (p : Nat) (s : Bytes) : Except Fault Ziplist :=
  let e : ZlEntry := { big := bigPrevlen (prevlenAt zl p), value := zipEncode s }
  let reqlen := e.rawlen
  -- `forcelarge`: a short entry does not make room for the four bytes that would be freed.
  let forcelarge := reqlen < 4 ∧ (zl[p]?.map ZlEntry.big) = some true
  ziplistResize (zl.take p ++ e :: storePrevlen (if forcelarge then true else bigPrevlen reqlen)
    (zl.drop p))

def ziplistPush (zl : Ziplist) (s : Bytes) (head : Bool) : Except Fault Ziplist :=
  ziplistInsert zl (if head then 0 else zl.length) s

/-- `__ziplistDelete` of `num` entries at position `p`. -/
def ziplistDelete (zl : Ziplist) (p num : Nat) : Except Fault Ziplist :=
  if num = 0 ∨ zl.length ≤ p then
    .ok zl
  else
    ziplistResize (zl.take p ++ storePrevlen (bigPrevlen (prevlenAt zl p)) (zl.drop (p + num)))

/-- `ziplistIndex`: a negative index counts from the tail. -/
def ziplistIndex (zl : Ziplist) (index : Int) : Option Nat :=
  if index < 0 then
    let back := (-index - 1).toNat
    if back < zl.length then some (zl.length - 1 - back) else none
  else
    if index.toNat < zl.length then some index.toNat else none

def ziplistDeleteRange (zl : Ziplist) (index : Int) (num : Nat) : Except Fault Ziplist :=
  match ziplistIndex zl index with
  | none => .ok zl
  | some p => ziplistDelete zl p num

def ziplistNext (zl : Ziplist) (p : Nat) : Option Nat :=
  if p + 1 < zl.length then some (p + 1) else none

def ziplistPrev (zl : Ziplist) (p : Nat) : Option Nat :=
  if zl.length ≤ p then (if zl.length = 0 then none else some (zl.length - 1))
  else if p = 0 then none
  else some (p - 1)

/-- `ziplistMerge`: the merged ziplist, and whether the buffer of `first` was kept. Merging an empty
ziplist behind another leaves the tail offset on the end marker, which is no ziplist any more. -/
def ziplistMerge (first second : Ziplist) : Except Fault (Ziplist × Bool) :=
  if second = [] then
    .error .badAccess
  else do
    let keepFirst := decide (min second.length 65535 ≤ min first.length 65535)
    let merged := match first.getLast? with
      | none => second
      | some tail => first ++ cascadeUpdate tail.rawlen second
    let zl ← ziplistResize merged
    .ok (zl, keepFirst)

/-- The strings that a ziplist stands for. -/
def Ziplist.texts (zl : Ziplist) : List Bytes := zl.map fun e => e.value.text

@[simp] lemma length_texts (zl : Ziplist) : zl.texts.length = zl.length := length_map _

@[simp] lemma values_cascadeUpdate (rawlen : Nat) (zl : Ziplist) :
    (cascadeUpdate rawlen zl).map ZlEntry.value = zl.map ZlEntry.value := by
  induction zl generalizing rawlen with
  | nil => rfl
  | cons next rest ih =>
    rw [cascadeUpdate]
    split
    · rw [map_cons, map_cons, ih]
    · rfl

@[simp] lemma values_storePrevlen (big : Bool) (zl : Ziplist) :
    (storePrevlen big zl).map ZlEntry.value = zl.map ZlEntry.value := by
  cases zl with
  | nil => rfl
  | cons next rest =>
    rw [storePrevlen]
    split
    · rfl
    · rw [map_cons, map_cons, values_cascadeUpdate]

lemma texts_eq_map (zl : Ziplist) : zl.texts = (zl.map ZlEntry.value).map ZlValue.text := by
  rw [map_map]
  rfl

@[simp] lemma texts_cascadeUpdate (rawlen : Nat) (zl : Ziplist) :
    Ziplist.texts (cascadeUpdate rawlen zl) = Ziplist.texts zl := by
  rw [texts_eq_map, values_cascadeUpdate, texts_eq_map]

@[simp] lemma texts_storePrevlen (big : Bool) (zl : Ziplist) :
    Ziplist.texts (storePrevlen big zl) = Ziplist.texts zl := by
  rw [texts_eq_map, values_storePrevlen, texts_eq_map]

@[simp] lemma text_zipEncode (s : Bytes) : (zipEncode s).text = s := by
  rw [zipEncode]
  cases h : zipTryEncoding s with
  | none => rfl
  | some v =>
    rw [zipTryEncoding] at h
    split at h
    · cases h
    · exact ll2string_of_string2ll h

lemma ziplistResize_spec (zl : Ziplist) :
    Sat (· = .overflow) (fun zl' => zl' = zl ∧ ziplistBlobLen zl < 2 ^ 32) (ziplistResize zl) := by
  rw [ziplistResize]
  split
  · rfl
  · rename_i h
    exact ⟨rfl, Nat.not_le.mp h⟩

lemma ziplistInsert_spec (zl : Ziplist) (p : Nat) (s : Bytes) :
    Sat (· = .overflow) (fun zl' => zl'.texts = zl.texts.take p ++ s :: zl.texts.drop p ∧
      ziplistBlobLen zl' < 2 ^ 32) (ziplistInsert zl p s) := by
  refine (ziplistResize_spec _).mono ?_
  rintro zl' ⟨rfl, fits⟩
  refine ⟨?_, fits⟩
  have rest := texts_storePrevlen (if ZlEntry.rawlen ⟨bigPrevlen (prevlenAt zl p), zipEncode s⟩ < 4 ∧
    (zl[p]?.map ZlEntry.big) = some true then true else
      bigPrevlen (ZlEntry.rawlen ⟨bigPrevlen (prevlenAt zl p), zipEncode s⟩)) (zl.drop p)
  simp only [Ziplist.texts, map_append, map_cons, map_take, map_drop,
    text_zipEncode] at rest ⊢
  rw [rest]

lemma ziplistPush_spec (zl : Ziplist) (s : Bytes) (head : Bool) :
    Sat (· = .overflow) (fun zl' => zl'.texts = (if head then s :: zl.texts else zl.texts ++ [s]) ∧
      ziplistBlobLen zl' < 2 ^ 32) (ziplistPush zl s head) := by
  refine (ziplistInsert_spec zl _ s).mono ?_
  rintro zl' ⟨h, fits⟩
  refine ⟨?_, fits⟩
  cases head with
  | true => simpa using h
  | false =>
    rw [if_neg Bool.false_ne_true, ← length_texts, take_length, drop_length] at h
    exact h

lemma ziplistDelete_spec (zl : Ziplist) (p num : Nat) (small : ziplistBlobLen zl < 2 ^ 32) :
    Sat (· = .overflow) (fun zl' => zl'.texts = zl.texts.take p ++ zl.texts.drop (p + num) ∧
      ziplistBlobLen zl' < 2 ^ 32) (ziplistDelete zl p num) := by
  rw [ziplistDelete]
  split
  · rename_i h
    refine ⟨?_, small⟩
    rcases h with rfl | h
    · simp
    · rw [← length_texts] at h
      rw [take_of_length_le h, drop_eq_nil_of_le (by omega), append_nil]
  refine (ziplistResize_spec _).mono ?_
  rintro zl' ⟨rfl, fits⟩
  refine ⟨?_, fits⟩
  have rest := texts_storePrevlen (bigPrevlen (prevlenAt zl p)) (zl.drop (p + num))
  simp only [Ziplist.texts, map_append, map_take, map_drop] at rest ⊢
  rw [rest]

lemma ziplistDelete_values {zl zl' : Ziplist} {p num : Nat} (h : ziplistDelete zl p num = .ok zl') :
    ∀ e' ∈ zl', ∃ e ∈ zl, e.value = e'.value := by
  rw [ziplistDelete] at h
  split at h
  · cases h
    exact fun e' he' => ⟨e', he', rfl⟩
  obtain ⟨rfl, -⟩ := (ziplistResize_spec _).of_eq h
  intro e' he'
  have hvalue := mem_map_of_mem (f := ZlEntry.value) he'
  rw [map_append, values_storePrevlen, ← map_append] at hvalue
  obtain ⟨e, he, heq⟩ := mem_map.mp hvalue
  rcases mem_append.mp he with he | he
  · exact ⟨e, mem_of_mem_take he, heq⟩
  · exact ⟨e, mem_of_mem_drop he, heq⟩

lemma ziplistDelete_fault (zl : Ziplist) (p num : Nat) :
    Sat (· = .overflow) (fun _ => True) (ziplistDelete zl p num) := by
  rw [ziplistDelete]
  split
  · trivial
  · exact (ziplistResize_spec _).mono fun _ _ => trivial

lemma ziplistDeleteRange_fault (zl : Ziplist) (index : Int) (num : Nat) :
    Sat (· = .overflow) (fun _ => True) (ziplistDeleteRange zl index num) := by
  rw [ziplistDeleteRange]
  split
  · trivial
  · exact ziplistDelete_fault ..

lemma ziplistMerge_fault (first second : Ziplist) :
    Sat (fun f => f = .overflow ∨ f = .badAccess) (fun _ => True) (ziplistMerge first second) := by
  rw [ziplistMerge]
  split
  · exact .inr rfl
  · exact ((ziplistResize_spec _).weaken .inl).bind fun _ _ => trivial

end JitRedis
