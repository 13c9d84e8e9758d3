import JitRedis.Listpack.Navigation

/-!
# Editing a listpack

`lpInsert` edits the sequence of entries. The size of an encoded string is computed with 32 bits, so that for the longest
strings too little memory is reserved.
-/

namespace JitRedis.RawListpack

open Fallible List LittleEndian Memory LpItem

lemma lpRelocate_eq (junk : Nat → UInt8) (a old suf : Bytes) {new size : Nat}
    (hnew : new = a.length + size + suf.length) :
    ∃ g, g.length = size ∧ lpRelocate junk (a ++ (old ++ suf)) (a ++ (old ++ suf)).length new a.length size old.length =
      .ok (a ++ (g ++ suf)) := by
  have hlen : (a ++ (old ++ suf)).length = a.length + (old.length + suf.length) := by
    rw [length_append, length_append]
  have htail : (a ++ (old ++ suf)).length - a.length - old.length = suf.length := by omega
  by_cases hgrow : old.length < size
  · obtain ⟨x, hx, hrealloc⟩ := realloc_grow junk (a ++ (old ++ suf)) (size - old.length)
    obtain ⟨g, hg, hmove⟩ := move_up (e := Fault.badAccess) (f := Fault.overflow) (a := a) (b := old) (c := suf)
      (x := x) (z := []) rfl
    have hsize : old.length + x.length = size := by omega
    rw [hsize, append_nil, append_nil] at hmove
    rw [hsize] at hg
    refine ⟨g, hg, ?_⟩
    rw [lpRelocate, if_pos (by omega), htail, show new = (a ++ (old ++ suf)).length + (size - old.length) by omega, hrealloc,
      append_assoc, append_assoc, hmove, ok_bind, if_neg (by omega)]
  obtain ⟨g, t, hg, ht, hmove⟩ := move_down (e := Fault.badAccess) (f := Fault.overflow)
    (m := a ++ (old ++ suf)) (p := size) rfl (by omega)
  refine ⟨g, hg, ?_⟩
  rw [lpRelocate, if_neg (by omega), htail, hmove, ok_bind]
  split
  · rw [show a ++ (g ++ (suf ++ t)) = a ++ (g ++ suf) ++ t by simp only [append_assoc],
      show new = (a ++ (g ++ suf)).length by rw [length_append, length_append, hg]; omega,
      realloc_shrink]
  · rw [eq_nil_of_length_eq_zero (show t.length = 0 by omega), append_nil]

lemma encodes_lpEncodeGetType (s : LpString) : Encodes (lpEncodeGetType s.1).2 (lpEncode s.1) := by
  rw [lpEncodeGetType, lpEncode]
  cases hv : lpStringToInt64 s.1 with
  | some v =>
    obtain ⟨low, high⟩ := string2ll_range hv
    exact encodes_lpEncodeInt low high
  | none => exact encodes_lpEncodeString s.2

def LpItem.ofString (s : LpString) : LpItem := ⟨(lpEncodeGetType s.1).2, lpEncode s.1, encodes_lpEncodeGetType s⟩

lemma enclen_eq {s : Bytes} (hs : s.length < 2 ^ 32 - 5) : (lpEncodeGetType s).1 = (lpEncodeGetType s).2.length := by
  rw [lpEncodeGetType]
  cases lpStringToInt64 s with
  | some v => rfl
  | none =>
    simp only [lpStringEnclen, lpEncodeString]
    split
    · rw [length_cons, Nat.add_comm]
    split
    · rw [length_cons, length_cons, Nat.add_comm]
    · rw [length_cons, length_append, length_encode, Nat.mod_eq_of_lt (by omega)]
      omega

lemma enclen_wraps {s : Bytes} (hs : 2 ^ 32 - 5 ≤ s.length) (hlt : s.length < 2 ^ 32) :
    (lpEncodeGetType s).1 = s.length + 5 - 2 ^ 32 ∧ (lpEncodeGetType s).2.length = s.length + 5 := by
  have hnone : lpStringToInt64 s = none := by
    cases hv : lpStringToInt64 s with
    | none => rfl
    | some v =>
      have hlen := length_ll2string_le v
      rw [ll2string_of_string2ll hv] at hlen
      omega
  rw [lpEncodeGetType, hnone]
  simp only [lpStringEnclen, lpEncodeString]
  rw [if_neg (by omega), if_neg (by omega), if_neg (by omega), if_neg (by omega), length_cons, length_append,
    length_encode]
  omega

/-- The entries that a call of `lpInsertAt` replaces, and those it puts in their place. -/
inductive Splices : List LpItem → List LpItem → Option LpString → Bool → Prop where
  | insert {s} : s.1.length < 2 ^ 32 - 5 → Splices [] [LpItem.ofString s] (some s) false
  | replace {x s} : s.1.length < 2 ^ 32 - 5 → Splices [x] [LpItem.ofString s] (some s) true
  | delete {x} : Splices [x] [] none true

lemma Splices.size {M N ele} {replace : Bool} (h : Splices M N ele replace) :
    lpEntrySize ele = (entries N).length := by
  cases h with
  | insert hs | replace hs =>
    rw [lpEntrySize, entries_cons, raw, ofString, enclen_eq hs]
    simp only [length_append, entries, flatMap_nil, length_nil, Nat.add_zero]
  | delete => rfl

lemma lpStoreEntry_some (m : Bytes) (p : Nat) (s : LpString) : lpStoreEntry m p (some s) =
    store Fault.overflow m p (lpEncodeGetType s.1).2 >>= fun m =>
      store Fault.overflow m (p + (lpEncodeGetType s.1).1) (lpEncodeBacklen (lpEncodeGetType s.1).1) := rfl

variable {s : LpString} {a g : Bytes} {num k : Nat} {items : List LpItem} {w : LpWhere}

lemma lpStoreEntry_eq (hs : s.1.length < 2 ^ 32 - 5) {suf : Bytes}
    (hg : g.length = (entries [ofString s]).length) :
    lpStoreEntry (a ++ (g ++ suf)) a.length (some s) = .ok (a ++ (entries [ofString s] ++ suf)) := by
  have hentry : entries [ofString s] =
      (lpEncodeGetType s.1).2 ++ lpEncodeBacklen (lpEncodeGetType s.1).2.length := append_nil _
  rw [hentry] at hg ⊢
  rw [lpStoreEntry_some, enclen_eq hs]
  set enc := (lpEncodeGetType s.1).2
  rw [length_append] at hg
  have hsplit : a ++ (g ++ suf) = a ++ (g.take enc.length ++ (g.drop enc.length ++ suf)) := by
    rw [← append_assoc (g.take _), take_append_drop]
  rw [store_eq hsplit rfl (by rw [length_take]; omega), ok_bind,
    store_eq (a := a ++ enc) (b := g.drop enc.length) (c := suf) (append_assoc _ _ _).symm
      length_append.symm (by rw [length_drop]; omega)]
  simp only [append_assoc]

lemma Splices.store {M N ele} {replace : Bool} (h : Splices M N ele replace)
    {suf : Bytes} (hg : g.length = (entries N).length) :
    lpStoreEntry (a ++ (g ++ suf)) a.length ele = .ok (a ++ (entries N ++ suf)) := by
  cases h with
  | insert hs => exact lpStoreEntry_eq hs hg
  | replace hs => exact lpStoreEntry_eq hs hg
  | delete =>
    rw [eq_nil_of_length_eq_zero hg]
    rfl

lemma lpSetNumElements_eq (t num n : Nat) (rest : Bytes) :
    lpSetNumElements (encode 4 t ++ (encode 2 num ++ rest)) n =
      .ok (encode 4 t ++ (encode 2 n ++ rest)) :=
  putNumber_eq rfl (length_encode 4 t).symm (length_encode 2 num)

lemma Splices.count {M N ele} {replace : Bool} (h : Splices M N ele replace)
    {n : Nat} (t : Nat) (rest : Bytes) (hnum : CountField num (n + M.length)) :
    ∃ num', CountField num' (n + N.length) ∧
      lpCountElement (encode 4 t ++ (encode 2 num ++ rest)) ele replace =
        .ok (encode 4 t ++ (encode 2 num' ++ rest)) := by
  have hlt := hnum.lt
  have hget : lpGetNumElements (encode 4 t ++ (encode 2 num ++ rest)) = .ok num := by
    rw [lpGetNumElements, numberAt_eq rfl (length_encode 4 t).symm (length_encode 2 num).symm,
      decode_encode hlt]
  cases h with
  | insert hs =>
    rw [lpCountElement, Bool.not_false, Bool.true_or, if_pos rfl, hget, ok_bind]
    rcases hnum with ⟨hval, hn⟩ | rfl
    · refine ⟨num + 1, ?_, ?_⟩
      · unfold CountField at *
        rw [length_nil] at hval hn
        rw [length_singleton]
        omega
      · rw [if_pos (by rw [hval]; exact numele_known hn), Option.isSome_some, if_pos rfl, lpSetNumElements_eq]
    · exact ⟨65535, .inr rfl, if_neg numele_unknown⟩
  | replace hs => exact ⟨num, hnum, rfl⟩
  | delete =>
    rw [lpCountElement, Option.isNone_none, Bool.or_true, if_pos rfl, hget, ok_bind]
    rcases hnum with ⟨hval, hn⟩ | rfl
    · refine ⟨(num + (2 ^ 32 - 1)) % 2 ^ 32, ?_, ?_⟩
      · unfold CountField at *
        rw [length_singleton] at hval hn
        rw [length_nil]
        omega
      · rw [if_pos (by rw [hval]; exact numele_known hn), Option.isSome_none, if_neg Bool.false_ne_true, lpSetNumElements_eq]
    · exact ⟨65535, .inr rfl, if_neg numele_unknown⟩

lemma lpEntrySize_lt (ele : Option LpString) : lpEntrySize ele < 2 ^ 33 := by
  cases ele with
  | none =>
    rw [lpEntrySize]
    omega
  | some s =>
    have henc : (lpEncodeGetType s.1).1 < 2 ^ 32 := by
      rw [lpEncodeGetType]
      cases lpStringToInt64 s.1 with
      | some v =>
        have hlen : (lpEncodeInt v).length ≤ 9 := by
          rw [lpEncodeInt]
          split_ifs <;> simp only [length_cons, length_nil, length_encode] <;> omega
        dsimp only
        omega
      | none =>
        simp only [lpStringEnclen]
        split_ifs <;> omega
    have hback : (lpEncodeBacklen (lpEncodeGetType s.1).1).length ≤ 5 := by
      rw [length_lpEncodeBacklen, JitRedis.lpEncodeBacklen]
      split_ifs <;> omega
    rw [lpEntrySize]
    omega

section Splice

variable {lp : Bytes} {L M N R : List LpItem} {ele : Option LpString} {replace : Bool}

lemma Lays.blocks (h : Lays lp (L ++ (M ++ R))) : ∃ num, CountField num (L.length + R.length + M.length) ∧
    lp = (encode 4 lp.length ++ (encode 2 num ++ entries L)) ++
      (entries M ++ (entries R ++ [lpEof])) := by
  obtain ⟨num, hnum, hlp⟩ := h.bytes
  refine ⟨num, ?_, ?_⟩
  · rwa [length_append, length_append, Nat.add_comm M.length, ← Nat.add_assoc] at hnum
  · rw [entries_append, entries_append] at hlp
    simpa only [append_assoc] using hlp

lemma lays_block (hnum : CountField num items.length)
    (hsmall : lpHdrSize + (entries items).length + 1 ≤ uint32Max) :
    Lays (encode 4 (lpHdrSize + (entries items).length + 1) ++
      (encode 2 num ++ (entries items ++ [lpEof]))) items := by
  have hlen : (encode 4 (lpHdrSize + (entries items).length + 1) ++
      (encode 2 num ++ (entries items ++ [lpEof]))).length = lpHdrSize + (entries items).length + 1 := by
    simp only [length_append, length_encode, length_singleton, lpHdrSize]
    omega
  exact ⟨⟨num, hnum, by rw [hlen]⟩, by rw [hlen]; exact hsmall⟩

lemma Lays.replacedLen (h : Lays lp (L ++ (M ++ R))) (hM : M.length = if replace then 1 else 0) :
    lpReplacedLen lp (lpHdrSize + (entries L).length) replace = .ok (entries M).length := by
  cases replace with
  | false =>
    rw [eq_nil_of_length_eq_zero hM]
    rfl
  | true =>
    obtain ⟨x, rfl⟩ := length_eq_one_iff.mp hM
    obtain ⟨num, -, hlp⟩ := h.blocks
    have hsmall := h.small
    have hlen := congrArg List.length hlp
    have hx : entries [x] = x.bytes ++ lpEncodeBacklen x.bytes.length := append_nil _
    simp only [length_append, hx, length_encode] at hlen
    rw [uint32Max] at hsmall
    rw [hx, append_assoc x.bytes] at hlp
    have hpos : lpHdrSize + (entries L).length =
        (encode 4 lp.length ++ (encode 2 num ++ entries L)).length := by
      simp only [length_append, length_encode, lpHdrSize]
      omega
    rw [lpReplacedLen, if_pos rfl, lpCurrentEncodedSize_eq x.encodes hlp hpos (by omega), ok_bind, hx, length_append,
      Nat.mod_eq_of_lt (by omega)]

lemma Lays.insertAt_start (h : Lays lp (L ++ (M ++ R))) (hM : M.length = if replace then 1 else 0)
    (junk : Nat → UInt8) {p new : Nat} (hp : p = lpHdrSize + (entries L).length)
    (hnew : new + (entries M).length = lp.length + lpEntrySize ele) :
    lpInsertAt junk lp ele p replace =
      if uint32Max < new then .ok none
      else lpRelocate junk lp lp.length new p (lpEntrySize ele) (entries M).length >>= fun m =>
        lpWriteEntry m ele p replace new := by
  have hsize := lpEntrySize_lt ele
  have hsmall := h.small
  rw [uint32Max] at hsmall
  have hmod : (lp.length + lpEntrySize ele + 2 ^ 64 - (entries M).length) % 2 ^ 64 = new := by omega
  subst hp
  rw [lpInsertAt, h.getTotalBytes, ok_bind, h.replacedLen hM, ok_bind, hmod]

lemma Lays.relocated (h : Lays lp (L ++ (M ++ R))) (junk : Nat → UInt8) {p new size : Nat}
    (hp : p = lpHdrSize + (entries L).length) (hnew : new + (entries M).length = lp.length + size) :
    ∃ num g, CountField num (L.length + R.length + M.length) ∧ g.length = size ∧
      lpRelocate junk lp lp.length new p size (entries M).length =
        .ok ((encode 4 lp.length ++ (encode 2 num ++ entries L)) ++
          (g ++ (entries R ++ [lpEof]))) := by
  obtain ⟨num, hnum, hlp⟩ := h.blocks
  set a := encode 4 lp.length ++ (encode 2 num ++ entries L) with ha
  have halen : a.length = p := by
    rw [ha, hp]
    simp only [length_append, length_encode, lpHdrSize]
    omega
  have hlen : lp.length = a.length + ((entries M).length + (entries R ++ [lpEof]).length) := by
    rw [← length_append, ← length_append, ← hlp]
  have hsize : new = a.length + size + (entries R ++ [lpEof]).length := by omega
  obtain ⟨g, hg, hrel⟩ := lpRelocate_eq junk a (entries M) (entries R ++ [lpEof]) hsize
  rw [halen, ← hlp] at hrel
  exact ⟨num, g, hnum, hg, hrel⟩

/-- Where the new entry is, or the one behind a deleted one. -/
def newPointer (L R : List LpItem) (ele : Option LpString) : Option Nat :=
  if ele = none ∧ R = [] then none else some (lpHdrSize + (entries L).length)

lemma Splices.newp (hs : Splices M N ele replace) (ha : a.length = lpHdrSize + (entries L).length)
    (hg : g.length = (entries N).length) :
    lpNewp (a ++ (g ++ (entries R ++ [lpEof]))) ele a.length = .ok (newPointer L R ele) := by
  rw [newPointer, ← ha]
  cases hs with
  | insert _ | replace _ => exact congrArg Except.ok (if_neg fun h => nomatch h.1).symm
  | delete =>
    rw [eq_nil_of_length_eq_zero hg]
    exact (lpUnlessEof_eq a R).trans (congrArg Except.ok (by simp only [true_and]))

lemma Splices.write (hs : Splices M N ele replace) {t : Nat}
    (hnum : CountField num (L.length + R.length + M.length)) (hg : g.length = (entries N).length)
    (hsmall : lpHdrSize + (entries (L ++ (N ++ R))).length + 1 ≤ uint32Max) :
    ∃ lp', lpWriteEntry ((encode 4 t ++ (encode 2 num ++ entries L)) ++
        (g ++ (entries R ++ [lpEof]))) ele (lpHdrSize + (entries L).length) replace
        (lpHdrSize + (entries (L ++ (N ++ R))).length + 1) = .ok (some (lp', newPointer L R ele)) ∧
      Lays lp' (L ++ (N ++ R)) := by
  have ha : (encode 4 t ++ (encode 2 num ++ entries L)).length =
      lpHdrSize + (entries L).length := by
    simp only [length_append, length_encode, lpHdrSize]
    omega
  obtain ⟨num', hnum', hcount⟩ := hs.count t (entries (L ++ (N ++ R)) ++ [lpEof]) hnum
  set total := lpHdrSize + (entries (L ++ (N ++ R))).length + 1
  have htotal : lpSetTotalBytes (encode 4 t ++ (encode 2 num' ++
      (entries (L ++ (N ++ R)) ++ [lpEof]))) total = .ok (encode 4 total ++ (encode 2 num' ++
      (entries (L ++ (N ++ R)) ++ [lpEof]))) :=
    putNumber_eq (a := []) rfl rfl (length_encode 4 t)
  have hstored : (encode 4 t ++ (encode 2 num ++ entries L)) ++
      (entries N ++ (entries R ++ [lpEof])) =
      encode 4 t ++ (encode 2 num ++ (entries (L ++ (N ++ R)) ++ [lpEof])) := by
    simp only [entries_append, append_assoc]
  have hitems : CountField num' (L ++ (N ++ R)).length := by
    rwa [length_append, length_append, Nat.add_comm N.length, ← Nat.add_assoc]
  refine ⟨_, ?_, lays_block hitems hsmall⟩
  rw [lpWriteEntry, ← ha, hs.newp ha hg, ok_bind, hs.store hg, ok_bind, hstored, hcount, ok_bind, htotal, ok_bind]

lemma Lays.insertAt (h : Lays lp (L ++ (M ++ R))) (hs : Splices M N ele replace) (junk : Nat → UInt8) :
    (uint32Max < lpHdrSize + (entries (L ++ (N ++ R))).length + 1 →
      lpInsertAt junk lp ele (lpHdrSize + (entries L).length) replace = .ok none) ∧
    (lpHdrSize + (entries (L ++ (N ++ R))).length + 1 ≤ uint32Max →
      ∃ lp', lpInsertAt junk lp ele (lpHdrSize + (entries L).length) replace =
        .ok (some (lp', newPointer L R ele)) ∧ Lays lp' (L ++ (N ++ R))) := by
  have hM : M.length = if replace then 1 else 0 := by cases hs <;> rfl
  have hnew : lpHdrSize + (entries (L ++ (N ++ R))).length + 1 + (entries M).length = lp.length + lpEntrySize ele := by
    rw [h.length_eq, offset, take_length, hs.size]
    simp only [entries_append, length_append]
    omega
  have hstart := h.insertAt_start hM junk rfl hnew
  constructor
  · intro full
    rw [hstart, if_pos full]
  · intro fits
    rw [hs.size] at hnew
    obtain ⟨num, g, hnum, hg, hrel⟩ := h.relocated junk rfl hnew
    obtain ⟨lp', hwrite, lays⟩ := hs.write hnum hg fits
    refine ⟨lp', ?_, lays⟩
    rw [hstart, if_neg (by omega), hs.size, hrel, ok_bind, hwrite]

lemma Lays.insertAt_wraps (h : Lays lp (L ++ (M ++ R))) (hM : M.length = if replace then 1 else 0) (junk : Nat → UInt8)
    (hs : 2 ^ 32 - 5 ≤ s.1.length) :
    lpInsertAt junk lp (some s) (lpHdrSize + (entries L).length) replace =
      if uint32Max + (entries M).length < lp.length + (s.1.length + 5 - 2 ^ 32) + 1 then .ok none else .error .overflow := by
  obtain ⟨henclen, henc⟩ := enclen_wraps hs s.2
  have hsize : lpEntrySize (some s) = s.1.length + 5 - 2 ^ 32 + 1 := by
    rw [lpEntrySize, henclen, lpEncodeBacklen, if_pos (by omega), length_singleton]
  have hlen := h.length_eq
  rw [offset, take_length, entries_append, entries_append, length_append, length_append] at hlen
  obtain ⟨new, hnew⟩ : ∃ new, new + (entries M).length = lp.length + lpEntrySize (some s) :=
    ⟨lp.length + lpEntrySize (some s) - (entries M).length, by omega⟩
  rw [h.insertAt_start hM junk rfl hnew]
  by_cases full : uint32Max < new
  · rw [if_pos full, if_pos (by omega)]
  rw [if_neg full, if_neg (by omega)]
  obtain ⟨num, g, -, hg, hrel⟩ := h.relocated junk rfl hnew
  -- The block ends long before the string does.
  have hstore : lpStoreEntry (encode 4 lp.length ++ (encode 2 num ++ entries L) ++
      (g ++ (entries R ++ [lpEof]))) (lpHdrSize + (entries L).length) (some s) = .error .overflow := by
    rw [lpStoreEntry_some, store_fault]
    · rfl
    simp only [length_append, length_encode, length_singleton, hg]
    rw [uint32Max] at full
    rw [lpHdrSize] at hlen ⊢
    omega
  rw [hrel, ok_bind, lpWriteEntry, lpNewp, Option.isNone_some, if_neg Bool.false_ne_true, ok_bind, hstore]
  rfl

end Splice

def edited (items : List LpItem) (k : Nat) : Option LpString → LpWhere → List LpItem
  | none, _ => items.take k ++ items.drop (k + 1)
  | some s, .before => items.take k ++ LpItem.ofString s :: items.drop k
  | some s, .after => items.take (k + 1) ++ LpItem.ofString s :: items.drop (k + 1)
  | some s, .replace => items.take k ++ LpItem.ofString s :: items.drop (k + 1)

/-- The position of the new entry, or of the one behind a deleted one. -/
def editedAt (k : Nat) : Option LpString → LpWhere → Nat
  | some _, .after => k + 1
  | _, _ => k

/-- The entry that an edit replaces. -/
def replacedBytes (items : List LpItem) (k : Nat) : LpWhere → Nat
  | .replace => (entries ((items.drop k).take 1)).length
  | _ => 0

/-- The positions that can be edited: those of the entries, and the end for an insertion before it. -/
def Editable (items : List LpItem) (k : Nat) (ele : Option LpString) (w : LpWhere) : Prop :=
  k < items.length ∨ (ele.isSome ∧ w = .before ∧ k = items.length)

def editedBytes (items : List LpItem) (k : Nat) (ele : Option LpString) (w : LpWhere) : Nat :=
  lpHdrSize + (entries (edited items k ele w)).length + 1

/-- `lpInsert` returns `NULL` if the listpack would become too large, and otherwise the well-formed listpack with the
edited entries, every one of which is read back, and a pointer to the new entry or to the one behind a deleted one. -/
structure Edits (junk : Nat → UInt8) (lp : Bytes) (items : List LpItem) (k : Nat) (ele : Option LpString) (w : LpWhere) :
    Prop where
  full : uint32Max < editedBytes items k ele w → lpInsert junk lp ele (offset items k) w = .ok none
  fits : editedBytes items k ele w ≤ uint32Max → ∃ lp', Lays lp' (edited items k ele w) ∧
    lpInsert junk lp ele (offset items k) w =
      .ok (some (lp', pointer (edited items k ele w) (editedAt k ele w))) ∧
    (∀ s, ele = some s → ∀ intbuf, ∃ g,
      lpGet lp' (offset (edited items k ele w) (editedAt k ele w)) intbuf = .ok g ∧ g.bytes lp' = .ok s.1) ∧
    ∀ j, ∀ hj : j < (edited items k ele w).length,
      lpDecodeBacklen lp' (offset (edited items k ele w) (j + 1)) = .ok (edited items k ele w)[j].bytes.length ∧
      ∀ intbuf, ∃ g, lpGet lp' (offset (edited items k ele w) j) intbuf = .ok g ∧
        g.bytes lp' = .ok (edited items k ele w)[j].element.text

/-- The size of the element does not wrap, or the listpack is too large all the same. -/
def SizeHolds (lp : Bytes) (items : List LpItem) (k : Nat) (ele : Option LpString) (w : LpWhere) : Prop :=
  ∀ s, ele = some s → s.1.length < 2 ^ 32 - 5 ∨
    uint32Max + replacedBytes items k w < lp.length + (s.1.length + 5 - 2 ^ 32) + 1

/-- The entries that are put in place of others. -/
def stored : Option LpString → List LpItem
  | some s => [LpItem.ofString s]
  | none => []

/-- Every edit is a splice. -/
structure SpliceOf (junk : Nat → UInt8) (lp : Bytes) (items : List LpItem) (k : Nat) (ele : Option LpString) (w : LpWhere)
    (L M R : List LpItem) (replace : Bool) : Prop where
  items_eq : items = L ++ (M ++ R)
  edited_eq : edited items k ele w = L ++ (stored ele ++ R)
  at_eq : L.length = editedAt k ele w
  replaced : M.length = if replace then 1 else 0
  deletes : ele = none → replace = true
  bytes_eq : ele.isSome → replacedBytes items k w = (entries M).length
  insert_eq : lpInsert junk lp ele (offset items k) w =
    lpInsertAt junk lp ele (lpHdrSize + (entries L).length) replace

lemma items_split (hk : k < items.length) :
    items = items.take k ++ ([items[k]] ++ items.drop (k + 1)) := by
  rw [singleton_append, ← drop_eq_getElem_cons hk, take_append_drop]

lemma exists_splice {lp : Bytes} {ele}
    (lays : Lays lp items) (h : Editable items k ele w) (junk : Nat → UInt8) :
    ∃ L M R replace, SpliceOf junk lp items k ele w L M R replace := by
  have hone (hk : k < items.length) : (items.drop k).take 1 = [items[k]] := by
    rw [drop_eq_getElem_cons hk, take_succ_cons, take_zero]
  cases ele with
  | none =>
    obtain hk | ⟨hsome, -⟩ := h
    · exact ⟨items.take k, [items[k]], items.drop (k + 1), true, items_split hk, rfl,
        length_take_of_le hk.le, rfl, fun _ => rfl, nofun, rfl⟩
    · cases hsome
  | some s =>
    cases w with
    | before =>
      have hk : k ≤ items.length := by
        obtain hk | ⟨-, -, hk⟩ := h
        · exact hk.le
        · exact hk.le
      exact ⟨items.take k, [], items.drop k, false, (take_append_drop k items).symm, rfl, length_take_of_le hk, rfl,
        nofun, fun _ => rfl, rfl⟩
    | after =>
      obtain hk | ⟨-, hw, -⟩ := h
      · refine ⟨items.take (k + 1), [], items.drop (k + 1), false, (take_append_drop (k + 1) items).symm, rfl,
          length_take_of_le hk, rfl, nofun, fun _ => rfl, ?_⟩
        rw [lpInsert, lays.skip hk, ok_bind]
        rfl
      · cases hw
    | replace =>
      obtain hk | ⟨-, hw, -⟩ := h
      · exact ⟨items.take k, [items[k]], items.drop (k + 1), true, items_split hk, rfl, length_take_of_le hk.le, rfl,
          nofun, fun _ => congrArg (fun l => (entries l).length) (hone hk), rfl⟩
      · cases hw

lemma SpliceOf.splices {junk} {lp : Bytes} {L M R ele}
    {replace : Bool} (h : SpliceOf junk lp items k ele w L M R replace)
    (hsize : ∀ s, ele = some s → s.1.length < 2 ^ 32 - 5) : Splices M (stored ele) ele replace := by
  have hM := h.replaced
  cases ele with
  | none =>
    rw [h.deletes rfl] at hM ⊢
    obtain ⟨x, rfl⟩ := length_eq_one_iff.mp hM
    exact .delete
  | some s =>
    cases replace with
    | false =>
      rw [eq_nil_of_length_eq_zero hM]
      exact .insert (hsize s rfl)
    | true =>
      obtain ⟨x, rfl⟩ := length_eq_one_iff.mp hM
      exact .replace (hsize s rfl)

lemma offset_append (L R : List LpItem) : offset (L ++ R) L.length = lpHdrSize + (entries L).length := by
  rw [offset, take_left]

lemma newPointer_eq (L R : List LpItem) (ele : Option LpString) :
    newPointer L R ele = pointer (L ++ (stored ele ++ R)) L.length := by
  rw [newPointer, pointer, offset_append, length_append, length_append]
  cases ele with
  | none =>
    cases R with
    | nil => rw [if_pos ⟨rfl, rfl⟩, if_neg (by simp [stored])]
    | cons x R => rw [if_neg (fun h => cons_ne_nil _ _ h.2), if_pos (by simp [stored])]
  | some s => rw [if_neg (fun h => Option.some_ne_none _ h.1), if_pos (by simp [stored])]

lemma full_of_wraps {L R} (hs : 2 ^ 32 - 5 ≤ s.1.length) :
    uint32Max < lpHdrSize + (entries (L ++ (stored (some s) ++ R))).length + 1 := by
  have henc := (enclen_wraps hs s.2).2
  have hentry : entries (stored (some s)) =
      (lpEncodeGetType s.1).2 ++ lpEncodeBacklen (lpEncodeGetType s.1).2.length := append_nil _
  rw [entries_append, entries_append, hentry]
  simp only [length_append, henc, uint32Max]
  omega

lemma SpliceOf.edits {junk} {lp : Bytes} {L M R ele}
    {replace : Bool} (h : SpliceOf junk lp items k ele w L M R replace) (lays : Lays lp items)
    (hsize : ∀ s, ele = some s → s.1.length < 2 ^ 32 - 5) : Edits junk lp items k ele w := by
  have hlays := lays
  rw [h.items_eq] at hlays
  obtain ⟨full, fits⟩ := hlays.insertAt (h.splices hsize) junk
  rw [← h.insert_eq, ← h.edited_eq] at full fits
  refine ⟨full, fun hfits => ?_⟩
  obtain ⟨lp', hins, lays'⟩ := fits hfits
  refine ⟨lp', lays', ?_, ?_, ?_⟩
  · rw [hins, newPointer_eq, ← h.edited_eq, h.at_eq]
  · rintro s rfl intbuf
    have hmem : editedAt k (some s) w < (edited items k (some s) w).length := by
      rw [h.edited_eq, ← h.at_eq]
      simp [stored]
    obtain ⟨g, hget, hreads⟩ := lays'.get hmem intbuf
    have hitem : (edited items k (some s) w)[editedAt k (some s) w] = ofString s := by
      simp [h.edited_eq, ← h.at_eq, stored]
    rw [hitem] at hreads
    refine ⟨g, hget, ?_⟩
    rw [hreads.bytes (ofString s).encodes]
    exact congrArg Except.ok (text_lpEncode s.1)
  · intro j hj
    refine ⟨lays'.decodeBacklen hj, fun intbuf => ?_⟩
    obtain ⟨g, hget, hreads⟩ := lays'.get hj intbuf
    exact ⟨g, hget, hreads.bytes (edited items k ele w)[j].encodes⟩

/-- `lpInsert` edits the sequence of entries exactly if the size of the new element does not wrap, or the listpack is too
large all the same. -/
theorem lpInsert_edits_iff {lp : Bytes} {items : List LpItem} {k : Nat} {ele : Option LpString} {w : LpWhere}
    (junk : Nat → UInt8) (lays : Lays lp items) (h : Editable items k ele w) :
    Edits junk lp items k ele w ↔ SizeHolds lp items k ele w := by
  obtain ⟨L, M, R, replace, splice⟩ := exists_splice lays h junk
  by_cases hsize : ∀ s, ele = some s → s.1.length < 2 ^ 32 - 5
  · exact ⟨fun _ s hs => .inl (hsize s hs), fun _ => splice.edits lays hsize⟩
  push Not at hsize
  obtain ⟨s, rfl, hs⟩ := hsize
  have hfull : uint32Max < editedBytes items k (some s) w := by
    rw [editedBytes, splice.edited_eq]
    exact full_of_wraps hs
  have hlays := lays
  rw [splice.items_eq] at hlays
  have hins := hlays.insertAt_wraps splice.replaced junk hs
  rw [← splice.insert_eq, ← splice.bytes_eq rfl] at hins
  constructor
  · intro edits t ht
    cases ht
    have hnull := edits.full hfull
    rw [hins] at hnull
    split at hnull
    · exact .inr ‹_›
    · cases hnull
  · intro hold
    have hlarge := (hold s rfl).resolve_left (by omega)
    rw [if_pos hlarge] at hins
    exact ⟨fun _ => hins, fun hfits => absurd hfits (by omega)⟩

/-- A deletion leaves the other entry. -/
theorem lpInsert_edits_iff_deletion :
    let i : LpItem := ⟨[5], _, .uint7 (by decide)⟩
    let s : LpItem := ⟨[0x81, 97], _, .str6 (b := 0x81) (s := [97]) (by decide) (by decide)⟩
    Edits (fun _ => 0) [12, 0, 0, 0, 2, 0, 5, 1, 0x81, 97, 2, 255] [i, s] 0 none .replace := by
  have lays : Lays [12, 0, 0, 0, 2, 0, 5, 1, 0x81, 97, 2, 255]
      [⟨[5], _, .uint7 (by decide)⟩, ⟨[0x81, 97], _, .str6 (b := 0x81) (s := [97]) (by decide) (by decide)⟩] :=
    ⟨⟨2, .inl (by decide), by decide⟩, by decide⟩
  exact (lpInsert_edits_iff (fun _ => 0) lays (.inl (by decide))).mpr nofun

/-- A string of `2 ^ 32 - 1` bytes is inserted before the only element: `enclen` is 4, so that the listpack grows by five
bytes and the string is written past its end. -/
theorem lpInsert_longest_string_overflows :
    lpInsert (fun _ => 0) [9, 0, 0, 0, 1, 0, 5, 1, 255]
      (some ⟨List.replicate (2 ^ 32 - 1) 97, by rw [length_replicate]; decide⟩) 6 .before = .error .overflow := by
  have lays : Lays [9, 0, 0, 0, 1, 0, 5, 1, 255] [⟨[5], _, .uint7 (by decide)⟩] :=
    ⟨⟨1, .inl (by decide), by decide⟩, by decide⟩
  have hins (s : LpString) (hs : s.1.length = 2 ^ 32 - 1) :
      lpInsertAt (fun _ => 0) [9, 0, 0, 0, 1, 0, 5, 1, 255] (some s) 6 false = .error .overflow := by
    have h := lays.insertAt_wraps (L := []) (M := []) (if_neg Bool.false_ne_true).symm (fun _ => 0) (s := s) (by omega)
    rwa [if_neg (by rw [hs]; decide)] at h
  exact hins _ (length_replicate ..)

/-- A block that shows a listpack of the model by elements: the same elements, in encodings of the same size. -/
def Shows (lp : Bytes) (m : Listpack) (items : List LpItem) : Prop :=
  Lays lp items ∧ items.map LpItem.element = m.elements ∧ ∀ i ∈ items, i.bytes.length = i.element.enclen

lemma length_lpEncodeInt (v : Int) : (lpEncodeInt v).length = (LpElement.int v).enclen := by
  rw [lpEncodeInt, LpElement.enclen]
  split_ifs <;> simp only [length_cons, length_nil, length_encode]

lemma length_ofString (s : LpString) : (ofString s).bytes.length = (ofString s).element.enclen := by
  show (lpEncodeGetType s.1).2.length = (lpEncode s.1).enclen
  rw [lpEncodeGetType, lpEncode]
  cases lpStringToInt64 s.1 with
  | some v => exact length_lpEncodeInt v
  | none =>
    simp only [lpEncodeString, LpElement.enclen]
    split_ifs <;> simp only [length_cons, length_append, length_encode] <;> omega

lemma lpTotalBytes_eq (h : ∀ i ∈ items, i.bytes.length = i.element.enclen) :
    lpTotalBytes (items.map element) = lpHdrSize + (entries items).length + 1 := by
  induction items with
  | nil => rfl
  | cons i items ih =>
    have hi := h i mem_cons_self
    have hrest := ih fun j hj => h j (mem_cons_of_mem i hj)
    rw [lpTotalBytes] at hrest ⊢
    rw [entries_cons, length_append, raw, length_append, length_lpEncodeBacklen, hi]
    simp only [map_cons, sum_cons, LpElement.size] at hrest ⊢
    omega

/-- Where the model by elements inserts. -/
def LpWhere.ofElements : JitRedis.LpWhere → LpWhere
  | .before => .before
  | .replace => .replace

lemma lpInsert_elements {m w}
    (helements : items.map element = m.elements) (h : Editable items k (some s) (.ofElements w)) :
    JitRedis.lpInsert m s.1 k w =
      if small : lpTotalBytes ((edited items k (some s) (.ofElements w)).map element) ≤ uint32Max then .ok ⟨_, small⟩
      else .error .listpackFull := by
  cases w with
  | before =>
    have hmap : (edited items k (some s) .before).map element =
        m.elements.take k ++ lpEncode s.1 :: m.elements.drop k := by
      rw [edited, map_append, map_cons, map_take, map_drop, helements]
      rfl
    simp only [JitRedis.lpInsert, lpSized_eq s.2, LpWhere.ofElements, hmap]
  | replace =>
    obtain hk | ⟨-, hw, -⟩ := h
    · have hmap : (edited items k (some s) .replace).map element = m.elements.set k (lpEncode s.1) := by
        rw [edited, map_append, map_cons, map_take, map_drop, helements,
          set_eq_take_append_cons_drop, if_pos (by rwa [← helements, length_map])]
        rfl
      simp only [JitRedis.lpInsert, lpSized_eq s.2, LpWhere.ofElements, hmap]
    · cases hw

lemma enclen_edited
    (h : ∀ i ∈ items, i.bytes.length = i.element.enclen) :
    ∀ i ∈ edited items k (some s) w, i.bytes.length = i.element.enclen := by
  have hstored (l r : Nat) : ∀ i ∈ items.take l ++ ofString s :: items.drop r, i.bytes.length = i.element.enclen :=
    forall_mem_append.mpr ⟨fun i hi => h i (mem_of_mem_take hi),
      forall_mem_cons.mpr ⟨length_ofString s, fun i hi => h i (mem_of_mem_drop hi)⟩⟩
  cases w with
  | before => exact hstored k k
  | after => exact hstored (k + 1) (k + 1)
  | replace => exact hstored k (k + 1)

/-- `NULL` stands for the fault of the model by elements. -/
def orFull : Option (Bytes × Option Nat) → Except Fault Bytes
  | some (lp, _) => .ok lp
  | none => .error .listpackFull

/-- The block follows the insertion of the model by elements, for strings whose size does not wrap. -/
lemma lpInsert_shows {lp : Bytes} {m w}
    (junk : Nat → UInt8) (shows : Shows lp m items) (hs : s.1.length < 2 ^ 32 - 5)
    (h : Editable items k (some s) (.ofElements w)) :
    Mirrors (fun m lp => ∃ items, Shows lp m items) (JitRedis.lpInsert m s.1 k w)
      (lpInsert junk lp (some s) (offset items k) (.ofElements w) >>= orFull) := by
  obtain ⟨lays, helements, henclen⟩ := shows
  obtain ⟨L, M, R, replace, splice⟩ := exists_splice lays h junk
  have edits := splice.edits lays fun t ht => by cases ht; exact hs
  have htotal : lpTotalBytes _ = editedBytes items k (some s) (.ofElements w) := lpTotalBytes_eq (enclen_edited henclen)
  rw [lpInsert_elements helements h]
  split
  · rename_i hsmall
    obtain ⟨lp', lays', hins, -⟩ := edits.fits (htotal.symm.le.trans hsmall)
    rw [hins]
    exact ⟨_, lays', rfl, enclen_edited henclen⟩
  · rw [edits.full (by omega)]
    rfl

/-- An edit at the element that `lpSeek` finds or at the end; its size does not wrap. -/
structure LpEdit where
  index : Nat
  ele : LpString
  place : JitRedis.LpWhere
  junk : Nat → UInt8
  size : ele.1.length < 2 ^ 32 - 5

def LpEdit.onElements (m : Listpack) (e : LpEdit) : Except Fault Listpack :=
  if e.index < m.elements.length then JitRedis.lpInsert m e.ele.1 e.index e.place else JitRedis.lpAppend m e.ele.1

def LpEdit.onBlock (lp : Bytes) (e : LpEdit) : Except Fault Bytes := do
  match ← lpSeek lp e.index with
  | some p => lpInsert e.junk lp (some e.ele) p (.ofElements e.place) >>= orFull
  | none => lpAppend e.junk lp e.ele >>= orFull

lemma Shows.edit {lp : Bytes} {m} (shows : Shows lp m items) (e : LpEdit) :
    Mirrors (fun m lp => ∃ items, Shows lp m items) (e.onElements m) (e.onBlock lp) := by
  have hlen : m.elements.length = items.length := by rw [← shows.2.1, length_map]
  rw [LpEdit.onElements, LpEdit.onBlock, shows.1.seek, ok_bind, pointerAt, if_pos (Int.natCast_nonneg _),
    Int.toNat_natCast, hlen]
  by_cases hk : e.index < items.length
  · rw [if_pos hk, pointer_of_lt hk]
    exact lpInsert_shows e.junk shows e.size (.inl hk)
  · have happend : lpAppend e.junk lp e.ele = lpInsert e.junk lp (some e.ele) (offset items items.length) .before := by
      rw [lpAppend, shows.1.getTotalBytes, ok_bind, shows.1.length_eq, Nat.add_sub_cancel]
    rw [if_neg hk, pointer_of_le (not_lt.mp hk), JitRedis.lpAppend, hlen, happend]
    exact lpInsert_shows (w := .before) e.junk shows e.size (.inr ⟨rfl, rfl, rfl⟩)

/-- Edits of an empty block follow those of an empty listpack of elements: none reads or writes outside of the block, and
one returns `NULL` exactly if the listpack of elements is full. -/
theorem edits_show (es : List LpEdit) :
    Mirrors (fun m lp => ∃ items, Shows lp m items) (es.foldlM LpEdit.onElements JitRedis.lpNew)
      (es.foldlM LpEdit.onBlock lpNew) :=
  .foldlM (fun _ _ e ⟨_, shows⟩ => shows.edit e) ⟨[], ⟨⟨0, .inl (by decide), by decide⟩, by decide⟩, rfl, by simp⟩

end JitRedis.RawListpack
