import JitRedis.Listpack.Model

/-!
# Walking and editing a listpack

A pointer into a listpack is described by the elements from it to the end. In these terms every step of a
walk, every read and every edit has one equation.
-/

namespace JitRedis

open Fallible List

/-- The pointer to the first of the last elements `rest`. -/
def Listpack.ptr (lp : Listpack) (rest : List LpElement) : Option Nat :=
  if rest.length = 0 then none else some (lp.elements.length - rest.length)

variable {lp : Listpack} {x : LpElement} {xs rest : List LpElement} {v : Int}

lemma suffix_of_cons {l} (h : x :: rest <:+ l) : rest <:+ l := (suffix_cons x rest).trans h

lemma suffix_of_append {l} (h : xs ++ rest <:+ l) : rest <:+ l :=
  (suffix_append xs rest).trans h

lemma ptr_cons {pre} (h : lp.elements = pre ++ x :: rest) :
    lp.ptr (x :: rest) = some pre.length := by
  rw [Listpack.ptr, if_neg (by simp), h, length_append, Nat.add_sub_cancel]

lemma ptr_congr {lp' : Listpack} {rest' : List LpElement} (hlen : lp.elements.length = lp'.elements.length)
    (hrest : rest.length = rest'.length) : lp.ptr rest = lp'.ptr rest' := by
  rw [Listpack.ptr, Listpack.ptr, hlen, hrest]

lemma lpElementAt_ptr (h : x :: rest <:+ lp.elements) : lpElementAt lp (lp.ptr (x :: rest)) = .ok x := by
  obtain ⟨pre, hpre⟩ := h
  rw [lpElementAt, ptr_cons hpre.symm, Option.bind_some, ← hpre, getElem?_append_right le_rfl, Nat.sub_self]
  rfl

lemma lpGetInteger_ptr (h : .int v :: rest <:+ lp.elements) : lpGetInteger lp (lp.ptr (.int v :: rest)) = .ok v := by
  rw [lpGetInteger, lpElementAt_ptr h]
  rfl

lemma lpGet_ptr (h : x :: rest <:+ lp.elements) : lpGet lp (lp.ptr (x :: rest)) = .ok x.text := by
  rw [lpGet, lpElementAt_ptr h]
  rfl

lemma lpNext_ptr (h : x :: rest <:+ lp.elements) : lpNext lp (lp.ptr (x :: rest)) = .ok (lp.ptr rest) := by
  obtain ⟨pre, hpre⟩ := h
  have hlen : lp.elements.length = pre.length + (rest.length + 1) := by
    rw [← hpre, length_append, length_cons]
  rw [ptr_cons hpre.symm, lpNext, if_pos (by omega), Listpack.ptr]
  cases rest with
  | nil => rw [if_neg (by simp [hlen]), if_pos (by simp)]
  | cons y rest =>
    rw [length_cons] at *
    rw [if_pos (by omega), if_neg (by omega)]
    congr 2
    omega

lemma lpPrev_ptr (h : x :: rest <:+ lp.elements) (hrest : rest ≠ []) :
    lpPrev lp (lp.ptr rest) = .ok (lp.ptr (x :: rest)) := by
  obtain ⟨pre, hpre⟩ := h
  have hlen : lp.elements.length = pre.length + (rest.length + 1) := by
    rw [← hpre, length_append, length_cons]
  have hpos := length_pos_iff.mpr hrest
  rw [ptr_cons hpre.symm, Listpack.ptr, if_neg (by omega), lpPrev, if_pos (by omega), if_neg (by omega)]
  congr 2
  omega

lemma lpFirst_eq_ptr (lp : Listpack) : lpFirst lp = lp.ptr lp.elements := by
  rw [lpFirst, Listpack.ptr, Nat.sub_self]

lemma lpLast_eq_ptr (h : [x] <:+ lp.elements) : lpLast lp = lp.ptr [x] := by
  have hlen := h.length_le
  rw [length_singleton] at hlen
  rw [lpLast, Listpack.ptr, if_neg (by omega), if_neg (by simp), length_singleton]

lemma lpNextTimes_ptr (h : xs ++ rest <:+ lp.elements) :
    lpNextTimes lp xs.length (lp.ptr (xs ++ rest)) = .ok (lp.ptr rest) := by
  induction xs with
  | nil => rfl
  | cons x xs ih =>
    rw [cons_append] at h ⊢
    rw [length_cons, lpNextTimes, lpNext_ptr h, ok_bind]
    exact ih (suffix_of_cons h)

lemma lpPrevTimes_ptr (h : xs ++ rest <:+ lp.elements) (hrest : rest ≠ []) :
    lpPrevTimes lp xs.length (lp.ptr rest) = .ok (lp.ptr (xs ++ rest)) := by
  -- The first step back goes over the last of `xs`.
  induction xs using List.reverseRecOn generalizing rest with
  | nil => rfl
  | append_singleton xs x ih =>
    rw [append_assoc, singleton_append] at h ⊢
    rw [length_append, length_singleton, lpPrevTimes, lpPrev_ptr (suffix_of_append h) hrest, ok_bind]
    exact ih h (cons_ne_nil _ _)

lemma lpAppend_spec (lp : Listpack) (ele : Bytes) :
    Sat (· = .listpackFull) (fun lp' => lp'.elements = lp.elements ++ [lpEncode (lpSized ele)]) (lpAppend lp ele) := by
  simp only [lpAppend, lpInsert, take_length, drop_length]
  split
  · rfl
  · rfl

lemma lpAppendInteger_spec (lp : Listpack) (value : Int) :
    Sat (· = .listpackFull) (fun lp' => lp'.elements = lp.elements ++ [lpEncode (ll2string value)])
      (lpAppendInteger lp value) := by
  have h := lpAppend_spec lp (ll2string value)
  rw [lpSized_ll2string] at h
  exact h

lemma lpReplaceInteger_spec {pre} (h : lp.elements = pre ++ x :: rest) (low : -2 ^ 63 ≤ v)
    (high : v < 2 ^ 63) :
    Sat (· = .listpackFull) (fun lp' => lp'.elements = pre ++ .int v :: rest)
      (lpReplaceInteger lp (lp.ptr (x :: rest)) v) := by
  have hpos : pre.length < lp.elements.length := by
    rw [h, length_append, length_cons]
    omega
  rw [ptr_cons h, lpReplaceInteger, if_pos hpos]
  simp only [lpInsert, lpSized_ll2string, lpEncode_ll2string low high]
  split
  · show lp.elements.set pre.length (.int v) = pre ++ .int v :: rest
    rw [h, set_append_right _ _ le_rfl, Nat.sub_self, set_cons_zero]
  · rfl

end JitRedis
