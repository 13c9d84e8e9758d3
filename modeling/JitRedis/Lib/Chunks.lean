import Mathlib.Tactic

/-!
# Sequences stored in chunks

A sequence kept as a list of chunks is the concatenation of what the chunks hold. These lemmas locate
an element of the sequence in a chunk, and say what a change of one chunk does to the sequence.
-/

namespace Chunks

open List

variable {α β : Type} {f : α → List β} {l : List α} {a : α} {i p : Nat}

section At

variable {X Y : List α}

lemma getElem?_at (hX : X.length = i) : (X ++ a :: Y)[i]? = some a := by
  rw [getElem?_append_right (Nat.le_of_eq hX), hX, Nat.sub_self, getElem?_cons_zero]

lemma modify_at {g : α → α} (hX : X.length = i) : (X ++ a :: Y).modify i g = X ++ g a :: Y := by
  subst hX
  induction X with
  | nil => rfl
  | cons b X ih => rw [cons_append, length_cons, modify_succ_cons, ih, cons_append]

lemma eraseIdx_at (hX : X.length = i) : (X ++ a :: Y).eraseIdx i = X ++ Y := by
  rw [eraseIdx_append_of_length_le (Nat.le_of_eq hX), hX, Nat.sub_self, eraseIdx_cons_zero]

lemma insertIdx_at (hX : X.length = i) : (X ++ Y).insertIdx i a = X ++ a :: Y := by
  subst hX
  induction X with
  | nil => rfl
  | cons b X ih => rw [cons_append, length_cons, insertIdx_succ_cons, ih, cons_append]

end At

/-- What the chunks before position `i` hold. -/
def before (f : α → List β) (l : List α) (i : Nat) : List β := (l.take i).flatMap f

/-- What the chunks behind position `i` hold. -/
def behind (f : α → List β) (l : List α) (i : Nat) : List β := (l.drop (i + 1)).flatMap f

@[simp] lemma before_zero : before f l 0 = [] := rfl

lemma before_succ (h : l[i]? = some a) : before f l (i + 1) = before f l i ++ f a := by
  rw [before, before, take_add_one, h, flatMap_append, Option.toList_some, flatMap_singleton]

/-- What comes before a chunk does not depend on it. -/
lemma before_modify {g : α → α} : before f (l.modify i g) i = before f l i := by
  have htake : (l.modify i g).take i = l.take i := by
    apply ext_getElem?
    intro j
    rw [getElem?_take, getElem?_take]
    split
    · rw [getElem?_modify_ne _ _ (by omega)]
    · rfl
  rw [before, htake, before]

/-- A chunk of the changed list is the changed one, or was there before. -/
lemma mem_modify_cases {g : α → α} {b : α} (h : l[i]? = some a) (hb : b ∈ l.modify i g) : b = g a ∨ b ∈ l := by
  obtain ⟨j, hj⟩ := mem_iff_getElem?.mp hb
  rw [getElem?_modify] at hj
  by_cases hij : i = j
  · subst hij
    simp only [if_true, h, Option.map_eq_map, Option.map_some, Option.some.injEq] at hj
    exact .inl hj.symm
  · simp only [hij, if_false, Option.map_eq_map, Option.map_id_fun', id] at hj
    exact .inr (mem_of_getElem? hj)

lemma before_eraseIdx : before f (l.eraseIdx i) i = before f l i := by
  rw [before, take_eraseIdx_eq_take_of_le _ _ _ le_rfl, before]

@[simp] lemma behind_last : behind f l (l.length - 1) = [] := by
  rw [behind, drop_eq_nil_of_le (by omega)]
  rfl

lemma flatMap_eq (h : l[i]? = some a) : l.flatMap f = before f l i ++ f a ++ behind f l i := by
  obtain ⟨hi, rfl⟩ := List.getElem?_eq_some_iff.mp h
  calc l.flatMap f = (l.take i ++ l.drop i).flatMap f := by rw [take_append_drop]
    _ = before f l i ++ f l[i] ++ behind f l i := by
      rw [drop_eq_getElem_cons hi, flatMap_append, flatMap_cons, append_assoc]
      rfl

/-- Changing a chunk changes its part of the sequence. -/
lemma flatMap_modify {g : α → α} (h : l[i]? = some a) :
    (l.modify i g).flatMap f = before f l i ++ f (g a) ++ behind f l i := by
  obtain ⟨hi, rfl⟩ := List.getElem?_eq_some_iff.mp h
  rw [modify_eq_take_cons_drop hi]
  simp [before, behind]

/-- Adding a chunk adds its part to the sequence. -/
lemma flatMap_insertIdx (hi : i ≤ l.length) :
    (l.insertIdx i a).flatMap f = (l.take i).flatMap f ++ f a ++ (l.drop i).flatMap f := by
  conv_lhs => rw [← take_append_drop i l, insertIdx_at (length_take_of_le hi)]
  simp

lemma modify_insertIdx {g : α → α} (hi : i ≤ l.length) :
    (l.insertIdx i a).modify i g = l.insertIdx i (g a) := by
  have hlen := length_take_of_le hi
  rw [← take_append_drop i l, insertIdx_at hlen, modify_at hlen, insertIdx_at hlen]

/-- Removing a chunk removes its part of the sequence. -/
lemma flatMap_eraseIdx : (l.eraseIdx i).flatMap f = before f l i ++ behind f l i := by
  rw [eraseIdx_eq_take_drop_succ, flatMap_append]
  rfl

lemma getElem?_flatMap (h : l[i]? = some a) (hp : p < (f a).length) :
    (l.flatMap f)[(before f l i).length + p]? = (f a)[p]? := by
  rw [flatMap_eq h, append_assoc, getElem?_append_right (Nat.le_add_right ..),
    Nat.add_sub_cancel_left, getElem?_append_left hp]

lemma set_flatMap {b : β} (h : l[i]? = some a) (hp : p < (f a).length) :
    (l.flatMap f).set ((before f l i).length + p) b =
      before f l i ++ (f a).set p b ++ behind f l i := by
  rw [flatMap_eq h, append_assoc, set_append_right _ _ (Nat.le_add_right ..),
    Nat.add_sub_cancel_left, set_append_left _ _ hp, append_assoc]

lemma take_drop_flatMap {n : Nat} (h : l[i]? = some a) (hp : p + n ≤ (f a).length) :
    (l.flatMap f).take ((before f l i).length + p) ++ (l.flatMap f).drop ((before f l i).length + p + n) =
      before f l i ++ ((f a).take p ++ (f a).drop (p + n)) ++ behind f l i := by
  have htake : (f a ++ behind f l i).take p = (f a).take p := take_append_of_le_length (by omega)
  have hdrop : (f a ++ behind f l i).drop (p + n) = (f a).drop (p + n) ++ behind f l i :=
    drop_append_of_le_length hp
  rw [flatMap_eq h, append_assoc, take_length_add_append, Nat.add_assoc, drop_length_add_append, htake,
    hdrop]
  simp only [append_assoc]

/-- What comes before a chunk seen from the end comes behind it seen from the front. -/
lemma length_before_reverse (hi : i < l.length) :
    (before f l.reverse i).length = (behind f l (l.length - 1 - i)).length := by
  rw [before, behind, take_reverse, length_flatMap, length_flatMap,
    show l.length - 1 - i + 1 = l.length - i by omega, map_reverse, sum_reverse]

end Chunks
