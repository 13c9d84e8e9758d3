import Mathlib.Tactic

/-!
# Lists of buckets and the maps they represent

General facts about a list of lists (a table of buckets): updating one bucket changes the whole
contents, up to permutation, by that bucket only; and a list of keyed items without repeated keys
represents a finite map, whatever their order.
-/

namespace Buckets

open List Function

variable {α κ ω : Type}

/-- Updating bucket `i` replaces its items and leaves all the others. -/
lemma flatten_modify {l : List (List α)} {i : Nat} {b : List α} (f : List α → List α)
    (h : l[i]? = some b) :
    ∃ rest, l.flatten.Perm (b ++ rest) ∧ (l.modify i f).flatten.Perm (f b ++ rest) := by
  induction l generalizing i with
  | nil => simp at h
  | cons c l ih =>
    cases i with
    | zero =>
      cases h
      exact ⟨l.flatten, by simp, by simp [modify_cons]⟩
    | succ i =>
      obtain ⟨rest, p1, p2⟩ := ih h
      refine ⟨c ++ rest, ?_, ?_⟩
      · simp only [flatten_cons]
        exact (p1.append_left c).trans (perm_append_comm_assoc c b rest)
      · simp only [modify_cons, Nat.add_eq_zero_iff, one_ne_zero, and_false, if_false,
          Nat.add_sub_cancel, flatten_cons]
        exact (p2.append_left c).trans (perm_append_comm_assoc c (f b) rest)

/-- An item of the contents lies in some bucket. -/
lemma mem_flatten {l : List (List α)} {a : α} (h : a ∈ l.flatten) :
    ∃ (i : Nat) (b : List α), l[i]? = some b ∧ a ∈ b := by
  obtain ⟨b, hb, ha⟩ := List.mem_flatten.mp h
  obtain ⟨i, hi⟩ := List.mem_iff_getElem?.mp hb
  exact ⟨i, b, hi, ha⟩

/-- In contents without repeated keys a key has one position: one bucket and one place in it. -/
lemma position_unique {l : List (List α)} {f : α → κ} (nd : (l.flatten.map f).Nodup)
    {i j p q : Nat} {b b' : List α} {x y : α} (hb : l[i]? = some b) (hx : b[p]? = some x)
    (hb' : l[j]? = some b') (hy : b'[q]? = some y) (e : f x = f y) : i = j ∧ p = q := by
  induction l generalizing i j with
  | nil => simp at hb
  | cons d l ih =>
    simp only [flatten_cons, map_append] at nd
    obtain ⟨nd1, nd2, disj⟩ := List.nodup_append.mp nd
    cases i with
    | zero =>
      cases hb
      cases j with
      | zero =>
        cases hb'
        refine ⟨rfl, ?_⟩
        have hp := (List.getElem?_eq_some_iff.mp hx).1
        have hq := (List.getElem?_eq_some_iff.mp hy).1
        have ep : (b.map f)[p]? = (b.map f)[q]? := by
          rw [getElem?_map, getElem?_map, hx, hy]
          simp [e]
        exact (getElem?_inj (by simpa using hp) nd1).mp ep
      | succ j =>
        exfalso
        refine disj (f x) (mem_map_of_mem (mem_of_getElem? hx)) (f y) ?_ e
        exact mem_map_of_mem
          (List.mem_flatten.mpr ⟨b', mem_of_getElem? hb', mem_of_getElem? hy⟩)
    | succ i =>
      cases j with
      | zero =>
        cases hb'
        exfalso
        refine disj (f y) (mem_map_of_mem (mem_of_getElem? hy)) (f x) ?_ e.symm
        exact mem_map_of_mem
          (List.mem_flatten.mpr ⟨b, mem_of_getElem? hb, mem_of_getElem? hx⟩)
      | succ j =>
        obtain ⟨e1, e2⟩ := ih nd2 hb hb'
        exact ⟨by rw [e1], e2⟩

/-- A list of items, keyed by `key` and carrying `val`, represents the map `m`. -/
structure Represents (key : α → κ) (val : α → ω) (es : List α) (m : κ → Option ω) : Prop where
  nodup : (es.map key).Nodup
  mem : ∀ k v, m k = some v ↔ ∃ e ∈ es, key e = k ∧ val e = v

section Represents

variable {key : α → κ} {val : α → ω} {es es' : List α} {m : κ → Option ω} {e : α}

lemma Represents.perm (h : Represents key val es m) (p : es.Perm es') :
    Represents key val es' m where
  nodup := (p.map key).nodup_iff.mp h.nodup
  mem k v := by
    rw [h.mem]
    exact exists_congr fun e => and_congr_left fun _ => p.mem_iff

lemma Represents.nil : Represents key val [] (fun _ => none) where
  nodup := by simp
  mem k v := by simp

lemma Represents.get (h : Represents key val es m) (he : e ∈ es) : m (key e) = some (val e) :=
  (h.mem _ _).mpr ⟨e, he, rfl, rfl⟩

lemma Represents.get_none (h : Represents key val es m) {k : κ} (hk : ∀ e ∈ es, key e ≠ k) :
    m k = none := by
  cases hm : m k with
  | none => rfl
  | some v =>
    obtain ⟨e, he, ek, _⟩ := (h.mem k v).mp hm
    exact absurd ek (hk e he)

variable [DecidableEq κ]

lemma Represents.cons (h : Represents key val es m) (hm : m (key e) = none) :
    Represents key val (e :: es) (update m (key e) (some (val e))) where
  nodup := by
    rw [map_cons, nodup_cons]
    refine ⟨fun hk => ?_, h.nodup⟩
    obtain ⟨e', he', ek⟩ := List.mem_map.mp hk
    have := h.get he'
    rw [ek, hm] at this
    cases this
  mem k v := by
    by_cases hk : k = key e
    · subst hk
      simp only [update_self, Option.some.injEq, mem_cons, exists_eq_or_imp, true_and]
      refine ⟨fun hv => .inl hv, fun hv => hv.elim id fun ⟨e', he', ek, _⟩ => ?_⟩
      have := h.get he'
      rw [ek, hm] at this
      cases this
    · rw [update_of_ne hk, h.mem]
      simp only [mem_cons, exists_eq_or_imp, Ne.symm hk, false_and, false_or]

lemma Represents.tail (h : Represents key val (e :: es) m) :
    Represents key val es (update m (key e) none) where
  nodup := (List.nodup_cons.mp h.nodup).2
  mem k v := by
    by_cases hk : k = key e
    · subst hk
      simp only [update_self, reduceCtorEq, false_iff, not_exists, not_and]
      intro e' he' ek
      exact absurd (List.mem_map.mpr ⟨e', he', ek⟩) (List.nodup_cons.mp h.nodup).1
    · rw [update_of_ne hk, h.mem]
      simp only [mem_cons, exists_eq_or_imp, Ne.symm hk, false_and, false_or]

/-- Changing the value of an item changes the value of its key. -/
lemma Represents.replace {e' : α} (h : Represents key val (e :: es) m) (ek : key e' = key e) :
    Represents key val (e' :: es) (update m (key e') (some (val e'))) := by
  have h' := h.tail.cons (e := e') (by rw [ek, update_self])
  rwa [ek, update_idem, ← ek] at h'

end Represents

end Buckets
