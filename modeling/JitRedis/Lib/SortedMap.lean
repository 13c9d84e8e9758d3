import Mathlib.Tactic

/-!
# Finite maps in key order

A finite map as the list of its entries in strictly increasing order of their keys, with the walks that an
ordered container offers: from a key upwards, and from a key downwards.
-/

structure SortedMap (K V : Type) [LinearOrder K] where
  entries : List (K × V)
  sorted : entries.Pairwise (·.1 < ·.1)

namespace SortedMap

open List

variable {K V : Type} [LinearOrder K]

@[ext] lemma ext {m n : SortedMap K V} (h : m.entries = n.entries) : m = n := by
  cases m
  cases n
  cases h
  rfl

instance [DecidableEq V] : DecidableEq (SortedMap K V) := fun m n =>
  decidable_of_iff (m.entries = n.entries) ⟨ext, fun h => by rw [h]⟩

def empty : SortedMap K V := ⟨[], .nil⟩

def find? (m : SortedMap K V) (k : K) : Option V := (m.entries.find? (·.1 = k)).map Prod.snd

def below (m : SortedMap K V) (k : K) : List (K × V) := m.entries.filter (·.1 < k)

def above (m : SortedMap K V) (k : K) : List (K × V) := m.entries.filter (k < ·.1)

def insert (m : SortedMap K V) (k : K) (v : V) : SortedMap K V where
  entries := m.below k ++ (k, v) :: m.above k
  sorted := by
    have hlow : ∀ e ∈ m.below k, e.1 < k := fun e he => of_decide_eq_true (mem_filter.mp he).2
    have hhigh : ∀ e ∈ m.above k, k < e.1 := fun e he => of_decide_eq_true (mem_filter.mp he).2
    refine pairwise_append.mpr ⟨m.sorted.filter _, ?_, ?_⟩
    · exact pairwise_cons.mpr ⟨hhigh, m.sorted.filter _⟩
    · intro e he f hf
      cases hf with
      | head => exact hlow e he
      | tail _ hf => exact (hlow e he).trans (hhigh f hf)

def erase (m : SortedMap K V) (k : K) : SortedMap K V where
  entries := m.entries.filter (·.1 ≠ k)
  sorted := m.sorted.filter _

/-- The walk upwards from the first key that is not smaller. -/
def upward (m : SortedMap K V) (k : K) : List (K × V) := m.entries.filter (k ≤ ·.1)

/-- The walk downwards from the last key that is not larger. -/
def downward (m : SortedMap K V) (k : K) : List (K × V) := (m.entries.filter (·.1 ≤ k)).reverse

/-- The walk upwards from the last key that is not larger. -/
def upwardFrom (m : SortedMap K V) (k : K) : List (K × V) :=
  match (m.downward k).head? with
  | some e => e :: m.above k
  | none => []

variable {m : SortedMap K V} {k k' : K} {v v' : V} {l r : List (K × V)}

lemma entries_insert : (m.insert k v).entries = m.below k ++ (k, v) :: m.above k := rfl

lemma entries_erase : (m.erase k).entries = m.entries.filter (·.1 ≠ k) := rfl

lemma mem_below {e : K × V} : e ∈ m.below k ↔ e ∈ m.entries ∧ e.1 < k := by
  rw [below, mem_filter, decide_eq_true_iff]

lemma mem_above {e : K × V} : e ∈ m.above k ↔ e ∈ m.entries ∧ k < e.1 := by
  rw [above, mem_filter, decide_eq_true_iff]

lemma mem_insert {e : K × V} : e ∈ (m.insert k v).entries ↔ e = (k, v) ∨ e ∈ m.entries ∧ e.1 ≠ k := by
  rw [entries_insert, mem_append, mem_cons, mem_below, mem_above]
  constructor
  · rintro (⟨h, lt⟩ | rfl | ⟨h, lt⟩)
    · exact .inr ⟨h, lt.ne⟩
    · exact .inl rfl
    · exact .inr ⟨h, lt.ne'⟩
  · rintro (rfl | ⟨h, ne⟩)
    · exact .inr (.inl rfl)
    · cases lt_or_gt_of_ne ne with
      | inl lt => exact .inl ⟨h, lt⟩
      | inr lt => exact .inr (.inr ⟨h, lt⟩)

lemma mem_erase {e : K × V} : e ∈ (m.erase k).entries ↔ e ∈ m.entries ∧ e.1 ≠ k := by
  rw [entries_erase, mem_filter, decide_eq_true_iff]

lemma find?_eq_some : m.find? k = some v ↔ (k, v) ∈ m.entries := by
  have main : ∀ l : List (K × V), l.Pairwise (·.1 < ·.1) →
      ((l.find? (·.1 = k)).map Prod.snd = some v ↔ (k, v) ∈ l) := by
    intro l hl
    induction l with
    | nil => simp
    | cons e l ih =>
      obtain ⟨he, hl⟩ := pairwise_cons.mp hl
      by_cases hk : e.1 = k
      · obtain ⟨k₀, v₀⟩ := e
        cases hk
        have hne : (k₀, v) ∉ l := fun hmem => lt_irrefl k₀ (he (k₀, v) hmem)
        simp [hne, eq_comm]
      · have hne : (k, v) ≠ e := fun h => hk (by rw [← h])
        simp [hk, hne, ih hl]
  exact main _ m.sorted

lemma eq_of_find? {n : SortedMap K V} (h : ∀ k, m.find? k = n.find? k) : m = n := by
  apply ext
  have mem : ∀ e, e ∈ m.entries ↔ e ∈ n.entries := by
    rintro ⟨k, v⟩
    rw [← find?_eq_some, h, find?_eq_some]
  have nodup : ∀ m : SortedMap K V, m.entries.Nodup := fun m =>
    m.sorted.imp fun {a b} lt => ne_of_apply_ne Prod.fst lt.ne
  refine ((perm_ext_iff_of_nodup (nodup m) (nodup n)).mpr mem).eq_of_pairwise ?_ m.sorted n.sorted
  intro a b _ _ lt gt
  exact absurd lt gt.asymm

@[simp] lemma find?_empty : (empty : SortedMap K V).find? k = none := rfl

lemma find?_insert : (m.insert k v).find? k' = if k' = k then some v else m.find? k' := by
  have iff : ∀ w, (m.insert k v).find? k' = some w ↔
      (if k' = k then some v else m.find? k') = some w := by
    intro w
    rw [find?_eq_some, mem_insert]
    by_cases h : k' = k
    · subst h
      simp [eq_comm]
    · simp [h, find?_eq_some]
  exact Option.ext iff

lemma find?_insert_self : (m.insert k v).find? k = some v := by
  rw [find?_insert, if_pos rfl]

lemma find?_insert_ne (h : k' ≠ k) : (m.insert k v).find? k' = m.find? k' := by
  rw [find?_insert, if_neg h]

lemma forall_insert {P : V → Prop} (h : ∀ j w, m.find? j = some w → P w) (hv : P v) :
    ∀ j w, (m.insert k v).find? j = some w → P w := by
  intro j w hfind
  rw [find?_insert] at hfind
  split at hfind
  · cases hfind
    exact hv
  · exact h j w hfind

lemma insert_insert : (m.insert k v).insert k v' = m.insert k v' := by
  refine eq_of_find? fun j => ?_
  rw [find?_insert, find?_insert, find?_insert]
  split <;> rfl

lemma insert_find (h : m.find? k = some v) : m.insert k v = m := by
  refine eq_of_find? fun j => ?_
  rw [find?_insert]
  split
  · rename_i heq
    rw [heq, h]
  · rfl

lemma find?_erase : (m.erase k).find? k' = if k' = k then none else m.find? k' := by
  have iff : ∀ w, (m.erase k).find? k' = some w ↔ (if k' = k then none else m.find? k') = some w := by
    intro w
    rw [find?_eq_some, mem_erase]
    by_cases h : k' = k <;> simp [h, find?_eq_some]
  exact Option.ext iff

lemma find?_erase_self : (m.erase k).find? k = none := by
  rw [find?_erase, if_pos rfl]

lemma find?_erase_ne (h : k' ≠ k) : (m.erase k).find? k' = m.find? k' := by
  rw [find?_erase, if_neg h]

lemma split_sorted (h : m.entries = l ++ (k, v) :: r) :
    (∀ e ∈ l, e.1 < k) ∧ ∀ e ∈ r, k < e.1 := by
  have sorted := m.sorted
  rw [h, pairwise_append, pairwise_cons] at sorted
  exact ⟨fun e he => sorted.2.2 e he _ (mem_cons_self ..), sorted.2.1.1⟩

lemma below_of_split (h : m.entries = l ++ (k, v) :: r) : m.below k = l := by
  obtain ⟨hl, hr⟩ := split_sorted h
  rw [below, h, filter_append, filter_eq_self.mpr (by simpa using hl),
    filter_cons_of_neg (by simp), filter_eq_nil_iff.mpr (by simpa using fun a b hab => (hr (a, b) hab).le),
    append_nil]

lemma above_of_split (h : m.entries = l ++ (k, v) :: r) : m.above k = r := by
  obtain ⟨hl, hr⟩ := split_sorted h
  rw [above, h, filter_append, filter_eq_nil_iff.mpr (by simpa using fun a b hab => (hl (a, b) hab).le),
    filter_cons_of_neg (by simp), filter_eq_self.mpr (by simpa using hr), nil_append]

lemma downward_append_above : (m.downward k).reverse ++ m.above k = m.entries := by
  have main : ∀ l : List (K × V), l.Pairwise (·.1 < ·.1) →
      l.filter (·.1 ≤ k) ++ l.filter (k < ·.1) = l := by
    intro l hl
    induction l with
    | nil => rfl
    | cons e l ih =>
      obtain ⟨he, hl⟩ := pairwise_cons.mp hl
      by_cases hk : e.1 ≤ k
      · rw [filter_cons_of_pos (by simpa using hk), filter_cons_of_neg (by simpa using hk),
          cons_append, ih hl]
      have hk' := not_le.mp hk
      have hnil : (e :: l).filter (·.1 ≤ k) = [] := by
        refine filter_eq_nil_iff.mpr fun f hf => ?_
        cases hf with
        | head => simpa using hk'
        | tail _ hf => simpa using hk'.trans (he f hf)
      have hall : (e :: l).filter (k < ·.1) = e :: l := by
        refine filter_eq_self.mpr fun f hf => ?_
        cases hf with
        | head => simpa using hk'
        | tail _ hf => simpa using hk'.trans (he f hf)
      rw [hnil, hall, nil_append]
  rw [downward, reverse_reverse]
  exact main _ m.sorted

/-- The walk upwards from the last key that is not larger leaves out the entries before it. -/
lemma upwardFrom_eq_cons {e : K × V} (h : m.upwardFrom k = e :: r) :
    e.1 ≤ k ∧ ∃ l, m.entries = l ++ e :: r := by
  rw [upwardFrom] at h
  cases hd : m.downward k with
  | nil =>
    rw [hd] at h
    cases h
  | cons f l =>
    rw [hd] at h
    cases h
    have hmem : e ∈ m.downward k := by
      rw [hd]
      exact mem_cons_self ..
    rw [downward, mem_reverse, mem_filter] at hmem
    refine ⟨of_decide_eq_true hmem.2, l.reverse, ?_⟩
    rw [← downward_append_above (k := k), hd, reverse_cons, append_assoc]
    rfl

/-- Setting the value of an entry replaces it in place. -/
lemma insert_of_split (h : m.entries = l ++ (k, v) :: r) :
    (m.insert k v').entries = l ++ (k, v') :: r := by
  rw [entries_insert, below_of_split h, above_of_split h]

/-- A key that is larger than all others goes to the end. -/
lemma insert_last (h : ∀ e ∈ m.entries, e.1 < k) : (m.insert k v).entries = m.entries ++ [(k, v)] := by
  have low : m.below k = m.entries := filter_eq_self.mpr (by simpa using h)
  have high : m.above k = [] := filter_eq_nil_iff.mpr (by simpa using fun a b hab => (h (a, b) hab).le)
  rw [entries_insert, low, high]

lemma erase_of_split (h : m.entries = l ++ (k, v) :: r) : (m.erase k).entries = l ++ r := by
  obtain ⟨hl, hr⟩ := split_sorted h
  rw [entries_erase, h, filter_append, filter_cons_of_neg (by simp),
    filter_eq_self.mpr (by simpa using fun a b hab => (hl (a, b) hab).ne),
    filter_eq_self.mpr (by simpa using fun a b hab => (hr (a, b) hab).ne')]

/-- The walk upwards from a key below all others is the whole map. -/
lemma upward_eq_entries (h : ∀ e ∈ m.entries, k ≤ e.1) : m.upward k = m.entries :=
  filter_eq_self.mpr (by simpa using h)

end SortedMap
