import JitRedis.Lib.Buckets
import JitRedis.Rax.Model

/-!
# What a radix tree contains

The keys of a tree with their values, the number of its nodes, and its well-formedness; and how these
follow from a node and the stack of its parents, so that an operation that changes a node in place needs
to be looked at there only.
-/

namespace JitRedis

open List

variable {V : Type}

/-- A key below the bytes `p`. -/
def under (p : Bytes) (e : Bytes × Option V) : Bytes × Option V := (p ++ e.1, e.2)

/-- The entry of a node that is a key. -/
def ownEntry (key : Option (Option V)) : List (Bytes × Option V) := key.toList.map fun v => ([], v)

mutual

/-- The keys below a node with their values. -/
def RaxNode.entries : RaxNode V → List (Bytes × Option V)
  | .branch key edges => ownEntry key ++ edgesEntries edges
  | .compr key s child => ownEntry key ++ child.entries.map (under s)

/-- The keys below the edges of a node. -/
def edgesEntries : List (UInt8 × RaxNode V) → List (Bytes × Option V)
  | [] => []
  | (c, n) :: es => n.entries.map (under [c]) ++ edgesEntries es

end

mutual

/-- The nodes of a tree. -/
def RaxNode.count : RaxNode V → Nat
  | .branch _ edges => edgesCount edges + 1
  | .compr _ _ child => child.count + 1

/-- The nodes below the edges of a node. -/
def edgesCount : List (UInt8 × RaxNode V) → Nat
  | [] => 0
  | (_, n) :: es => n.count + edgesCount es

end

/-- A well-formed node: the edges are in strictly increasing order, a node without children is a key,
and a compressed node has between two bytes and the maximum. -/
inductive RaxNode.Wf : RaxNode V → Prop where
  | branch {key edges} :
    (edges.map Prod.fst).Pairwise (· < ·) →
    (∀ e ∈ edges, e.2.Wf) →
    (edges = [] → key.isSome) →
    RaxNode.Wf (.branch key edges)
  | compr {key s child} :
    2 ≤ s.length →
    s.length ≤ raxNodeMaxSize →
    child.Wf →
    RaxNode.Wf (.compr key s child)

/-- The bytes that lead from a parent to the child. -/
def RaxFrame.path : RaxFrame V → Bytes
  | .branch _ _ c _ => [c]
  | .compr _ s => s

/-- The keys of a parent that are not below the child. -/
def RaxFrame.entries : RaxFrame V → List (Bytes × Option V)
  | .branch key left _ right => ownEntry key ++ (edgesEntries left ++ edgesEntries right)
  | .compr key _ => ownEntry key

/-- The nodes of a parent that are not below the child. -/
def RaxFrame.count : RaxFrame V → Nat
  | .branch _ left _ right => edgesCount left + edgesCount right + 1
  | .compr _ _ => 1

/-- A parent that is well formed with any well-formed child. -/
inductive RaxFrame.Wf : RaxFrame V → Prop where
  | branch {key left c right} :
    (left.map Prod.fst ++ c :: right.map Prod.fst).Pairwise (· < ·) →
    (∀ e ∈ left ++ right, e.2.Wf) →
    RaxFrame.Wf (.branch key left c right)
  | compr {key s} :
    2 ≤ s.length →
    s.length ≤ raxNodeMaxSize →
    RaxFrame.Wf (.compr key s)

/-- The bytes that lead to the node below the parents. -/
def pathOf : List (RaxFrame V) → Bytes
  | [] => []
  | f :: ts => pathOf ts ++ f.path

/-- The keys of a tree that are not below the node. -/
def entriesAround : List (RaxFrame V) → List (Bytes × Option V)
  | [] => []
  | f :: ts => f.entries.map (under (pathOf ts)) ++ entriesAround ts

/-- The nodes of a tree that are not below the node. -/
def countAround : List (RaxFrame V) → Nat
  | [] => 0
  | f :: ts => f.count + countAround ts

@[simp] lemma ownEntry_none : ownEntry (none : Option (Option V)) = [] := rfl

@[simp] lemma ownEntry_some (v : Option V) : ownEntry (some v) = [([], v)] := rfl

@[simp] lemma under_nil_left (p : Bytes) (v : Option V) : under p ([], v) = (p, v) := by
  rw [under, append_nil]

@[simp] lemma under_nil : under ([] : Bytes) = (id : Bytes × Option V → Bytes × Option V) := rfl

@[simp] lemma map_under_under (p r : Bytes) (es : List (Bytes × Option V)) :
    (es.map (under r)).map (under p) = es.map (under (p ++ r)) := by
  rw [map_map]
  refine map_congr_left fun e _ => ?_
  simp [under]

@[simp] lemma edgesEntries_append (es es' : List (UInt8 × RaxNode V)) :
    edgesEntries (es ++ es') = edgesEntries es ++ edgesEntries es' := by
  induction es with
  | nil => rfl
  | cons e es ih => simp [edgesEntries, ih]

@[simp] lemma edgesCount_append (es es' : List (UInt8 × RaxNode V)) :
    edgesCount (es ++ es') = edgesCount es + edgesCount es' := by
  induction es with
  | nil => simp [edgesCount]
  | cons e es ih => simp [edgesCount, ih, Nat.add_assoc]

lemma mem_edgesEntries {es : List (UInt8 × RaxNode V)} {e : Bytes × Option V} (h : e ∈ edgesEntries es) :
    ∃ c n s, (c, n) ∈ es ∧ e.1 = c :: s := by
  induction es with
  | nil => cases h
  | cons d es ih =>
    rw [edgesEntries, mem_append] at h
    cases h with
    | inl h =>
      obtain ⟨e', -, rfl⟩ := mem_map.mp h
      exact ⟨d.1, d.2, e'.1, mem_cons_self .., rfl⟩
    | inr h =>
      obtain ⟨c, n, s, hmem, hs⟩ := ih h
      exact ⟨c, n, s, mem_cons_of_mem _ hmem, hs⟩

lemma mem_ownEntry {key : Option (Option V)} {e : Bytes × Option V} (h : e ∈ ownEntry key) : e.1 = [] := by
  obtain ⟨v, -, rfl⟩ := mem_map.mp h
  rfl

lemma RaxFrame.entries_plug (f : RaxFrame V) (n : RaxNode V) :
    (f.plug n).entries.Perm (n.entries.map (under f.path) ++ f.entries) := by
  cases f with
  | branch key left c right =>
    rw [plug, RaxNode.entries, edgesEntries_append, edgesEntries]
    refine (List.Perm.append_left _ (perm_append_comm_assoc ..)).trans ?_
    exact perm_append_comm_assoc ..
  | compr key s =>
    exact perm_append_comm

lemma entries_plug (ts : List (RaxFrame V)) (n : RaxNode V) :
    (plug ts n).entries.Perm (n.entries.map (under (pathOf ts)) ++ entriesAround ts) := by
  induction ts generalizing n with
  | nil => simp [plug, pathOf, entriesAround]
  | cons f ts ih =>
    refine (ih (f.plug n)).trans ?_
    have h := ((f.entries_plug n).map (under (pathOf ts))).append_right (entriesAround ts)
    rwa [map_append, map_under_under, append_assoc] at h

lemma RaxFrame.count_plug (f : RaxFrame V) (n : RaxNode V) : (f.plug n).count = n.count + f.count := by
  cases f with
  | branch key left c right =>
    rw [plug, RaxNode.count, edgesCount_append, edgesCount, RaxFrame.count]
    omega
  | compr key s => rfl

lemma count_plug (ts : List (RaxFrame V)) (n : RaxNode V) :
    (plug ts n).count = n.count + countAround ts := by
  induction ts generalizing n with
  | nil => rfl
  | cons f ts ih =>
    rw [plug, ih, f.count_plug, countAround]
    omega

lemma RaxFrame.Wf.plug {f : RaxFrame V} {n : RaxNode V} (hf : f.Wf) (hn : n.Wf) : (f.plug n).Wf := by
  cases hf with
  | @branch key left c right sorted wf =>
    refine .branch (by simpa using sorted) (fun e he => ?_) (by simp)
    rw [mem_append, mem_cons] at he
    rcases he with he | rfl | he
    · exact wf e (mem_append_left _ he)
    · exact hn
    · exact wf e (mem_append_right _ he)
  | compr two max => exact .compr two max hn

lemma wf_plug {ts : List (RaxFrame V)} {n : RaxNode V} (hts : ∀ f ∈ ts, f.Wf) (hn : n.Wf) :
    (plug ts n).Wf := by
  induction ts generalizing n with
  | nil => exact hn
  | cons f ts ih =>
    exact ih (fun g hg => hts g (mem_cons_of_mem _ hg)) ((hts f (mem_cons_self ..)).plug hn)

lemma RaxFrame.Wf.path_not_below {f : RaxFrame V} (hf : f.Wf) {e : Bytes × Option V} (he : e ∈ f.entries) :
    ¬ f.path <+: e.1 := by
  cases hf with
  | @branch key left c right sorted wf =>
    rw [RaxFrame.entries, mem_append] at he
    rw [path]
    cases he with
    | inl he =>
      rw [mem_ownEntry he]
      simp
    | inr he =>
      rw [← edgesEntries_append] at he
      obtain ⟨d, n, s, hmem, hs⟩ := mem_edgesEntries he
      rw [hs, cons_prefix_cons]
      rintro ⟨rfl, -⟩
      have nodup := sorted.imp (S := (· ≠ ·)) fun h => UInt8.ne_of_lt h
      rw [pairwise_append] at nodup
      rw [mem_append] at hmem
      cases hmem with
      | inl hmem => exact nodup.2.2 c (mem_map_of_mem hmem) c (mem_cons_self ..) rfl
      | inr hmem => exact (pairwise_cons.mp nodup.2.1).1 c (mem_map_of_mem hmem) rfl
  | compr two max =>
    rw [mem_ownEntry he, path, prefix_nil]
    rintro rfl
    simp at two

lemma not_prefix_around {ts : List (RaxFrame V)} (hts : ∀ f ∈ ts, f.Wf) {e : Bytes × Option V}
    (he : e ∈ entriesAround ts) : ¬ pathOf ts <+: e.1 := by
  induction ts generalizing e with
  | nil => cases he
  | cons f ts ih =>
    rw [entriesAround, mem_append] at he
    rw [pathOf]
    cases he with
    | inl he =>
      obtain ⟨e', he', rfl⟩ := mem_map.mp he
      rw [under, prefix_append_right_inj]
      exact (hts f (mem_cons_self ..)).path_not_below he'
    | inr he =>
      intro hp
      exact ih (fun g hg => hts g (mem_cons_of_mem _ hg)) he ((prefix_append ..).trans hp)

end JitRedis
