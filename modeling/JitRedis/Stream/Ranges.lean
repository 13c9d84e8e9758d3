import JitRedis.Stream.Trimming

/-!
# Ranges of a stream, and the deletion of an entry

The seek of the radix tree leaves out only nodes whose entries are all before the range, so that an iteration
from the start reads the entries of the whole range. An entry is deleted where the iterator found it.
-/

namespace JitRedis

open Fallible StreamIterator List

variable {n : StreamNode} {lp : Listpack} {i : StreamItem} {done todo rest : List StreamItem}
  {nodes : List StreamNode} {s : Stream} {start stop : Option StreamID} {rev : Bool}
  {P : StreamNode → Bytes × Listpack → Prop}

def allItems (nodes : List StreamNode) : List StreamItem := nodes.flatMap StreamNode.items

/-- The nodes in the order of their keys hold the entries in the order of their IDs. -/
def Increasing (nodes : List StreamNode) : Prop := (allItems nodes).Pairwise (·.id < ·.id)

def startId (start : Option StreamID) : StreamID := start.getD ⟨0, 0⟩

def stopId (stop : Option StreamID) : StreamID := stop.getD ⟨-1, -1⟩

lemma startKey_eq : (streamIteratorStart s start stop rev).startKey = streamEncodeID (startId start) := by
  cases start with
  | none => rfl
  | some id => rfl

lemma endKey_eq : (streamIteratorStart s start stop rev).endKey = streamEncodeID (stopId stop) := by
  cases stop with
  | none => rfl
  | some id => rfl

/-- A live entry of the range. -/
def inRange (start stop : Option StreamID) (i : StreamItem) : Bool :=
  !i.deleted && decide (startId start ≤ i.id) && decide (i.id ≤ stopId stop)

lemma near_start : (streamIteratorStart s start stop rev).near i =
    (!i.deleted && if rev then decide (i.id ≤ stopId stop) else decide (startId start ≤ i.id)) := by
  have hrev : (streamIteratorStart s start stop rev).rev = rev := rfl
  rw [near, startKey_eq, endKey_eq, hrev]
  simp only [streamEncodeID_le]

lemma far_start : (streamIteratorStart s start stop rev).far i =
    if rev then decide (startId start ≤ i.id) else decide (i.id ≤ stopId stop) := by
  have hrev : (streamIteratorStart s start stop rev).rev = rev := rfl
  rw [far, startKey_eq, endKey_eq, hrev]
  simp only [streamEncodeID_le]

lemma near_and_far : ((streamIteratorStart s start stop rev).near i &&
    (streamIteratorStart s start stop rev).far i) = inRange start stop i := by
  rw [near_start, far_start, inRange]
  cases rev with
  | false => rw [if_neg (by simp), if_neg (by simp)]
  | true => rw [if_pos rfl, if_pos rfl, Bool.and_right_comm]

lemma seekOr_subperm {found other entries} (hf : found.Subperm entries)
    (ho : other.Subperm entries) : (seekOr found other).Subperm entries := by
  rw [seekOr]
  split
  · exact ho
  · exact hf

lemma upwardFrom_subperm (m : SortedMap Bytes Listpack) (k : Bytes) : (m.upwardFrom k).Subperm m.entries := by
  cases h : m.upwardFrom k with
  | nil => exact nil_subperm
  | cons e r =>
    obtain ⟨-, l, hl⟩ := SortedMap.upwardFrom_eq_cons h
    rw [hl]
    exact (sublist_append_right l _).subperm

lemma streamIteratorSeek_subperm : (streamIteratorSeek s start stop rev).Subperm s.rax.entries := by
  have hrev : s.rax.entries.reverse.Subperm s.rax.entries := (reverse_perm _).subperm
  cases rev with
  | false =>
    cases start with
    | none => exact List.Subperm.refl _
    | some id =>
      rw [streamIteratorSeek]
      split
      · exact seekOr_subperm (upwardFrom_subperm _ _) (List.Subperm.refl _)
      · exact List.Subperm.refl _
  | true =>
    cases stop with
    | none => exact hrev
    | some id =>
      rw [streamIteratorSeek]
      split
      · refine seekOr_subperm ?_ hrev
        exact (reverse_perm _).subperm.trans filter_sublist.subperm
      · exact hrev

lemma length_nodesAhead_le {ri} (hP : ∀ n e, P n e → n.Renders e)
    (h : List.Forall₂ P nodes ri) : (nodesAhead rev nodes).length ≤ (ri.map fun e => e.2.elements.length).sum := by
  induction h with
  | nil => exact le_rfl
  | @cons n e nodes ri hn _ ih =>
    have hitems : n.items.length ≤ e.2.elements.length := length_items_le (hP n e hn).elements
    rw [nodesAhead] at ih ⊢
    rw [flatMap_cons, length_append, map_cons, sum_cons]
    have hrev : (if rev then n.items.reverse else n.items).length = n.items.length := by
      cases rev with
      | false => rfl
      | true => exact length_reverse
    omega

lemma length_nodesAhead_lt_fuel (hP : ∀ n e, P n e → n.Renders e)
    (h : List.Forall₂ P nodes (streamIteratorSeek s start stop rev)) (p : StreamItem → Bool) :
    ((nodesAhead rev nodes).filter p).length < s.fuel := by
  have hle := (length_filter_le p (nodesAhead rev nodes)).trans (length_nodesAhead_le hP h)
  obtain ⟨l, hl, hsub⟩ := @streamIteratorSeek_subperm s start stop rev
  have hsum := (hsub.map fun e => e.2.elements.length).sum_le_sum fun _ _ => Nat.zero_le _
  rw [(hl.map _).sum_eq] at hsum
  rw [Stream.fuel]
  omega

lemma forall₂_exists_right {α β : Type} {R} {l : List α} {r : List β} (h : List.Forall₂ R l r) :
    ∀ a ∈ l, ∃ b ∈ r, R a b := by
  induction h with
  | nil => exact fun _ ha => (nomatch ha)
  | cons hab _ ih =>
    intro a ha
    rcases mem_cons.mp ha with rfl | ha
    · exact ⟨_, mem_cons_self .., hab⟩
    · obtain ⟨b, hb, hab⟩ := ih a ha
      exact ⟨b, mem_cons_of_mem _ hb, hab⟩

variable {l : List (Bytes × Listpack)}

lemma forall₂_exists {nodes} (h : List.Forall₂ P nodes l) :
    ∀ e ∈ l, ∃ n, P n e := by
  intro e he
  obtain ⟨n, -, hn⟩ := forall₂_exists_right h.flip e he
  exact ⟨n, hn⟩

lemma exists_forall₂ (h : ∀ e ∈ l, ∃ n, P n e) : ∃ nodes, List.Forall₂ P nodes l := by
  induction l with
  | nil => exact ⟨[], .nil⟩
  | cons e l ih =>
    obtain ⟨n, hn⟩ := h e (mem_cons_self ..)
    obtain ⟨nodes, hnodes⟩ := ih fun f hf => h f (mem_cons_of_mem _ hf)
    exact ⟨n :: nodes, .cons hn hnodes⟩

lemma ready_of_seek (h : List.Forall₂ P nodes (streamIteratorSeek s start stop rev)) :
    (streamIteratorStart s start stop rev).Ready P (nodesAhead rev nodes) := ⟨nodes, h, .inl ⟨rfl, rfl⟩⟩

lemma ready_start (start stop : Option StreamID) (rev : Bool) (h : ∀ e ∈ s.rax.entries, ∃ n, P n e) : ∃ nodes,
    List.Forall₂ P nodes (streamIteratorSeek s start stop rev) ∧
      (streamIteratorStart s start stop rev).Ready P (nodesAhead rev nodes) := by
  obtain ⟨nodes, hnodes⟩ := exists_forall₂ fun e he =>
    h e ((@streamIteratorSeek_subperm s start stop rev).subset he)
  exact ⟨nodes, hnodes, ready_of_seek hnodes⟩

lemma allItems_append {l r} : allItems (l ++ r) = allItems l ++ allItems r := flatMap_append

lemma allItems_cons {l} : allItems (n :: l) = n.items ++ allItems l := flatMap_cons

lemma nodesAhead_forward : nodesAhead false nodes = allItems nodes := by
  simp [nodesAhead, allItems]

lemma nodesAhead_backward : nodesAhead true nodes.reverse = (allItems nodes).reverse := by
  simp [nodesAhead, allItems, reverse_flatMap, Function.comp_def]

/-- The live entries are in the order of their IDs, between the master entry of their node and the one of the next. -/
structure Ordered (nodes : List StreamNode) : Prop where
  live : (nodes.flatMap StreamNode.live).Pairwise (·.id < ·.id)
  within : ∀ n ∈ nodes, ∀ i ∈ n.live, n.masterId ≤ i.id
  before : nodes.Pairwise fun m n => ∀ i ∈ m.live, i.id < n.masterId

lemma live_allItems (nodes : List StreamNode) :
    (allItems nodes).filter (fun i => !i.deleted) = nodes.flatMap StreamNode.live := filter_flatMap ..

lemma head_le {first : StreamItem} {rest} (sorted : (first :: rest).Pairwise (·.id < ·.id)) (hi : i ∈ first :: rest) :
    first.id ≤ i.id := by
  rcases mem_cons.mp hi with rfl | hi
  · exact le_rfl
  · exact ((pairwise_cons.mp sorted).1 i hi).le

lemma mem_live : i ∈ n.live ↔ i ∈ n.items ∧ i.deleted = false := by
  rw [StreamNode.live, mem_filter, Bool.not_eq_true']

lemma Increasing.ordered (h : Increasing nodes)
    (hr : List.Forall₂ StreamNode.Renders nodes l) : Ordered nodes := by
  refine ⟨?_, ?_, ?_⟩
  · rw [← live_allItems]
    exact List.Pairwise.filter _ h
  · intro n hn i hi
    obtain ⟨e, -, hne⟩ := forall₂_exists_right hr n hn
    obtain ⟨first, rest, hitems, hid⟩ := hne.first
    have sorted : n.items.Pairwise (·.id < ·.id) := (pairwise_flatMap.mp h).1 n hn
    have hmem := (mem_live.mp hi).1
    rw [hitems] at sorted hmem
    rw [← hid]
    exact head_le sorted hmem
  · induction hr with
    | nil => exact .nil
    | @cons n e nodes l hn hr ih =>
      rw [Increasing, allItems_cons, pairwise_append] at h
      refine .cons (fun m hm i hi => ?_) (ih h.2.1)
      obtain ⟨e', -, hm'⟩ := forall₂_exists_right hr m hm
      obtain ⟨first, rest, hitems, hid⟩ := hm'.first
      rw [← hid]
      refine h.2.2 i (mem_live.mp hi).1 first (mem_flatMap.mpr ⟨m, hm, ?_⟩)
      rw [hitems]
      exact mem_cons_self ..

lemma forall₂_append_right {r} (h : List.Forall₂ P nodes (l ++ r)) :
    ∃ nl nr, nodes = nl ++ nr ∧ List.Forall₂ P nl l ∧ List.Forall₂ P nr r :=
  ⟨nodes.take l.length, nodes.drop l.length, (take_append_drop ..).symm, forall₂_take_append _ _ _ h,
    forall₂_drop_append _ _ _ h⟩

lemma Ordered.above {id nl nr r}
    (hord : Ordered (nl ++ nr)) (hP : ∀ n e, P n e → n.Renders e) (h : List.Forall₂ P nr r)
    (hr : ∀ e ∈ r, streamEncodeID id < e.1) : ∀ j ∈ allItems nr, j.deleted = false → id < j.id := by
  intro j hj hlive
  obtain ⟨n, hn, hj⟩ := mem_flatMap.mp hj
  obtain ⟨e, he, hne⟩ := forall₂_exists_right h n hn
  have hkey := hr e he
  rw [(hP n e hne).key, streamEncodeID_lt] at hkey
  exact hkey.trans_le (hord.within n (mem_append_right _ hn) j (mem_live.mpr ⟨hj, hlive⟩))

lemma seek_forward_near (start stop : Option StreamID) (hP : ∀ n e, P n e → n.Renders e) (h : List.Forall₂ P nodes s.rax.entries)
    (hord : Ordered nodes) : ∃ nodes', List.Forall₂ P nodes' (streamIteratorSeek s start stop false) ∧
      (nodesAhead false nodes').filter (streamIteratorStart s start stop false).near =
        (allItems nodes).filter (streamIteratorStart s start stop false).near := by
  have all : List.Forall₂ P nodes s.rax.entries ∧
      (nodesAhead false nodes).filter (streamIteratorStart s start stop false).near =
        (allItems nodes).filter (streamIteratorStart s start stop false).near := ⟨h, by rw [nodesAhead_forward]⟩
  cases start with
  | none => exact ⟨nodes, all⟩
  | some id =>
    rw [streamIteratorSeek]
    split
    · rw [seekOr]
      cases hfrom : s.rax.upwardFrom (streamEncodeID id) with
      | nil => exact ⟨nodes, all⟩
      | cons e r =>
        obtain ⟨hle, l, hl⟩ := SortedMap.upwardFrom_eq_cons hfrom
        rw [hl] at h
        obtain ⟨nl, nr, rfl, -, hnr⟩ := forall₂_append_right h
        obtain ⟨n, nr, hn, hr, rfl⟩ := forall₂_cons_right_iff.mp hnr
        refine ⟨n :: nr, hnr, ?_⟩
        have hnone : (allItems nl).filter (streamIteratorStart s (some id) stop false).near = [] := by
          refine filter_eq_nil_iff.mpr fun j hj => ?_
          rw [(hP n e hn).key, streamEncodeID_le] at hle
          rw [near_start, if_neg (by simp)]
          cases hdel : j.deleted with
          | true => simp
          | false =>
            obtain ⟨m, hm, hj⟩ := mem_flatMap.mp hj
            have hlt := ((pairwise_append.mp hord.before).2.2 m hm n (mem_cons_self ..) j
              (mem_live.mpr ⟨hj, hdel⟩)).trans_le hle
            rw [decide_eq_false (show ¬ startId (some id) ≤ j.id from not_le.mpr hlt), Bool.and_false]
            exact Bool.false_ne_true
        rw [nodesAhead_forward, allItems_append, filter_append, hnone, nil_append]
    · exact ⟨nodes, all⟩

lemma seek_backward_near (start stop : Option StreamID) (hP : ∀ n e, P n e → n.Renders e) (h : List.Forall₂ P nodes s.rax.entries)
    (hord : Ordered nodes) : ∃ nodes', List.Forall₂ P nodes' (streamIteratorSeek s start stop true) ∧
      (nodesAhead true nodes').filter (streamIteratorStart s start stop true).near =
        (allItems nodes).reverse.filter (streamIteratorStart s start stop true).near := by
  have all : List.Forall₂ P nodes.reverse s.rax.entries.reverse ∧
      (nodesAhead true nodes.reverse).filter (streamIteratorStart s start stop true).near =
        (allItems nodes).reverse.filter (streamIteratorStart s start stop true).near :=
    ⟨forall₂_reverse_iff.mpr h, by rw [nodesAhead_backward]⟩
  cases stop with
  | none => exact ⟨_, all⟩
  | some id =>
    rw [streamIteratorSeek]
    split
    · rw [seekOr]
      split
      · exact ⟨_, all⟩
      have hsplit := SortedMap.downward_append_above (m := s.rax) (k := streamEncodeID id)
      rw [← hsplit] at h
      obtain ⟨nl, nr, rfl, hnl, hnr⟩ := forall₂_append_right h
      refine ⟨nl.reverse, ?_, ?_⟩
      · rw [← forall₂_reverse_iff, reverse_reverse]
        exact hnl
      have hnone : (allItems nr).reverse.filter (streamIteratorStart s start (some id) true).near = [] := by
        refine filter_eq_nil_iff.mpr fun j hj => ?_
        rw [near_start, if_pos rfl]
        cases hdel : j.deleted with
        | true => simp
        | false =>
          have hlt := hord.above hP hnr (fun e he => (SortedMap.mem_above.mp he).2) j (mem_reverse.mp hj) hdel
          rw [decide_eq_false (show ¬ j.id ≤ stopId (some id) from not_le.mpr hlt), Bool.and_false]
          exact Bool.false_ne_true
      rw [nodesAhead_backward, allItems_append, reverse_append, filter_append, hnone, nil_append]
    · exact ⟨_, all⟩

lemma takeWhile_eq_filter {p : StreamItem → Bool} {l : List StreamItem}
    (h : l.Pairwise fun i j => p j = true → p i = true) : l.takeWhile p = l.filter p := by
  induction l with
  | nil => rfl
  | cons i l ih =>
    obtain ⟨hi, hl⟩ := pairwise_cons.mp h
    cases hp : p i with
    | true => rw [takeWhile_cons_of_pos hp, filter_cons_of_pos hp, ih hl]
    | false =>
      rw [takeWhile_cons_of_neg (by simp [hp]), eq_comm, filter_eq_nil_iff]
      intro j hj hpj
      cases hj with
      | head => simp [hp] at hpj
      | tail _ hj =>
        have := hi j hj hpj
        simp [hp] at this

/-- The entries of a range in the order of the iteration. -/
def rangeItems (rev : Bool) (start stop : Option StreamID) (nodes : List StreamNode) : List StreamItem :=
  if rev then ((allItems nodes).filter (inRange start stop)).reverse else (allItems nodes).filter (inRange start stop)

lemma Ordered.near (hord : Ordered nodes) :
    ((allItems nodes).filter (streamIteratorStart s start stop rev).near).Pairwise (·.id < ·.id) := by
  have hsub : (allItems nodes).filter (streamIteratorStart s start stop rev).near =
      ((allItems nodes).filter fun i => !i.deleted).filter (streamIteratorStart s start stop rev).near := by
    rw [filter_filter]
    refine filter_congr fun i _ => ?_
    rw [near_start]
    cases i.deleted <;> simp
  rw [hsub, live_allItems]
  exact hord.live.filter _

lemma range_start (start stop : Option StreamID) (rev : Bool) (hP : ∀ n e, P n e → n.Renders e) (h : List.Forall₂ P nodes s.rax.entries)
    (hord : Ordered nodes) : ∃ nodes', List.Forall₂ P nodes' (streamIteratorSeek s start stop rev) ∧
      ((nodesAhead rev nodes').filter (streamIteratorStart s start stop rev).near).takeWhile
        (streamIteratorStart s start stop rev).far = rangeItems rev start stop nodes := by
  have both : ∀ l : List StreamItem, (l.filter (streamIteratorStart s start stop rev).near).filter
      (streamIteratorStart s start stop rev).far = l.filter (inRange start stop) := by
    intro l
    rw [filter_filter]
    refine filter_congr fun i _ => ?_
    rw [Bool.and_comm, near_and_far]
  cases rev with
  | false =>
    obtain ⟨nodes', hseek, hnear⟩ := seek_forward_near start stop hP h hord
    refine ⟨nodes', hseek, ?_⟩
    rw [hnear, takeWhile_eq_filter, both]
    · rfl
    · refine hord.near.imp fun {i j} lt hj => ?_
      rw [far_start, if_neg (by simp), decide_eq_true_iff] at hj ⊢
      exact lt.le.trans hj
  | true =>
    obtain ⟨nodes', hseek, hnear⟩ := seek_backward_near start stop hP h hord
    refine ⟨nodes', hseek, ?_⟩
    rw [hnear, takeWhile_eq_filter, both, filter_reverse]
    · rfl
    · rw [filter_reverse]
      refine (pairwise_reverse.mpr hord.near).imp fun {i j} lt hj => ?_
      rw [far_start, if_pos rfl, decide_eq_true_iff] at hj ⊢
      exact hj.trans lt.le

/-- A node with its place in the tree. -/
def NodeAt (nodes : List StreamNode) (l : List (Bytes × Listpack)) (n : StreamNode) (e : Bytes × Listpack) : Prop :=
  ∃ nl nr el er, nodes = nl ++ n :: nr ∧ l = el ++ e :: er ∧ List.Forall₂ StreamNode.Renders nl el ∧ n.Renders e ∧
    List.Forall₂ StreamNode.Renders nr er

lemma forall₂_nodeAt (h : List.Forall₂ StreamNode.Renders nodes l) :
    List.Forall₂ (NodeAt nodes l) nodes l := by
  -- With the nodes that come before, by recursion on the others.
  have main : ∀ {nl el}, List.Forall₂ StreamNode.Renders nl el →
      List.Forall₂ (NodeAt (nl ++ nodes) (el ++ l)) nodes l := by
    induction h with
    | nil => exact fun _ => .nil
    | @cons n e nodes l hn hl ih =>
      intro nl el hnl
      have next := ih (rel_append hnl (.cons hn .nil))
      simp only [append_assoc, singleton_append] at next
      exact .cons ⟨nl, nodes, el, l, rfl, rfl, hnl, hn, hl⟩ next
  exact main .nil

lemma NodeAt.renders {e} (h : NodeAt nodes l n e) : n.Renders e := by
  obtain ⟨_, _, _, _, _, _, _, hn, _⟩ := h
  exact hn

/-- What `streamDeleteItem` may return: the entry was not found, or it was removed from its node. -/
inductive Deletes (P : StreamNode → Bytes × Listpack → Prop) (s : Stream) (id : StreamID) (rest : List StreamItem) :
    Stream × Bool → Prop
  | missing (h : (rest.filter (streamIteratorStart s (some id) (some id) false).near).takeWhile
      (streamIteratorStart s (some id) (some id) false).far = []) : Deletes P s id rest (s, false)
  | removed {s' : Stream} {n : StreamNode} {key : Bytes} {lp : Listpack} {done : List StreamItem} {i : StreamItem}
    {todo : List StreamItem} (hn : P n (key, lp)) (items : n.items = done ++ i :: todo) (live : i.deleted = false)
    (hid : i.id = id) (h : Removed s (n.withDeleted done i todo) key s') : Deletes P s id rest (s', true)

lemma streamDeleteItem_spec {id} (hP : ∀ n e, P n e → n.Renders e)
    (h : List.Forall₂ P nodes (streamIteratorSeek s (some id) (some id) false)) :
    Sat OnlyFull (Deletes P s id (nodesAhead false nodes)) (streamDeleteItem s id) := by
  rw [streamDeleteItem]
  refine Sat.bind ((ready_of_seek h).getID hP).total fun r hr => ?_
  obtain ⟨si, _ | ⟨myid, numfields⟩⟩ := r
  · exact .missing hr
  obtain ⟨i, rest, hcons, hfar, -, ⟨n, lp, done, todo, nodes', on, hn, -, -⟩, -, -⟩ := hr
  have hnear : (streamIteratorStart s (some id) (some id) false).near i = true := by
    have hmem : i ∈ (nodesAhead false nodes).filter (streamIteratorStart s (some id) (some id) false).near := by
      rw [hcons]
      exact mem_cons_self ..
    exact (mem_filter.mp hmem).2
  rw [near_start, if_neg (by simp), Bool.and_eq_true, decide_eq_true_iff, Bool.not_eq_true'] at hnear
  rw [far_start, if_neg (by simp), decide_eq_true_iff] at hfar
  refine Sat.bind (streamIteratorRemoveEntry_spec on hnear.1) fun r hr => ?_
  exact .removed hn on.items hnear.1 (le_antisymm hfar hnear.2) hr

end JitRedis
