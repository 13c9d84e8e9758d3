import JitRedis.Stream.Delivery

/-!
# Streams whose live entries are in order

`XSETID` may set the last ID back behind entries that were deleted, so that only the live entries are in the order of
their IDs. That is enough for the iterator, and for the lookup of an entry by its ID.
-/

namespace JitRedis

open Fallible List StreamNode

def liveItems (nodes : List StreamNode) : List StreamItem := nodes.flatMap StreamNode.live

/-- The live entries are in order, as many as `length`, with IDs that are not zero and not above the last ID. -/
structure Stream.InOrder (s : Stream) (nodes : List StreamNode) : Prop where
  renders : List.Forall₂ StreamNode.Renders nodes s.rax.entries
  ordered : Ordered nodes
  bounded : ∀ i ∈ liveItems nodes, i.id ≤ s.lastId
  length : s.length = (liveItems nodes).length
  filled : ∀ i ∈ liveItems nodes, i.fields ≠ []
  positive : ∀ i ∈ liveItems nodes, ⟨0, 0⟩ < i.id

variable {s s' : Stream} {nodes nodes' nl nr : List StreamNode} {n : StreamNode} {i : StreamItem} {id : StreamID}
  {fields : List (Bytes × Bytes)} {done todo : List StreamItem}

lemma StreamID.zero_le (id : StreamID) : ⟨0, 0⟩ ≤ id := Nat.zero_le _

lemma liveItems_append : liveItems (nl ++ nr) = liveItems nl ++ liveItems nr := flatMap_append

lemma liveItems_cons : liveItems (n :: nr) = n.live ++ liveItems nr := flatMap_cons

lemma mem_liveItems : i ∈ liveItems nodes ↔ ∃ n ∈ nodes, i ∈ n.live := mem_flatMap

lemma Ordered.snoc (h : Ordered nodes) (sorted : n.live.Pairwise (·.id < ·.id)) (within : ∀ i ∈ n.live, n.masterId ≤ i.id)
    (before : ∀ i ∈ liveItems nodes, i.id < n.masterId) : Ordered (nodes ++ [n]) := by
  refine ⟨?_, ?_, ?_⟩
  · rw [flatMap_append, flatMap_singleton, pairwise_append]
    exact ⟨h.live, sorted, fun i hi j hj => (before i hi).trans_le (within j hj)⟩
  · exact forall_mem_append.mpr ⟨h.within, forall_mem_singleton.mpr within⟩
  · rw [pairwise_append]
    refine ⟨h.before, pairwise_singleton _ _, fun m hm n' hn' i hi => ?_⟩
    rw [mem_singleton.mp hn']
    exact before i (mem_liveItems.mpr ⟨m, hm, hi⟩)

lemma Ordered.last (h : Ordered (nodes ++ [n])) : Ordered nodes ∧ n.live.Pairwise (·.id < ·.id) ∧
    (∀ i ∈ n.live, n.masterId ≤ i.id) ∧ ∀ i ∈ liveItems nodes, i.id < n.masterId := by
  obtain ⟨live, within, before⟩ := h
  rw [flatMap_append, flatMap_singleton, pairwise_append] at live
  rw [pairwise_append] at before
  refine ⟨⟨live.1, fun m hm => within m (mem_append_left _ hm), before.1⟩, live.2.1,
    within n (mem_append_right _ (mem_singleton_self n)), fun i hi => ?_⟩
  obtain ⟨m, hm, hi⟩ := mem_liveItems.mp hi
  exact before.2.2 m hm n (mem_singleton_self n) i hi

/-- A node that has lost entries. -/
def Thinner (n' n : StreamNode) : Prop := n'.masterId = n.masterId ∧ n'.live.Sublist n.live

lemma Thinner.refl (n : StreamNode) : Thinner n n := ⟨rfl, .refl _⟩

lemma thinner_self (nodes : List StreamNode) : List.Forall₂ Thinner nodes nodes :=
  forall₂_same.mpr fun n _ => Thinner.refl n

lemma Ordered.thin (h : Ordered nodes) (thin : List.SublistForall₂ Thinner nodes' nodes) :
    Ordered nodes' ∧ (liveItems nodes').Sublist (liveItems nodes) := by
  induction thin with
  | nil => exact ⟨⟨.nil, fun _ h => (nomatch h), .nil⟩, nil_sublist _⟩
  | @cons n' n l' l hn thin ih =>
    obtain ⟨live, within, before⟩ := h
    rw [flatMap_cons, pairwise_append] at live
    rw [pairwise_cons] at before
    obtain ⟨ordered, sub⟩ := ih ⟨live.2.1, fun m hm => within m (mem_cons_of_mem _ hm), before.2⟩
    obtain ⟨hid, hlive⟩ := hn
    refine ⟨⟨?_, ?_, ?_⟩, hlive.append sub⟩
    · rw [flatMap_cons, pairwise_append]
      exact ⟨live.1.sublist hlive, ordered.live,
        fun i hi j hj => live.2.2 i (hlive.subset hi) j (sub.subset hj)⟩
    · intro m hm i hi
      rcases mem_cons.mp hm with rfl | hm
      · rw [hid]
        exact within n (mem_cons_self ..) i (hlive.subset hi)
      · exact ordered.within m hm i hi
    · refine .cons (fun m' hm' i hi => ?_) ordered.before
      obtain ⟨m, hm, hmid⟩ : ∃ m ∈ l, m'.masterId = m.masterId := by
        obtain ⟨l₀, hl₀, hsub⟩ := sublistForall₂_iff.mp thin
        obtain ⟨m, hm, hmm⟩ := forall₂_exists_right hl₀ m' hm'
        exact ⟨m, hsub.subset hm, hmm.1⟩
      rw [hmid]
      exact before.1 m hm i (hlive.subset hi)
  | @cons_right n l' l thin ih =>
    obtain ⟨live, within, before⟩ := h
    rw [flatMap_cons, pairwise_append] at live
    obtain ⟨ordered, sub⟩ := ih ⟨live.2.1, fun m hm => within m (mem_cons_of_mem _ hm),
      (pairwise_cons.mp before).2⟩
    exact ⟨ordered, sub.trans (sublist_append_right _ _)⟩

lemma thin_trimNodes (maxlen : Nat) (approx : Bool) (length : Nat) (nodes : List StreamNode) :
    List.SublistForall₂ Thinner (trimNodes maxlen approx length nodes).2 nodes := by
  have all : ∀ l : List StreamNode, List.SublistForall₂ Thinner l l := fun l =>
    sublistForall₂_iff.mpr ⟨l, thinner_self l, .refl l⟩
  fun_induction trimNodes with
  | case3 length n nodes _ _ ih => exact .cons_right ih
  | case5 length n nodes => exact .cons ⟨rfl, by rw [live_mark]; exact drop_sublist ..⟩ (all _)
  | _ => exact all _

lemma live_withDeleted (items : n.items = done ++ i :: todo) (hi : i.deleted = false) :
    ∃ l r, n.live = l ++ i :: r ∧ (n.withDeleted done i todo).live = l ++ r := by
  refine ⟨done.filter fun i => !i.deleted, todo.filter fun i => !i.deleted, ?_, ?_⟩
  · rw [live, items, filter_append, filter_cons_of_pos (by simp [hi])]
  · rw [live, withDeleted, filter_append, filter_cons_of_neg (by simp)]

namespace Stream.InOrder

section

variable (h : s.InOrder nodes)
include h

lemma key_le : ∀ e ∈ s.rax.entries, e.1 ≤ streamEncodeID s.lastId := by
  intro e he
  obtain ⟨n, hmem, hn⟩ := forall₂_exists_right h.renders.flip e he
  obtain ⟨i, rest, hi⟩ := exists_cons_of_ne_nil hn.live
  have hlive : i ∈ n.live := by
    rw [hi]
    exact mem_cons_self ..
  rw [hn.key, streamEncodeID_le]
  exact (h.ordered.within n hmem i hlive).trans (h.bounded i (mem_liveItems.mpr ⟨n, hmem, hlive⟩))

lemma snoc {same} (hlt : s.lastId < id) (hfields : fields ≠ [])
    (renders : List.Forall₂ StreamNode.Renders nodes' s'.rax.entries) (ordered : Ordered nodes')
    (hlive : liveItems nodes' = liveItems nodes ++ [newItem same id fields]) (hlast : s'.lastId = id)
    (hlength : s'.length = s.length + 1) : s'.InOrder nodes' where
  renders := renders
  ordered := ordered
  bounded := by
    rw [hlive, hlast, forall_mem_append, forall_mem_singleton]
    exact ⟨fun i hi => ((h.bounded i hi).trans_lt hlt).le, le_rfl⟩
  length := by rw [hlength, hlive, length_append, length_singleton, h.length]
  filled := by
    rw [hlive, forall_mem_append, forall_mem_singleton]
    exact ⟨h.filled, fun hnil => hfields (map_eq_nil_iff.mp hnil)⟩
  positive := by
    rw [hlive, forall_mem_append, forall_mem_singleton]
    exact ⟨h.positive, (StreamID.zero_le _).trans_lt hlt⟩

lemma appended (hlt : s.lastId < id) (hfields : fields ≠ [])
    (happ : Appended (fun n e => n.Renders e ∧ nodes.getLast? = some n) s fields id s') :
    ∃ nodes' same, s'.InOrder nodes' ∧ liveItems nodes' = liveItems nodes ++ [newItem same id fields] := by
  have below : ∀ i ∈ liveItems nodes, i.id < id := fun i hi => (h.bounded i hi).trans_lt hlt
  cases happ with
  | @new e hn =>
    have hlast : ∀ f ∈ s.rax.entries, f.1 < e.1 := by
      intro f hf
      rw [hn.key]
      exact (h.key_le f hf).trans_lt (streamEncodeID_lt.mpr hlt)
    have hlive : liveItems (nodes ++ [newNode id fields]) = liveItems nodes ++ [newItem true id fields] := by
      rw [liveItems_append]
      rfl
    refine ⟨nodes ++ [newNode id fields], true, h.snoc hlt hfields ?_ ?_ hlive rfl rfl, hlive⟩
    · rw [SortedMap.insert_last hlast]
      exact rel_append h.renders (.cons hn .nil)
    · exact h.ordered.snoc (pairwise_singleton _ _) (forall_mem_singleton.mpr le_rfl) below
  | @old n lp e same hlast hP hn =>
    obtain ⟨hn', hnodes⟩ := hP
    obtain ⟨init, rfl⟩ := getLast?_eq_some_iff.mp hnodes
    obtain ⟨l, hl⟩ := getLast?_eq_some_iff.mp hlast
    have hinit := renders_init h.renders hl
    have hn₀ : (n.append (newItem same id fields)).live = n.live ++ [newItem same id fields] := by
      simp [live, append, newItem]
    have hlive : liveItems (init ++ [n.append (newItem same id fields)]) =
        liveItems (init ++ [n]) ++ [newItem same id fields] := by
      rw [liveItems_append, liveItems_append, append_assoc]
      simp [liveItems, hn₀]
    obtain ⟨ordered, sorted, within, before⟩ := h.ordered.last
    have hmaster : n.masterId ≤ id := by
      have := h.key_le (e.1, lp) (by rw [hl]; simp)
      rw [show e.1 = streamEncodeID n.masterId from hn'.key, streamEncodeID_le] at this
      exact this.trans hlt.le
    refine ⟨init ++ [n.append (newItem same id fields)], same, h.snoc hlt hfields ?_ ?_ hlive rfl rfl, hlive⟩
    · rw [SortedMap.insert_of_split hl]
      exact rel_append hinit (.cons hn .nil)
    · refine ordered.snoc ?_ ?_ before
      · rw [hn₀, pairwise_append]
        refine ⟨sorted, pairwise_singleton _ _, fun i hi => forall_mem_singleton.mpr ?_⟩
        exact below i (mem_liveItems.mpr ⟨n, by simp, hi⟩)
      · rw [hn₀, forall_mem_append, forall_mem_singleton]
        exact ⟨within, hmaster⟩

lemma thin (renders : List.Forall₂ StreamNode.Renders nodes' s'.rax.entries)
    (thin : List.SublistForall₂ Thinner nodes' nodes) (hlast : s'.lastId = s.lastId)
    (hlen : s'.length = (liveItems nodes').length) : s'.InOrder nodes' := by
  obtain ⟨ordered, sub⟩ := h.ordered.thin thin
  refine ⟨renders, ordered, fun i hi => ?_, hlen, fun i hi => h.filled i (sub.subset hi),
    fun i hi => h.positive i (sub.subset hi)⟩
  rw [hlast]
  exact h.bounded i (sub.subset hi)

lemma trim (maxlen : Nat) (approx : Bool) :
    Sat OnlyFull (fun r => ∃ nodes', r.1.InOrder nodes' ∧ r.1.cgroups = s.cgroups ∧ r.1.lastId = s.lastId ∧
        r.2 = s.length - r.1.length)
      (streamTrimByLength s maxlen approx) := by
  refine (streamTrimByLength_spec h.renders).mono fun r hr => ?_
  obtain ⟨renders, hlen, hlast, hgroups, hcount⟩ := hr
  exact ⟨_, h.thin renders (thin_trimNodes ..) hlast (hlen.trans (length_trimNodes h.length)), hgroups, hlast, hcount⟩

end

lemma removed {el er : List (Bytes × Listpack)} {key : Bytes} {lp : Listpack} (h : s.InOrder (nl ++ n :: nr))
    (hentries : s.rax.entries = el ++ (key, lp) :: er) (hnl : List.Forall₂ StreamNode.Renders nl el)
    (hnr : List.Forall₂ StreamNode.Renders nr er) (items : n.items = done ++ i :: todo) (hi : i.deleted = false)
    (hr : Removed s (n.withDeleted done i todo) key s') : ∃ nodes', s'.InOrder nodes' := by
  obtain ⟨l, r, hlive, hlive'⟩ := live_withDeleted items hi
  have hthin : Thinner (n.withDeleted done i todo) n := by
    refine ⟨rfl, ?_⟩
    rw [hlive, hlive']
    exact (sublist_cons_self i r).append_left l
  have hlen := h.length
  rw [liveItems_append, liveItems_cons, length_append, length_append, hlive, length_append,
    length_cons] at hlen
  cases hr with
  | node hnil =>
    rw [hlive', append_eq_nil_iff] at hnil
    refine ⟨nl ++ nr, h.thin ?_ ?_ rfl ?_⟩
    · rw [SortedMap.erase_of_split hentries]
      exact rel_append hnl hnr
    · exact sublistForall₂_iff.mpr ⟨nl ++ nr, thinner_self _, (sublist_cons_self n nr).append_left nl⟩
    · rw [liveItems_append, length_append]
      simp only [hnil.1, hnil.2, length_nil] at hlen ⊢
      omega
  | entry hn' =>
    refine ⟨nl ++ n.withDeleted done i todo :: nr, h.thin ?_ ?_ rfl ?_⟩
    · rw [SortedMap.insert_of_split hentries]
      exact rel_append hnl (.cons hn' hnr)
    · exact sublistForall₂_iff.mpr ⟨_, rel_append (thinner_self nl) (.cons hthin (thinner_self nr)), .refl _⟩
    · rw [liveItems_append, liveItems_cons, hlive', length_append, length_append, length_append]
      simp only
      omega

lemma delete (h : s.InOrder nodes) (id : StreamID) :
    Sat OnlyFull (fun r => (∃ nodes', r.1.InOrder nodes') ∧ r.1.cgroups = s.cgroups ∧ (r.2 = false → r.1 = s))
      (streamDeleteItem s id) := by
  obtain ⟨nodes', hseek, -⟩ := range_start (some id) (some id) false (fun _ _ h => NodeAt.renders h)
    (forall₂_nodeAt h.renders) h.ordered
  refine (streamDeleteItem_spec (fun _ _ h => NodeAt.renders h) hseek).mono fun r hr => ?_
  cases hr with
  | missing => exact ⟨⟨nodes, h⟩, rfl, fun _ => rfl⟩
  | removed placed items live _ removed =>
    obtain ⟨nl, nr, el, er, rfl, hentries, hnl, hn, hnr⟩ := placed
    refine ⟨h.removed hentries hnl hnr items live removed, ?_, fun hf => (nomatch hf)⟩
    cases removed <;> rfl

lemma append (h : s.InOrder nodes) (cfg : StreamConfig) (hfields : fields ≠ []) (useId : Option StreamID)
    (now : UInt64) (hnext : useId = none → s.lastId.ms < now ∨ s.lastId.seq ≠ -1) :
    Sat OnlyFull (fun r => (r = (s, none) ∧ ∃ id, useId = some id ∧ id ≤ s.lastId) ∨
        ∃ id nodes' same, r.2 = some id ∧ id = useId.getD (streamNextID s.lastId now) ∧ s.lastId < id ∧
          r.1.InOrder nodes' ∧ r.1.cgroups = s.cgroups ∧ r.1.lastId = id ∧
          liveItems nodes' = liveItems nodes ++ [newItem same id fields])
      (streamAppendItem cfg s fields useId now) := by
  refine (streamAppendItem_spec cfg (P := fun n e => n.Renders e ∧ nodes.getLast? = some n) (fun n e h => h.1)
    fun e he => renders_getLast h.renders he).mono fun r hr => ?_
  split at hr
  · rename_i hle
    left
    refine ⟨hr, ?_⟩
    cases useId with
    | none => simp at hle
    | some id => exact ⟨id, rfl, streamCompareID_le.mp (by simpa using hle)⟩
  rename_i hgt
  right
  obtain ⟨s', rfl, happ⟩ := hr
  have hlt := lt_of_accepted hnext hgt
  obtain ⟨nodes', same, inOrder, hlive⟩ := h.appended hlt hfields happ
  refine ⟨_, nodes', same, rfl, rfl, hlt, inOrder, ?_, ?_, hlive⟩
  · cases happ <;> rfl
  · cases happ <;> rfl

lemma forEach {σ : Type} (h : s.InOrder nodes) (start stop : Option StreamID) (rev : Bool) (count : Nat)
    (visit : σ → StreamID → List (Bytes × Bytes) → Except Fault σ) (st : σ) :
    streamForEach visit count s.fuel (streamIteratorStart s start stop rev) 0 st =
      ((limited count (rangeItems rev start stop nodes)).foldlM (fun st i => visit st i.id i.fields) st).map
        fun st => (st, (limited count (rangeItems rev start stop nodes)).length) := by
  obtain ⟨nodes', hseek, hrange⟩ := range_start start stop rev (fun _ _ h => h) h.renders h.ordered
  have hfuel := length_nodesAhead_lt_fuel (fun _ _ h => h) hseek (streamIteratorStart s start stop rev).near
  have heach : streamForEach visit count s.fuel (streamIteratorStart s start stop rev) 0 st = _ :=
    streamForEach_eq (fun _ _ h => h) (ready_of_seek hseek) hfuel (Nat.eq_zero_or_pos count)
  rw [hrange] at heach
  simpa using heach

lemma mem_rangeItems {start stop : Option StreamID} {rev : Bool} :
    i ∈ rangeItems rev start stop nodes ↔ i ∈ liveItems nodes ∧ startId start ≤ i.id ∧ i.id ≤ stopId stop := by
  rw [rangeItems, liveItems, ← live_allItems]
  cases rev <;> simp [inRange, and_assoc]

lemma getID (h : s.InOrder nodes) (start stop : Option StreamID) (rev : Bool) : ∃ r,
    streamIteratorGetID (streamIteratorStart s start stop rev) = .ok r ∧
      r.2.map Prod.fst = (rangeItems rev start stop nodes).head?.map StreamItem.id := by
  obtain ⟨nodes', hseek, hrange⟩ := range_start start stop rev (fun _ _ h => h) h.renders h.ordered
  obtain ⟨r, hr, hgets⟩ := ((ready_of_seek hseek).getID fun _ _ h => h).returns
  refine ⟨r, hr, ?_⟩
  rw [← hrange]
  obtain ⟨si, _ | ⟨id, numfields⟩⟩ := r
  · rw [show ((nodesAhead rev nodes').filter _).takeWhile _ = [] from hgets]
    rfl
  · obtain ⟨i, rest, hcons, hfar, -, -, rfl, -⟩ := hgets
    rw [hcons, takeWhile_cons_of_pos hfar]
    rfl

lemma finds (h : s.InOrder nodes) : s.Finds id ↔ ∃ i ∈ liveItems nodes, i.id = id := by
  obtain ⟨⟨si, item⟩, hget, hid⟩ := h.getID (some id) (some id) false
  constructor
  · rintro ⟨si', item', hget'⟩
    rw [hget] at hget'
    cases hget'
    obtain ⟨i, hi, -⟩ := Option.map_eq_some_iff.mp hid.symm
    obtain ⟨hlive, low, high⟩ := mem_rangeItems.mp (mem_of_head? hi)
    exact ⟨i, hlive, le_antisymm high low⟩
  · rintro ⟨i, hi, rfl⟩
    have hmem : i ∈ rangeItems false (some i.id) (some i.id) nodes := mem_rangeItems.mpr ⟨hi, le_rfl, le_rfl⟩
    obtain ⟨j, rest, hj⟩ := exists_cons_of_ne_nil (ne_nil_of_mem hmem)
    rw [hj] at hid
    obtain ⟨item, rfl, -⟩ := Option.map_eq_some_iff.mp hid
    exact ⟨si, item, hget⟩

lemma reads (h : s.InOrder nodes) : s.Reads s.Finds := by
  intro σ start stop rev count visit st
  refine ⟨_, fun i hi => h.finds.mpr ⟨i, ?_, rfl⟩, h.forEach start stop rev count visit st⟩
  have hmem : i ∈ rangeItems rev start stop nodes := by
    rw [limited] at hi
    split at hi
    · exact hi
    · exact mem_of_mem_take hi
  exact (mem_rangeItems.mp hmem).1

lemma rendered (h : s.InOrder nodes) : s.Rendered := forall₂_exists h.renders

end Stream.InOrder

lemma streamNew_inOrder : streamNew.InOrder [] :=
  ⟨.nil, ⟨.nil, fun _ h => (nomatch h), .nil⟩, fun _ h => (nomatch h), rfl, fun _ h => (nomatch h),
    fun _ h => (nomatch h)⟩

end JitRedis
