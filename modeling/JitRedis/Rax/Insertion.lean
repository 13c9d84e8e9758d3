import JitRedis.Lib.Fallible
import JitRedis.Rax.Contents

/-!
# Finding and inserting keys in a radix tree

A walk ends where the key is, or at the one place where it can be added. Each case of
`raxGenericInsert` adds one entry there and leaves all the others, and adds the nodes that it counts.
-/

namespace JitRedis

open Fallible Buckets List RaxNode

variable {V : Type} {ts : List (RaxFrame V)} {h : RaxNode V} {s rest : Bytes} {j : Nat}

/-- A node in its place below well-formed parents; an empty tree is a node that is no key. -/
def Placed (ts : List (RaxFrame V)) (h : RaxNode V) : Prop :=
  (∀ f ∈ ts, f.Wf) ∧ (h.Wf ∨ ts = [] ∧ h = raxNewLeaf)

/-- How a walk stops at a node when the bytes `s` are left: with `rest` of them, and at a position. -/
inductive Stops : RaxNode V → Bytes → Bytes → Nat → Prop where
  | here {n} :
    Stops n [] [] 0
  | noEdge {key edges c s} :
    (∀ e ∈ edges, e.1 ≠ c) →
    Stops (.branch key edges) (c :: s) (c :: s) 0
  | inside {key s d t child} :
    s ≠ [] →
    Stops (.compr key (s ++ d :: t) child) s [] s.length
  | mismatch {key u d t child c s} :
    d ≠ c →
    Stops (.compr key (u ++ d :: t) child) (u ++ c :: s) (c :: s) u.length

lemma matchLen_cases (v s : Bytes) :
    (∃ r, s = v ++ r ∧ matchLen v s = v.length) ∨
    (∃ d t, v = s ++ d :: t ∧ matchLen v s = s.length) ∨
    ∃ u d t c r, v = u ++ d :: t ∧ s = u ++ c :: r ∧ d ≠ c ∧ matchLen v s = u.length := by
  induction v generalizing s with
  | nil => exact .inl ⟨s, rfl, rfl⟩
  | cons d v ih =>
    cases s with
    | nil => exact .inr (.inl ⟨d, v, rfl, rfl⟩)
    | cons c s =>
      rw [matchLen]
      by_cases hd : d = c
      · subst hd
        rw [if_pos rfl]
        rcases ih s with ⟨r, rfl, hm⟩ | ⟨e, t, rfl, hm⟩ | ⟨u, e, t, c, r, rfl, rfl, hne, hm⟩
        · exact .inl ⟨r, rfl, by rw [hm]; rfl⟩
        · exact .inr (.inl ⟨e, t, rfl, by rw [hm]; rfl⟩)
        · exact .inr (.inr ⟨d :: u, e, t, c, r, rfl, rfl, hne, by rw [hm]; rfl⟩)
      · rw [if_neg hd]
        exact .inr (.inr ⟨[], d, v, c, s, rfl, rfl, hd, rfl⟩)

variable {c : UInt8} {n : RaxNode V} {w : RaxWalk V}

lemma findEdge_some {edges left right}
    (hf : findEdge c edges = some (left, n, right)) : edges = left ++ (c, n) :: right := by
  induction edges generalizing left with
  | nil => cases hf
  | cons e es ih =>
    rw [findEdge] at hf
    split_ifs at hf with he
    · cases hf
      rw [← he]
      rfl
    · obtain ⟨⟨l, m, r⟩, hr, ⟨⟩⟩ := Option.map_eq_some_iff.mp hf
      rw [ih hr]
      rfl

lemma findEdge_none {edges : List (UInt8 × RaxNode V)} (hf : findEdge c edges = none) :
    ∀ e ∈ edges, e.1 ≠ c := by
  induction edges with
  | nil => simp
  | cons d es ih =>
    rw [findEdge] at hf
    split at hf
    · cases hf
    rename_i hd
    intro e he
    cases he with
    | head => exact hd
    | tail _ he => exact ih (Option.map_eq_none_iff.mp hf) e he

/-- A walk stopped at a node of the tree, where the bytes `left` of the key had not been used to reach it. -/
structure RaxWalk.Reaches (w : RaxWalk V) (tree : RaxNode V) (key left : Bytes) : Prop where
  stops : Stops w.stop left w.rest w.splitpos
  path : pathOf w.stack ++ left = key
  placed : Placed w.stack w.stop
  plug : plug w.stack w.stop = tree

lemma lowWalkLoop_reaches {turns : Nat} (hlen : s.length ≤ turns) (hp : Placed ts h) :
    ∃ left, (lowWalkLoop turns h s ts).Reaches (plug ts h) (pathOf ts ++ s) left := by
  induction turns generalizing h s ts with
  | zero =>
    obtain rfl := eq_nil_of_length_eq_zero (Nat.le_zero.mp hlen)
    exact ⟨[], .here, rfl, hp, rfl⟩
  | succ turns ih =>
    cases s with
    | nil => exact ⟨[], .here, rfl, hp, rfl⟩
    | cons c s =>
      obtain ⟨hts, hwf⟩ := hp
      cases h with
      | branch key edges =>
        have stuck : (∀ e ∈ edges, e.1 ≠ c) → ∃ left, (⟨ts, .branch key edges, c :: s, 0⟩ : RaxWalk V).Reaches
            (plug ts (.branch key edges)) (pathOf ts ++ c :: s) left :=
          fun none => ⟨c :: s, .noEdge none, rfl, ⟨hts, hwf⟩, rfl⟩
        rw [lowWalkLoop]
        split_ifs with hz
        · obtain rfl : edges = [] := eq_nil_of_length_eq_zero hz
          exact stuck (by simp)
        cases hf : findEdge c edges with
        | none => exact stuck (findEdge_none hf)
        | some r =>
          obtain ⟨left, n, right⟩ := r
          obtain rfl := findEdge_some hf
          have hwf' := hwf.resolve_right fun hr => hz (by rw [hr.2]; rfl)
          cases hwf' with
          | branch sorted wf leaf =>
            have hframe : (RaxFrame.branch key left c right).Wf := by
              refine .branch (by simpa using sorted) fun e he => wf e ?_
              rw [mem_append] at he
              exact he.elim (mem_append_left _)
                fun h => mem_append_right _ (mem_cons_of_mem _ h)
            have hn : Placed (.branch key left c right :: ts) n :=
              ⟨forall_mem_cons.mpr ⟨hframe, hts⟩,
                .inl (wf (c, n) (mem_append_right _ (mem_cons_self ..)))⟩
            have := ih (Nat.le_of_succ_le_succ hlen) hn
            rwa [pathOf, RaxFrame.path, append_assoc] at this
      | compr key v child =>
        have hwf' : (compr key v child).Wf := hwf.resolve_right fun hr => by cases hr.2
        cases hwf' with
        | compr two max wf =>
          rw [lowWalkLoop, if_neg (by rw [size]; omega)]
          rcases matchLen_cases v (c :: s) with ⟨r, hr, hm⟩ | ⟨d, t, rfl, hm⟩ | ⟨u, d, t, e, r, rfl, hs, hne, hm⟩
          · have hchild : Placed (.compr key v :: ts) child :=
              ⟨forall_mem_cons.mpr ⟨.compr two max, hts⟩, .inl wf⟩
            have := ih (s := r) (by rw [hr, length_append] at hlen; omega) hchild
            rw [pathOf, RaxFrame.path, append_assoc, ← hr] at this
            simp only [hm, if_true]
            rwa [show (c :: s).drop v.length = r by rw [hr, drop_left]]
          · have hlt : (c :: s).length ≠ (c :: s ++ d :: t).length := by simp
            simp only [hm, if_neg hlt, drop_length]
            exact ⟨c :: s, .inside (by simp), rfl, ⟨hts, hwf⟩, rfl⟩
          · have hlt : u.length ≠ (u ++ d :: t).length := by simp
            simp only [hm, if_neg hlt]
            rw [hs, drop_left]
            exact ⟨u ++ e :: r, .mismatch hne, rfl, ⟨hts, hwf⟩, rfl⟩

lemma RaxWalk.Reaches.exact_iff {tree} {key left : Bytes}
    (r : w.Reaches tree key left) : w.Exact ↔ left = [] := by
  obtain ⟨stack, stop, rest, splitpos⟩ := w
  have st : Stops stop left rest splitpos := r.stops
  cases st with
  | here => exact iff_of_true ⟨rfl, .inr rfl⟩ rfl
  | noEdge _ | mismatch _ => exact iff_of_false (fun e => by cases e.1) (by simp)
  | inside hne =>
    refine iff_of_false (fun e => ?_) hne
    cases e.2 with
    | inl h => cases h
    | inr h => exact hne (eq_nil_of_length_eq_zero h)

lemma Stops.absent (st : Stops n s rest j) (hs : s ≠ []) : ∀ e ∈ n.entries, e.1 ≠ s := by
  intro e he
  cases st with
  | here => exact absurd rfl hs
  | noEdge hne =>
    rw [entries, mem_append] at he
    cases he with
    | inl he => simp [mem_ownEntry he]
    | inr he =>
      obtain ⟨d, n, t, hmem, hd⟩ := mem_edgesEntries he
      rw [hd]
      intro heq
      cases heq
      exact hne _ hmem rfl
  | @inside key s d t child hne =>
    rw [entries, mem_append] at he
    cases he with
    | inl he => rwa [mem_ownEntry he, ne_comm]
    | inr he =>
      obtain ⟨e', -, rfl⟩ := mem_map.mp he
      intro heq
      have := congrArg length heq
      simp [under] at this
  | @mismatch key u d t child c s hne =>
    rw [entries, mem_append] at he
    cases he with
    | inl he => simp [mem_ownEntry he]
    | inr he =>
      obtain ⟨e', -, rfl⟩ := mem_map.mp he
      intro heq
      simp only [under, append_assoc, append_cancel_left_eq, cons_append,
        cons.injEq] at heq
      exact hne heq.1

lemma Placed.entries_ne_nil (hp : Placed ts h) (hk : h.key = none) : ∀ e ∈ h.entries, e.1 ≠ [] := by
  intro e he
  cases h with
  | branch key edges =>
    cases hk
    rw [entries] at he
    obtain ⟨d, n, t, -, hd⟩ := mem_edgesEntries he
    simp [hd]
  | compr key v child =>
    cases hk
    obtain ⟨e', -, rfl⟩ := mem_map.mp he
    have hwf := hp.2.resolve_right fun hr => by cases hr.2
    cases hwf with
    | compr two max wf =>
      intro heq
      rw [(append_eq_nil_iff.mp heq).1] at two
      simp at two

lemma absent_of_node (hts : ∀ f ∈ ts, f.Wf) (hn : ∀ e ∈ h.entries, e.1 ≠ s) :
    ∀ e ∈ (plug ts h).entries, e.1 ≠ pathOf ts ++ s := by
  intro e he
  rw [(entries_plug ts h).mem_iff, mem_append] at he
  cases he with
  | inl he =>
    obtain ⟨e', he', rfl⟩ := mem_map.mp he
    simpa [under] using hn e' he'
  | inr he =>
    rintro heq
    exact not_prefix_around hts he (heq ▸ prefix_append ..)

/-- The tree stores the map, and its counters are right. -/
structure Rax.Holds (rax : Rax V) (m : Bytes → Option (Option V)) : Prop where
  represents : Represents Prod.fst Prod.snd rax.head.entries m
  wf : rax.head.Wf ∨ rax.head = raxNewLeaf
  numele : rax.numele = rax.head.entries.length
  numnodes : rax.numnodes = rax.head.count

variable {rax : Rax V} {m : Bytes → Option (Option V)}

lemma Rax.Holds.walk (hm : rax.Holds m) (s : Bytes) :
    ∃ left, (raxLowWalk rax s).Reaches rax.head s left := by
  have hp : Placed [] rax.head := ⟨by simp, hm.wf.imp_right fun h => ⟨rfl, h⟩⟩
  exact lowWalkLoop_reaches (s := s) le_rfl hp

lemma entries_of_key {v} (hk : n.key = some v) :
    n.entries = ([], v) :: (n.setKey none).entries := by
  cases n <;> cases hk <;> simp [entries, setKey, ownEntry]

lemma Rax.Holds.found (hm : rax.Holds m) {w : RaxWalk V} (hr : w.Reaches rax.head s []) {v : Option V}
    (hk : w.stop.key = some v) : m s = some v := by
  refine hm.represents.get (e := (s, v)) ?_
  rw [← hr.plug, (entries_plug ..).mem_iff, entries_of_key hk, ← hr.path]
  exact mem_append_left _ (mem_cons_self ..)

lemma Rax.Holds.notFound (hm : rax.Holds m) {left : Bytes}
    (hr : w.Reaches rax.head s left) (hk : left = [] → w.stop.key = none) : m s = none := by
  refine hm.represents.get_none ?_
  rw [← hr.plug, ← hr.path]
  refine absent_of_node hr.placed.1 ?_
  by_cases hl : left = []
  · subst hl
    exact hr.placed.entries_ne_nil (hk rfl)
  · exact hr.stops.absent hl

lemma raxFind_eq (hm : rax.Holds m) (s : Bytes) : raxFind rax s = m s := by
  obtain ⟨left, hr⟩ := hm.walk s
  rw [raxFind]
  by_cases hl : left = []
  · subst hl
    simp only [hr.exact_iff.mpr rfl, if_true]
    cases hk : (raxLowWalk rax s).stop.key with
    | none => exact (hm.notFound hr fun _ => hk).symm
    | some v => exact (hm.found hr hk).symm
  · simp only [hr.exact_iff.not.mpr hl, if_false]
    exact (hm.notFound hr fun h => absurd h hl).symm

lemma entries_setData (hk : n.key = none) (v : Option V) :
    (raxSetData n v).entries = ([], v) :: n.entries := by
  cases n <;> cases hk <;> simp [entries, raxSetData, setKey, ownEntry]

@[simp] lemma count_setKey (n : RaxNode V) (key : Option (Option V)) : (n.setKey key).count = n.count := by
  cases n <;> rfl

lemma Placed.wf_setData (hp : Placed ts h) (v : Option V) : (raxSetData h v).Wf := by
  cases hp.2 with
  | inl hwf =>
    cases hwf with
    | branch sorted wf leaf => exact .branch sorted wf fun _ => rfl
    | compr two max wf => exact .compr two max wf
  | inr hr =>
    rw [hr.2]
    exact .branch (by simp) (by simp) fun _ => rfl

variable {rax' : Rax V} {v : Option V}

lemma Rax.Holds.insert (hm : rax.Holds m) (absent : m s = none)
    (perm : rax'.head.entries.Perm ((s, v) :: rax.head.entries)) (wf : rax'.head.Wf)
    (numele : rax'.numele = rax.numele + 1) (numnodes : rax'.numnodes = rax'.head.count) :
    rax'.Holds (Function.update m s (some v)) where
  represents := (hm.represents.cons (e := (s, v)) absent).perm perm.symm
  wf := .inl wf
  numele := by rw [numele, hm.numele, perm.length_eq, length_cons]
  numnodes := numnodes

lemma insert_found (hm : rax.Holds m) (hr : w.Reaches rax.head s []) {old}
    (hk : w.stop.key = some old) (v : Option V) :
    ({ rax with head := plug w.stack (raxSetData w.stop v) } : Rax V).Holds
      (Function.update m s (some v)) := by
  have hs : pathOf w.stack = s := by rw [← hr.path, append_nil]
  have before : rax.head.entries.Perm ((s, old) ::
      ((w.stop.setKey none).entries.map (under (pathOf w.stack)) ++ entriesAround w.stack)) := by
    rw [← hr.plug]
    refine (entries_plug ..).trans ?_
    rw [entries_of_key hk, map_cons, under, append_nil, hs]
    exact .refl _
  have after : (plug w.stack (raxSetData w.stop v)).entries.Perm ((s, v) ::
      ((w.stop.setKey none).entries.map (under (pathOf w.stack)) ++ entriesAround w.stack)) := by
    refine (entries_plug ..).trans ?_
    have : ((raxSetData w.stop v).setKey none) = w.stop.setKey none := by cases w.stop <;> rfl
    rw [entries_of_key (n := raxSetData w.stop v) (by cases w.stop <;> rfl), this, map_cons, under,
      append_nil, hs]
    exact .refl _
  constructor
  · exact ((hm.represents.perm before).replace (show Prod.fst (s, v) = Prod.fst (s, old) from rfl)).perm
      after.symm
  · exact .inl (wf_plug hr.placed.1 (hr.placed.wf_setData v))
  · rw [hm.numele, before.length_eq, after.length_eq]
    rfl
  · rw [hm.numnodes, ← hr.plug, count_plug, count_plug, raxSetData, count_setKey]

@[simp] lemma entries_ofBytes (key : Option (Option V)) (s : Bytes) (child : RaxNode V) :
    (ofBytes key s child).entries = ownEntry key ++ child.entries.map (under s) := by
  unfold ofBytes
  split
  · simp [entries, edgesEntries]
  · rw [entries]

@[simp] lemma count_ofBytes (key : Option (Option V)) (s : Bytes) (child : RaxNode V) :
    (ofBytes key s child).count = child.count + 1 := by
  unfold ofBytes
  split <;> rfl

lemma wf_ofBytes {key : Option (Option V)} {child : RaxNode V} (hne : s ≠ []) (max : s.length ≤ raxNodeMaxSize)
    (wf : child.Wf) : (ofBytes key s child).Wf := by
  unfold ofBytes
  split
  · exact .branch (by simp) (by simpa using wf) (by simp)
  rename_i hs
  refine .compr ?_ max wf
  match s, hne, hs with
  | [c], _, hs => exact absurd rfl (hs c)
  | _ :: _ :: _, _, _ => simp

@[simp] lemma path_ofBytes (key : Option (Option V)) (s : Bytes) : (RaxFrame.ofBytes key s).path = s := by
  unfold RaxFrame.ofBytes
  split <;> rfl

@[simp] lemma frameEntries_ofBytes (key : Option (Option V)) (s : Bytes) :
    (RaxFrame.ofBytes key s).entries = ownEntry key := by
  unfold RaxFrame.ofBytes
  split <;> simp [RaxFrame.entries, edgesEntries]

@[simp] lemma frameCount_ofBytes (key : Option (Option V)) (s : Bytes) :
    (RaxFrame.ofBytes key s).count = 1 := by
  unfold RaxFrame.ofBytes
  split <;> rfl

lemma frameWf_ofBytes {key : Option (Option V)} (hne : s ≠ []) (max : s.length ≤ raxNodeMaxSize) :
    (RaxFrame.ofBytes key s).Wf := by
  unfold RaxFrame.ofBytes
  split
  · exact .branch (by simp) (by simp)
  rename_i hs
  refine .compr ?_ max
  match s, hne, hs with
  | [c], _, hs => exact absurd rfl (hs c)
  | _ :: _ :: _, _, _ => simp

lemma insert_inside (hm : rax.Holds m) {stack : List (RaxFrame V)} {key : Option (Option V)}
    {u t : Bytes} {d : UInt8} {child : RaxNode V} {splitpos : Nat}
    (hr : (⟨stack, .compr key (u ++ d :: t) child, [], u.length⟩ : RaxWalk V).Reaches rax.head s u)
    (hu : u ≠ []) (v : Option V) (hj : splitpos = u.length) :
    ({ head := plug stack (splitInside key (u ++ d :: t) child splitpos v)
       numele := rax.numele + 1
       numnodes := rax.numnodes + 1 } : Rax V).Holds (Function.update m s (some v)) := by
  subst hj
  have hwf := hr.placed.2.resolve_right fun h => by cases h.2
  have hs : pathOf stack ++ u = s := hr.path
  have hhead : plug stack (.compr key (u ++ d :: t) child) = rax.head := hr.plug
  rw [splitInside, take_left, drop_left]
  cases hwf with
  | compr two max wf =>
    rw [length_append] at max
    refine hm.insert (hm.notFound hr fun h => absurd h hu) ?_ ?_ rfl ?_
    · rw [← hhead, ← hs]
      refine (entries_plug ..).trans ?_
      refine List.Perm.trans ?_ ((entries_plug ..).symm.cons _)
      simp only [entries_ofBytes, RaxNode.entries, map_append, map_under_under, ownEntry_some,
        map_cons, under_nil_left, append_assoc, cons_append, nil_append]
      exact perm_middle
    · apply wf_plug hr.placed.1
      apply wf_ofBytes hu (by omega)
      exact wf_ofBytes (by simp) (by omega) wf
    · rw [hm.numnodes, ← hhead]
      simp only [count_plug, count_ofBytes, RaxNode.count]
      omega

/-- While nodes are added: a node that is no leaf yet, in a tree with entries `E` and `N` nodes. -/
structure Growing (ts : List (RaxFrame V)) (key : Option (Option V)) (edges : List (UInt8 × RaxNode V))
    (E : List (Bytes × Option V)) (N : Nat) : Prop where
  frames : ∀ f ∈ ts, f.Wf
  sorted : (edges.map Prod.fst).Pairwise (· < ·)
  children : ∀ e ∈ edges, e.2.Wf
  entries : ((RaxNode.branch key edges).entries.map (under (pathOf ts)) ++ entriesAround ts).Perm E
  count : (RaxNode.branch key edges).count + countAround ts = N

variable {key : Option (Option V)} {edges : List (UInt8 × RaxNode V)} {E : List (Bytes × Option V)} {N : Nat}

lemma Growing.compress (g : Growing ts key [] E N) (two : 2 ≤ s.length) (max : s.length ≤ raxNodeMaxSize) :
    Growing (.compr key s :: ts) none [] E (N + 1) where
  frames := forall_mem_cons.mpr ⟨.compr two max, g.frames⟩
  sorted := by simp
  children := by simp
  entries := by simpa [RaxNode.entries, edgesEntries, entriesAround, RaxFrame.entries] using g.entries
  count := by
    have := g.count
    simp only [RaxNode.count, edgesCount, countAround, RaxFrame.count] at this ⊢
    omega

lemma edgePlace_spec (sorted : (edges.map Prod.fst).Pairwise (· < ·)) (hne : ∀ e ∈ edges, e.1 ≠ c) :
    ∃ left right, edgePlace c edges = (left, right) ∧ edges = left ++ right ∧
      (left.map Prod.fst ++ c :: right.map Prod.fst).Pairwise (· < ·) := by
  induction edges with
  | nil => exact ⟨[], [], rfl, rfl, by simp⟩
  | cons e es ih =>
    rw [map_cons, pairwise_cons] at sorted
    rw [edgePlace, span_eq_takeWhile_dropWhile]
    by_cases hle : e.1 ≤ c
    · obtain ⟨left, right, hplace, hes, hsorted⟩ := ih sorted.2 fun e he => hne e (mem_cons_of_mem _ he)
      rw [edgePlace, span_eq_takeWhile_dropWhile] at hplace
      cases hplace
      refine ⟨_, _, rfl, (takeWhile_append_dropWhile ..).symm, ?_⟩
      simp only [takeWhile_cons, hle, decide_true, if_true, dropWhile_cons, map_cons,
        cons_append, pairwise_cons]
      refine ⟨fun a ha => ?_, hsorted⟩
      rw [mem_append, mem_cons] at ha
      have hlt : e.1 < c := UInt8.lt_of_le_of_ne hle (hne e (mem_cons_self ..))
      rcases ha with ha | rfl | ha
      · refine sorted.1 a ?_
        rw [hes, map_append]
        exact mem_append_left _ ha
      · exact hlt
      · refine sorted.1 a ?_
        rw [hes, map_append]
        exact mem_append_right _ ha
    · refine ⟨[], e :: es, ?_, rfl, ?_⟩
      · simp [hle]
      · have hlt : c < e.1 := UInt8.not_le.mp hle
        simp only [map_nil, nil_append, map_cons, pairwise_cons]
        refine ⟨fun a ha => ?_, sorted⟩
        cases ha with
        | head => exact hlt
        | tail _ ha => exact UInt8.lt_trans hlt (sorted.1 a ha)

lemma Growing.addChild (g : Growing ts key edges E N) {left right}
    (hedges : edges = left ++ right)
    (sorted : (left.map Prod.fst ++ c :: right.map Prod.fst).Pairwise (· < ·)) :
    Growing (.branch key left c right :: ts) none [] E (N + 1) where
  frames := forall_mem_cons.mpr ⟨.branch sorted (hedges ▸ g.children), g.frames⟩
  sorted := by simp
  children := by simp
  entries := by
    have := g.entries
    rw [hedges] at this
    simpa [RaxNode.entries, edgesEntries, entriesAround, RaxFrame.entries] using this
  count := by
    have := g.count
    rw [hedges] at this
    simp only [RaxNode.count, edgesCount, edgesCount_append, countAround, RaxFrame.count] at this ⊢
    omega

lemma insertLoop_spec {turns : Nat} (added : Nat) (g : Growing ts key edges E N) (hlen : s.length ≤ turns)
    (nil : s = [] → key = none ∧ edges = []) (cons : ∀ c ∈ s.head?, ∀ e ∈ edges, e.1 ≠ c) :
    ∃ ts' k, insertLoop turns ts (.branch key edges) s added = .ok (ts', raxNewLeaf, added + k) ∧
      Growing ts' none [] E (N + k) ∧ pathOf ts' = pathOf ts ++ s := by
  induction turns generalizing ts key edges s added N with
  | zero =>
    obtain rfl := eq_nil_of_length_eq_zero (Nat.le_zero.mp hlen)
    obtain ⟨rfl, rfl⟩ := nil rfl
    exact ⟨ts, 0, rfl, g, (append_nil _).symm⟩
  | succ turns ih =>
    cases s with
    | nil =>
      obtain ⟨rfl, rfl⟩ := nil rfl
      exact ⟨ts, 0, rfl, g, (append_nil _).symm⟩
    | cons c s =>
      rw [insertLoop]
      by_cases hc : (branch key edges).size = 0 ∧ s ≠ []
      · -- A compressed node for as many bytes as it can hold.
        rw [if_pos hc]
        obtain rfl : edges = [] := eq_nil_of_length_eq_zero hc.1
        have hs := length_pos_of_ne_nil hc.2
        set n := min (s.length + 1) raxNodeMaxSize with hn
        have hmax : 2 ≤ raxNodeMaxSize := by decide
        have hlen' : ((c :: s).take n).length = n := by
          rw [length_take, length_cons]
          omega
        obtain ⟨ts', k, hloop, hg, hpath⟩ := ih (s := (c :: s).drop n) (added + 1)
          (g.compress (s := (c :: s).take n) (by omega) (by omega))
          (by rw [length_drop]; simp only [length_cons] at hlen ⊢; omega)
          (fun _ => ⟨rfl, rfl⟩) (by simp)
        refine ⟨ts', k + 1, ?_, ?_, ?_⟩
        · rw [show added + (k + 1) = added + 1 + k by omega]
          exact hloop
        · rw [show N + (k + 1) = N + 1 + k by omega]
          exact hg
        · rw [hpath, pathOf, RaxFrame.path, append_assoc, take_append_drop]
      · rw [if_neg hc]
        obtain ⟨left, right, hplace, hedges, hsorted⟩ := edgePlace_spec g.sorted (cons c rfl)
        obtain ⟨ts', k, hloop, hg, hpath⟩ := ih (s := s) (added + 1)
          (g.addChild hedges hsorted) (Nat.le_of_succ_le_succ hlen) (fun _ => ⟨rfl, rfl⟩) (by simp)
        refine ⟨ts', k + 1, ?_, ?_, ?_⟩
        · rw [show added + (k + 1) = added + 1 + k by omega, ← hloop]
          simp only [hplace]
          rfl
        · rw [show N + (k + 1) = N + 1 + k by omega]
          exact hg
        · rw [hpath, pathOf, RaxFrame.path, append_assoc]
          rfl

/-- Where nodes are to be added: a branch without the next byte, for which a compressed node is split. -/
lemma splitStop_spec {tree : RaxNode V} {k left : Bytes} (hr : w.Reaches tree k left)
    (hne : w.rest ≠ []) :
    ∃ ts' key edges added, splitStop w = .ok (ts', .branch key edges, added) ∧
      Growing ts' key edges tree.entries (tree.count + added) ∧ pathOf ts' ++ w.rest = k ∧
      ∀ c ∈ w.rest.head?, ∀ e ∈ edges, e.1 ≠ c := by
  obtain ⟨stack, stop, rest, splitpos⟩ := w
  obtain ⟨st, hpath, ⟨hts, hwf⟩, hplug⟩ := hr
  simp only at st hpath hts hwf hplug hne
  have hentries := (entries_plug stack stop).symm
  have hcount := (count_plug stack stop).symm
  rw [hplug] at hentries hcount
  cases st with
  | here => exact absurd rfl hne
  | inside _ => exact absurd rfl hne
  | @noEdge key edges c s hedge =>
    refine ⟨stack, key, edges, 0, rfl, ?_, hpath, by simpa using hedge⟩
    cases hwf with
    | inl hwf =>
      cases hwf with
      | branch sorted wf leaf => exact ⟨hts, sorted, wf, hentries, hcount⟩
    | inr hr =>
      cases hr.2
      exact ⟨hts, by simp, by simp, hentries, hcount⟩
  | @mismatch key u d t child c s hdc =>
    have hwf := hwf.resolve_right fun h => by cases h.2
    cases hwf with
    | compr two max wf =>
      rw [length_append, length_cons] at max
      have hpost : (if t = [] then child else .ofBytes none t child : RaxNode V).Wf := by
        split
        · exact wf
        · exact wf_ofBytes ‹_› (by omega) wf
      have hpostEntries : (if t = [] then child else .ofBytes none t child : RaxNode V).entries =
          child.entries.map (under t) := by
        split_ifs with ht
        · simp [ht]
        · simp
      have hpostCount : (if t = [] then child else .ofBytes none t child : RaxNode V).count =
          child.count + (if t = [] then 0 else 1) := by
        split <;> simp
      rw [splitStop]
      unfold splitMismatch
      simp only [drop_left, take_left]
      by_cases hu : u = []
      · subst hu
        refine ⟨stack, key, _, _, if_pos rfl, ⟨hts, by simp, by simpa using hpost, ?_, ?_⟩, hpath,
          by simpa using hdc⟩
        · refine List.Perm.trans (List.Perm.of_eq ?_) hentries
          simp only [RaxNode.entries, edgesEntries, hpostEntries, map_append, map_under_under,
            append_nil, nil_append, cons_append]
        · rw [← hcount]
          simp only [RaxNode.count, edgesCount, hpostCount]
          omega
      have hpos := length_pos_of_ne_nil hu
      refine ⟨.ofBytes key u :: stack, none, _, _, if_neg hpos.ne',
        ⟨forall_mem_cons.mpr ⟨frameWf_ofBytes hu (by omega), hts⟩, by simp, by simpa using hpost,
          ?_, ?_⟩, ?_, by simpa using hdc⟩
      · refine List.Perm.trans ?_ hentries
        simp only [RaxNode.entries, edgesEntries, hpostEntries, entriesAround, frameEntries_ofBytes, pathOf,
          path_ofBytes, ownEntry_none, nil_append, append_nil, map_under_under,
          map_append, append_assoc]
        exact perm_append_comm_assoc ..
      · rw [← hcount]
        simp only [RaxNode.count, edgesCount, hpostCount, countAround, frameCount_ofBytes]
        omega
      · rw [pathOf, path_ofBytes, append_assoc, hpath]

lemma insertBelow_spec (hm : rax.Holds m) {left : Bytes} (hr : w.Reaches rax.head s left)
    (hne : w.rest ≠ []) (hl : left ≠ []) (v : Option V) :
    Sat NoFault (fun rax' => rax'.Holds (Function.update m s (some v))) (insertBelow rax w v) := by
  obtain ⟨ts, key, edges, added, hsplit, g, hpath, hedge⟩ := splitStop_spec hr hne
  obtain ⟨ts', k, hloop, g', hpath'⟩ := insertLoop_spec added g le_rfl (fun h => absurd h hne) hedge
  rw [insertBelow, hsplit]
  refine Sat.bind (P := fun r => r = (ts, branch key edges, added)) rfl ?_
  rintro _ rfl
  refine Sat.bind (P := fun r => r = (ts', raxNewLeaf, added + k)) (by rw [hloop]; rfl) ?_
  · rintro _ rfl
    have hs : pathOf ts' = s := hpath'.trans hpath
    have absent := hm.notFound hr fun h => absurd h hl
    apply hm.insert absent
    · refine (entries_plug ..).trans ?_
      rw [entries_setData rfl, map_cons, under_nil_left, hs, cons_append]
      have hE := g'.entries
      rw [hs] at hE
      exact hE.cons _
    · exact wf_plug g'.frames (.branch (by simp) (by simp) fun _ => rfl)
    · rfl
    · have hN := g'.count
      rw [count_plug, raxSetData, count_setKey]
      show rax.numnodes + (added + k) = _
      rw [hm.numnodes]
      exact (Nat.add_assoc ..).symm.trans hN.symm

lemma raxGenericInsert_spec (hm : rax.Holds m) (s : Bytes) (v : Option V) (overwrite : Bool) :
    Sat NoFault (fun r => match m s with
      | none => r.1.Holds (Function.update m s (some v)) ∧ r.2 = (true, none)
      | some old => r.1.Holds (if overwrite then Function.update m s (some v) else m) ∧
          r.2 = (false, some old))
      (raxGenericInsert rax s v overwrite) := by
  obtain ⟨left, hr⟩ := hm.walk s
  rw [raxGenericInsert]
  generalize raxLowWalk rax s = w at hr ⊢
  by_cases hl : left = []
  · subst hl
    simp only [hr.exact_iff.mpr rfl, if_true]
    cases hk : w.stop.key with
    | none =>
      have absent := hm.notFound hr fun _ => hk
      rw [absent]
      refine ⟨hm.insert absent ?_ ?_ rfl ?_, rfl⟩
      · rw [← hr.plug]
        refine (entries_plug ..).trans ?_
        rw [entries_setData hk, map_cons, under_nil_left, ← hr.path, append_nil]
        exact (entries_plug ..).symm.cons _
      · exact wf_plug hr.placed.1 (hr.placed.wf_setData v)
      · show rax.numnodes = _
        rw [hm.numnodes, ← hr.plug, count_plug, count_plug, raxSetData, count_setKey]
    | some old =>
      rw [hm.found hr hk]
      cases overwrite with
      | true => exact ⟨insert_found hm hr hk v, rfl⟩
      | false =>
        refine ⟨?_, rfl⟩
        have hhead : plug w.stack w.stop = rax.head := hr.plug
        simpa [hhead] using hm
  · rw [if_neg (hr.exact_iff.not.mpr hl), hm.notFound hr fun h => absurd h hl]
    have below : w.rest ≠ [] → Sat NoFault (fun r : Rax V × Bool × Option (Option V) =>
        r.1.Holds (Function.update m s (some v)) ∧ r.2 = (true, none)) (insertBelow rax w v >>= fun rax => .ok (rax, true, none)) :=
      fun hne => (insertBelow_spec hm hr hne hl v).bind fun _ h => ⟨h, rfl⟩
    obtain ⟨stack, stop, rest, splitpos⟩ := w
    have st : Stops stop left rest splitpos := hr.stops
    cases st with
    | here => exact absurd rfl hl
    | noEdge _ => exact below (by simp)
    | inside hu => exact ⟨insert_inside hm hr hu v rfl, rfl⟩
    | mismatch _ => exact below (by simp)

end JitRedis
