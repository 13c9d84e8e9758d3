import JitRedis.Stream.Layout

/-!
# What an iteration reads

From any place between two entries the iterator emits the entries ahead of it, in its direction, that are not
deleted and not before the near end of its range, until one of them is beyond the far end.
-/

namespace JitRedis

open Fallible List

variable {n : StreamNode} {lp : Listpack} {i : StreamItem} {done todo rest : List StreamItem}

/-- The entries of a node ahead of a mark. -/
def itemsAhead (rev : Bool) (done todo : List StreamItem) : List StreamItem := if rev then done.reverse else todo

/-- The entries of nodes that the iterator has not entered. -/
def nodesAhead (rev : Bool) (nodes : List StreamNode) : List StreamItem :=
  nodes.flatMap fun n => if rev then n.items.reverse else n.items

namespace StreamIterator

/-- The entry is not deleted, and the iteration has reached its range. -/
def near (si : StreamIterator) (i : StreamItem) : Bool :=
  !i.deleted && if si.rev then decide (streamEncodeID i.id ≤ si.endKey) else decide (si.startKey ≤ streamEncodeID i.id)

/-- The iteration has not left its range. -/
def far (si : StreamIterator) (i : StreamItem) : Bool :=
  if si.rev then decide (si.startKey ≤ streamEncodeID i.id) else decide (streamEncodeID i.id ≤ si.endKey)

structure SameRange (si' si : StreamIterator) : Prop where
  startKey : si'.startKey = si.startKey
  endKey : si'.endKey = si.endKey
  rev : si'.rev = si.rev

/-- Only the pointers into the listpack have moved. -/
structure Moved (si' si : StreamIterator) : Prop extends si'.SameRange si where
  ri : si'.ri = si.ri
  key : si'.key = si.key
  masterId : si'.masterId = si.masterId
  count : si'.masterFieldsCount = si.masterFieldsCount
  start : si'.masterFieldsStart = si.masterFieldsStart
  lp : si'.lp = si.lp

/-- The iterator has emitted an entry and points to its fields. -/
structure OnEntry (si : StreamIterator) (n : StreamNode) (lp : Listpack) (done : List StreamItem) (i : StreamItem)
    (todo : List StreamItem) : Prop where
  within : si.Within n lp
  items : n.items = done ++ i :: todo
  flags : si.entryFlags = i.flags
  ptr : i.same = true → si.masterFieldsPtr = lp.ptr n.master
  ele : si.lpEle = lp.ptr (i.pairs ++ markedTail n.masterId (done ++ [i]) todo)
  lpFlags : si.lpFlags = lp.ptr (i.payload n.masterId ++ markedTail n.masterId (done ++ [i]) todo)

variable {si si' si'' : StreamIterator} {rev : Bool}

lemma SameRange.trans (h : si''.SameRange si') (h' : si'.SameRange si) : si''.SameRange si where
  startKey := h.startKey.trans h'.startKey
  endKey := h.endKey.trans h'.endKey
  rev := h.rev.trans h'.rev

lemma SameRange.near (h : si'.SameRange si) : si'.near = si.near := by
  funext i
  rw [StreamIterator.near, StreamIterator.near, h.startKey, h.endKey, h.rev]

lemma SameRange.far (h : si'.SameRange si) : si'.far = si.far := by
  funext i
  rw [StreamIterator.far, StreamIterator.far, h.startKey, h.endKey, h.rev]

lemma Moved.pointers (si : StreamIterator) (masterFieldsPtr lpEle lpFlags : Option Nat) (entryFlags : Int) :
    Moved { si with masterFieldsPtr, lpEle, lpFlags, entryFlags } si := ⟨⟨rfl, rfl, rfl⟩, rfl, rfl, rfl, rfl, rfl, rfl⟩

lemma Moved.trans (h : si''.Moved si') (h' : si'.Moved si) : si''.Moved si where
  toSameRange := h.toSameRange.trans h'.toSameRange
  ri := h.ri.trans h'.ri
  key := h.key.trans h'.key
  masterId := h.masterId.trans h'.masterId
  count := h.count.trans h'.count
  start := h.start.trans h'.start
  lp := h.lp.trans h'.lp

lemma Within.moved (w : si.Within n lp) (h : si'.Moved si) : si'.Within n lp where
  listpack := h.lp.trans w.listpack
  renders := by
    rw [h.key]
    exact w.renders
  masterId := h.masterId.trans w.masterId
  count := h.count.trans w.count
  start := h.start.trans w.start

lemma verdict_eq (si : StreamIterator) (i : StreamItem) :
    streamIteratorVerdict si i.flags i.id =
      if si.near i then if si.far i then .emit else .stop else .skip := by
  rw [streamIteratorVerdict, near, far]
  simp only [flagDeleted_flags, ← not_le, ite_not]
  cases si.rev <;> cases i.deleted <;> simp [-not_le]

section

variable (w : si.Within n lp) (hrev : si.rev = rev)
include w hrev

lemma Within.next (h : n.items = done ++ todo)
    (he : si.lpEle = lp.ptr (markedTail n.masterId done todo)) (hrest : itemsAhead rev done todo = i :: rest) :
    ∃ si' done' todo', streamIteratorSeekEntry si lp = .ok (si', true) ∧ si'.Moved si ∧
      n.items = done' ++ i :: todo' ∧ itemsAhead rev done' todo' = rest ∧
      si'.lpEle = lp.ptr (i.payload n.masterId ++ markedTail n.masterId (done' ++ [i]) todo') := by
  cases rev with
  | false =>
    obtain rfl : todo = i :: rest := hrest
    exact ⟨_, done, rest, w.seek_forward h hrev he, Moved.pointers .., h, rfl, rfl⟩
  | true =>
    have hdone : done = rest.reverse ++ [i] := by
      rw [← reverse_reverse done, show done.reverse = i :: rest from hrest, reverse_cons]
    subst hdone
    rw [append_assoc] at h
    exact ⟨_, rest.reverse, todo, w.seek_backward h hrev he, Moved.pointers .., h, reverse_reverse rest, rfl⟩

lemma Within.last (h : n.items = done ++ todo)
    (he : si.lpEle = lp.ptr (markedTail n.masterId done todo)) (hrest : itemsAhead rev done todo = []) :
    ∃ si', streamIteratorSeekEntry si lp = .ok (si', false) ∧ si'.SameRange si ∧ si'.ri = si.ri ∧ si'.lpEle = none := by
  have hs := w.suffix h
  cases rev with
  | false =>
    obtain rfl : todo = [] := hrest
    rw [streamIteratorSeekEntry, if_neg (by simp [hrev]), he, markedTail, lpNext_ptr hs, ok_bind]
    exact ⟨_, rfl, ⟨rfl, rfl, rfl⟩, rfl, rfl⟩
  | true =>
    obtain rfl : done = [] := reverse_eq_nil_iff.mp hrest
    rw [streamIteratorSeekEntry, if_pos hrev, he, markedTail, entryMark, lpGetInteger_ptr hs, ok_bind, if_pos (by rfl)]
    exact ⟨_, rfl, ⟨rfl, rfl, rfl⟩, rfl, rfl⟩

lemma Within.skip (h : n.items = done ++ i :: todo)
    (he : si.lpEle = lp.ptr (i.pairs ++ markedTail n.masterId (done ++ [i]) todo)) :
    ∃ si' done' todo', streamIteratorSkipEntry si lp i.flags i.fields.length = .ok si' ∧ si'.Moved si ∧
      n.items = done' ++ todo' ∧ itemsAhead rev done' todo' = itemsAhead rev done todo ∧
      si'.lpEle = lp.ptr (markedTail n.masterId done' todo') := by
  cases rev with
  | false =>
    have h' : n.items = (done ++ [i]) ++ todo := by
      rw [h, append_assoc, singleton_append]
    exact ⟨_, done ++ [i], todo, w.skip_forward h hrev he, Moved.pointers .., h', rfl, rfl⟩
  | true => exact ⟨_, done, i :: todo, w.skip_backward h hrev he, Moved.pointers .., h, rfl, rfl⟩

end

/-- What a scan of the listpack may end with when `rest` is ahead. -/
def Finds (si : StreamIterator) (n : StreamNode) (lp : Listpack) (rest : List StreamItem) : Scan → Prop
  | .exhausted si' => si'.SameRange si ∧ si'.ri = si.ri ∧ si'.lpEle = none ∧ rest.filter si.near = []
  | .outOfRange _ => ∃ i l, rest.filter si.near = i :: l ∧ si.far i = false
  | .emitted si' id numfields => ∃ i done todo,
      rest.filter si.near = i :: (itemsAhead si.rev done todo).filter si.near ∧ si.far i = true ∧
      si'.SameRange si ∧ si'.ri = si.ri ∧ si'.OnEntry n lp done i todo ∧ id = i.id ∧ numfields = i.fields.length

lemma Finds.passed {rest'} {r : Scan} (h : si'.Finds n lp rest' r) (moved : si'.Moved si)
    (hrest : rest.filter si.near = rest'.filter si.near) : si.Finds n lp rest r := by
  cases r with
  | exhausted t =>
    obtain ⟨range, hri, hele, hnil⟩ := h
    rw [moved.near, ← hrest] at hnil
    exact ⟨range.trans moved.toSameRange, hri.trans moved.ri, hele, hnil⟩
  | outOfRange t =>
    obtain ⟨i, l, hcons, hfar⟩ := h
    rw [moved.near, ← hrest] at hcons
    rw [moved.far] at hfar
    exact ⟨i, l, hcons, hfar⟩
  | emitted t id numfields =>
    obtain ⟨i, done, todo, hcons, hfar, range, hri, on, hid, hnum⟩ := h
    rw [moved.near, ← hrest, moved.rev] at hcons
    rw [moved.far] at hfar
    exact ⟨i, done, todo, hcons, hfar, range.trans moved.toSameRange, hri.trans moved.ri, on, hid, hnum⟩

lemma Within.scan {fuel : Nat} (w : si.Within n lp) (h : n.items = done ++ todo)
    (he : si.lpEle = lp.ptr (markedTail n.masterId done todo)) (hfuel : (itemsAhead si.rev done todo).length < fuel) :
    Sat NoFault (si.Finds n lp (itemsAhead si.rev done todo)) (streamIteratorScan lp fuel si) := by
  induction fuel generalizing si done todo with
  | zero => cases hfuel
  | succ fuel ih =>
    rw [streamIteratorScan]
    cases hrest : itemsAhead si.rev done todo with
    | nil =>
      obtain ⟨si', hseek, range, hri, hele⟩ := w.last rfl h he hrest
      rw [hseek, ok_bind]
      exact ⟨range, hri, hele, rfl⟩
    | cons i rest =>
      obtain ⟨si₁, done', todo', hseek, moved₁, hitems, hahead, hele₁⟩ := w.next rfl h he hrest
      obtain ⟨si₂, hread, moved₂, hele₂, hflags⟩ : ∃ si₂, streamIteratorReadEntry si₁ lp =
            .ok (si₂, i.flags, i.id, i.fields.length) ∧ si₂.Moved si ∧
          si₂.lpEle = lp.ptr (i.pairs ++ markedTail n.masterId (done' ++ [i]) todo') ∧ si₂.lpFlags = si₁.lpEle :=
        ⟨_, (w.moved moved₁).read hitems hele₁, (Moved.pointers ..).trans moved₁, rfl, rfl⟩
      have w₂ := w.moved moved₂
      rw [hseek, ok_bind]
      simp only [if_true]
      rw [hread, ok_bind]
      simp only [verdict_eq, moved₂.near, moved₂.far]
      cases hnear : si.near i with
      | false =>
        obtain ⟨si₃, d, t, hskip, moved₃, hitems', hahead', hele₃⟩ := w₂.skip moved₂.rev hitems hele₂
        have moved := moved₃.trans moved₂
        have next := ih (w.moved moved) hitems' hele₃ (by
          rw [hrest, length_cons] at hfuel
          rw [moved.rev, hahead', hahead]
          omega)
        simp only [Bool.false_eq_true, if_false]
        rw [hskip, ok_bind]
        rw [moved.rev, hahead', hahead] at next
        refine next.mono fun r hr => hr.passed moved ?_
        rw [filter_cons_of_neg (by simp [hnear])]
      | true =>
        simp only [if_true]
        cases hfar : si.far i with
        | false => exact ⟨i, _, filter_cons_of_pos hnear, hfar⟩
        | true =>
          have moved : Moved { si₂ with
              masterFieldsPtr := if flagSamefields i.flags then si₂.masterFieldsStart else si₂.masterFieldsPtr
              entryFlags := i.flags } si := (Moved.pointers ..).trans moved₂
          have hptr : i.same = true →
              (if flagSamefields i.flags then si₂.masterFieldsStart else si₂.masterFieldsPtr) = lp.ptr n.master := by
            intro hsame
            rw [flagSamefields_flags, hsame, if_pos rfl, w₂.start]
          refine ⟨i, done', todo', ?_, hfar, moved.toSameRange, moved.ri, ?_, rfl, rfl⟩
          · rw [filter_cons_of_pos hnear, hahead]
          · exact ⟨w.moved moved, hitems, rfl, hptr, hele₂, hflags.trans hele₁⟩

lemma length_itemsAhead_lt (w : si.Within n lp) (h : n.items = done ++ todo) :
    (itemsAhead rev done todo).length < lp.elements.length + 1 := by
  have : n.items.length ≤ lp.elements.length := length_items_le w.renders.elements
  rw [h, length_append] at this
  cases rev with
  | false =>
    show todo.length < _
    omega
  | true =>
    show done.reverse.length < _
    rw [length_reverse]
    omega

lemma enter_spec {key : Bytes} (si : StreamIterator) (ri : List (Bytes × Listpack)) (h : n.Renders (key, lp)) :
    ∃ si' done todo, streamIteratorEnter si key lp ri = .ok si' ∧ si'.SameRange si ∧ si'.ri = ri ∧ si'.Within n lp ∧
      n.items = done ++ todo ∧ si'.lpEle = lp.ptr (markedTail n.masterId done todo) ∧
      itemsAhead si.rev done todo = if si.rev then n.items.reverse else n.items := by
  have h0 : n.elements <:+ lp.elements := by
    rw [show lp.elements = n.elements from h.elements]
  have h1 := suffix_of_cons h0
  have h2 := suffix_of_cons h1
  have h3 := suffix_of_cons h2
  have hfirst : lpFirst lp = lp.ptr n.elements := by
    rw [lpFirst_eq_ptr, show lp.elements = n.elements from h.elements]
  have hkey : key.length = 16 := by
    rw [show key = streamEncodeID n.masterId from h.key, length_streamEncodeID]
  have hdecode : streamDecodeID key = n.masterId := by
    rw [show key = streamEncodeID n.masterId from h.key, streamDecodeID_encode]
  have enter : ∀ lpEle, streamIteratorFirst lp (lp.ptr n.master) n.masterFields.length si.rev = .ok lpEle →
      streamIteratorEnter si key lp ri = .ok { si with
        ri, key, masterId := n.masterId, masterFieldsCount := n.masterFields.length
        masterFieldsStart := lp.ptr n.master, lp := some lp, lpEle } := by
    intro lpEle hele
    rw [streamIteratorEnter, if_neg (by simp [hkey]), hfirst]
    rw [StreamNode.elements] at h0 ⊢
    simp only [lpNext_ptr h0, lpNext_ptr h1, lpGetInteger_ptr h2, lpNext_ptr h2, ok_bind, hele, hdecode]
  cases hrev : si.rev with
  | false =>
    have hfields := lpNextTimes_ptr h3
    rw [length_map] at hfields
    refine ⟨_, [], n.items, enter _ ?_, ⟨rfl, rfl, rfl⟩, rfl, ⟨rfl, h, rfl, rfl, rfl⟩, rfl, rfl, rfl⟩
    rw [hrev]
    exact hfields
  | true =>
    refine ⟨_, n.items, [], enter _ ?_, ⟨rfl, rfl, rfl⟩, rfl, ⟨rfl, h, rfl, rfl, rfl⟩, ?_, rfl, rfl⟩
    · rw [hrev, streamIteratorFirst, lpLast_eq_ptr]
      · rfl
      · rw [show lp.elements = n.elements from h.elements]
        exact markedTail_suffix (append_nil _).symm
    · rw [append_nil]

section Nodes

-- What is known of the nodes of the tree: at least that they are rendered.
variable {P : StreamNode → Bytes × Listpack → Prop}

/-- The entry that was emitted last, and the entries ahead of the iterator. -/
def Emitted (P : StreamNode → Bytes × Listpack → Prop) (si : StreamIterator) (i : StreamItem)
    (rest : List StreamItem) : Prop :=
  ∃ n lp done todo nodes, si.OnEntry n lp done i todo ∧ P n (si.key, lp) ∧ List.Forall₂ P nodes si.ri ∧
    rest = itemsAhead si.rev done todo ++ nodesAhead si.rev nodes

/-- What `streamIteratorGetID` may return when `rest` is ahead. -/
def Gets (P : StreamNode → Bytes × Listpack → Prop) (si : StreamIterator) (rest : List StreamItem) :
    StreamIterator × Option (StreamID × Int) → Prop
  | (_, none) => (rest.filter si.near).takeWhile si.far = []
  | (si', some (id, numfields)) => ∃ i rest', rest.filter si.near = i :: rest'.filter si.near ∧ si.far i = true ∧
      si'.SameRange si ∧ si'.Emitted P i rest' ∧ id = i.id ∧ numfields = i.fields.length

lemma Gets.range {r} (h : si'.Gets P rest r) (range : si'.SameRange si) :
    si.Gets P rest r := by
  obtain ⟨t, _ | ⟨id, numfields⟩⟩ := r
  · rw [Gets, range.near, range.far] at h
    exact h
  · obtain ⟨i, rest', hcons, hfar, hrange, rest⟩ := h
    rw [range.near] at hcons
    rw [range.far] at hfar
    exact ⟨i, rest', hcons, hfar, hrange.trans range, rest⟩

lemma Finds.gets {nodes ahead} {r : Scan} (h : si.Finds n lp ahead r)
    (hn : P n (streamEncodeID n.masterId, lp)) (hri : List.Forall₂ P nodes si.ri)
    (hnodes : ∀ si' : StreamIterator,
      Sat NoFault (si'.Gets P (nodesAhead si'.rev nodes)) (streamIteratorNodes si.ri si')) :
    Sat NoFault (si.Gets P (ahead ++ nodesAhead si.rev nodes)) (r.finish (streamIteratorNodes si.ri)) := by
  cases r with
  | exhausted t =>
    obtain ⟨range, hri, hele, hnil⟩ := h
    refine (hnodes t).mono fun r hr => ?_
    have hr' := hr.range range
    obtain ⟨u, _ | ⟨id, numfields⟩⟩ := r
    · rw [Gets, filter_append, hnil, nil_append, ← range.rev]
      exact hr'
    · obtain ⟨i, rest', hcons, rest⟩ := hr'
      refine ⟨i, rest', ?_, rest⟩
      rw [filter_append, hnil, nil_append, ← range.rev, hcons]
  | outOfRange t =>
    obtain ⟨i, l, hcons, hfar⟩ := h
    show (List.filter _ _).takeWhile _ = []
    rw [filter_append, hcons, cons_append, takeWhile_cons_of_neg (by simp [hfar])]
  | emitted t id numfields =>
    obtain ⟨i, done, todo, hcons, hfar, range, hri', on, hid, hnum⟩ := h
    refine ⟨i, itemsAhead si.rev done todo ++ nodesAhead si.rev nodes, ?_, hfar, range, ?_, hid, hnum⟩
    · rw [filter_append, hcons, filter_append, cons_append]
    · refine ⟨n, lp, done, todo, nodes, on, ?_, hri' ▸ hri, by rw [range.rev]⟩
      rw [show t.key = streamEncodeID n.masterId from on.within.renders.key]
      exact hn

lemma nodes_spec (hP : ∀ n e, P n e → n.Renders e) {nodes ri}
    (hri : List.Forall₂ P nodes ri) (si : StreamIterator) :
    Sat NoFault (si.Gets P (nodesAhead si.rev nodes)) (streamIteratorNodes ri si) := by
  induction hri generalizing si with
  | nil => exact rfl
  | @cons n e nodes ri hn hri ih =>
    obtain ⟨key, lp⟩ := e
    have render := hP n _ hn
    obtain ⟨si', done, todo, henter, range, hri', w, hitems, hele, hahead⟩ := enter_spec si ri render
    rw [show key = streamEncodeID n.masterId from render.key] at hn
    rw [streamIteratorNodes, henter, ok_bind]
    refine Sat.bind (w.scan hitems hele (length_itemsAhead_lt w hitems)) fun r hr => ?_
    rw [← hri'] at hri ih ⊢
    refine (hr.gets hn hri ih).mono fun q hq => ?_
    rw [nodesAhead, flatMap_cons, ← hahead, ← range.rev]
    exact hq.range range

/-- The iterator is between two calls of `streamIteratorGetID`, and `rest` is ahead of it. -/
def Ready (P : StreamNode → Bytes × Listpack → Prop) (si : StreamIterator) (rest : List StreamItem) : Prop :=
  ∃ nodes, List.Forall₂ P nodes si.ri ∧
    (si.lpEle = none ∧ rest = nodesAhead si.rev nodes ∨
      ∃ n lp done i todo, si.Within n lp ∧ P n (si.key, lp) ∧ n.items = done ++ i :: todo ∧
        si.lpEle = lp.ptr (markedTail n.masterId (done ++ [i]) todo) ∧
        rest = itemsAhead si.rev done todo ++ nodesAhead si.rev nodes)

lemma Ready.getID (hP : ∀ n e, P n e → n.Renders e) (h : si.Ready P rest) :
    Sat NoFault (si.Gets P rest) (streamIteratorGetID si) := by
  obtain ⟨nodes, hri, h⟩ := h
  rcases h with ⟨hele, rfl⟩ | ⟨n, lp, done, i, todo, w, hn, hitems, hele, rfl⟩
  · rw [streamIteratorGetID, hele]
    cases si.lp <;> exact nodes_spec hP hri si
  have hsome : si.lpEle = some (lp.elements.length - (markedTail n.masterId (done ++ [i]) todo).length) := by
    rw [hele, Listpack.ptr, if_neg (by simp [markedTail])]
  -- Going backward the emitted entry is passed first, going forward the iterator is behind it already.
  obtain ⟨si', done', todo', hstep, moved, hitems', hele', hahead⟩ : ∃ si' done' todo',
      streamIteratorStepBack si lp = .ok si' ∧ si'.Moved si ∧ n.items = done' ++ todo' ∧
      si'.lpEle = lp.ptr (markedTail n.masterId done' todo') ∧
      itemsAhead si.rev done' todo' = itemsAhead si.rev done todo := by
    cases hrev : si.rev with
    | false =>
      refine ⟨si, done ++ [i], todo, ?_, Moved.pointers .., ?_, hele, rfl⟩
      · rw [streamIteratorStepBack, if_neg (by simp [hrev])]
      · rw [hitems, append_assoc, singleton_append]
    | true => exact ⟨_, done, i :: todo, w.stepBack hitems hrev hele, Moved.pointers .., hitems, rfl, rfl⟩
  have w' := w.moved moved
  rw [show si.key = streamEncodeID n.masterId from w.renders.key] at hn
  rw [streamIteratorGetID, w.listpack, hsome]
  simp only
  rw [hstep, ok_bind]
  refine Sat.bind (w'.scan hitems' hele' (length_itemsAhead_lt w' hitems')) fun r hr => ?_
  rw [← moved.ri] at hri
  refine (hr.gets hn hri (nodes_spec hP hri)).mono fun q hq => ?_
  rw [moved.rev, hahead] at hq
  exact hq.range moved.toSameRange

lemma Emitted.getFields (h : si.Emitted P i rest) : ∃ lp si', si.lp = some lp ∧
    streamIteratorGetFields lp i.fields.length si = .ok (si', i.fields) ∧ si'.SameRange si ∧ si'.Ready P rest := by
  obtain ⟨n, lp, done, todo, nodes, on, hn, hri, rfl⟩ := h
  obtain ⟨p, hget⟩ := on.within.getFields on.items on.flags on.ptr on.ele
  refine ⟨lp, _, on.within.listpack, hget, ⟨rfl, rfl, rfl⟩, nodes, hri, .inr ?_⟩
  exact ⟨n, lp, done, i, todo, on.within.moved (Moved.pointers ..), hn, on.items, rfl, rfl⟩

end Nodes

end StreamIterator

/-- The first `count` entries, or all of them. -/
def limited (count : Nat) (l : List StreamItem) : List StreamItem := if count = 0 then l else l.take count

lemma limited_cons {count arraylen : Nat} {l} (hcount : count = 0 ∨ arraylen < count) :
    limited (count - arraylen) (i :: l) =
      i :: if count ≠ 0 ∧ count = arraylen + 1 then [] else limited (count - (arraylen + 1)) l := by
  cases hcount with
  | inl h =>
    subst h
    simp [limited]
  | inr h =>
    obtain ⟨k, rfl⟩ : ∃ k, count = arraylen + 1 + k := ⟨count - (arraylen + 1), by omega⟩
    rw [limited, limited, if_neg (by omega), Nat.add_sub_cancel_left,
      show arraylen + 1 + k - arraylen = k + 1 by omega, take_succ_cons]
    cases k with
    | zero => simp
    | succ k => rw [if_neg (by omega), if_neg (by omega)]

lemma streamForEach_eq {σ : Type} {visit P} {count fuel : Nat} {si} {arraylen : Nat} {st : σ}
    (hP : ∀ n e, P n e → n.Renders e) (h : si.Ready P rest)
    (hfuel : (rest.filter si.near).length < fuel) (hcount : count = 0 ∨ arraylen < count) :
    streamForEach visit count fuel si arraylen st =
      ((limited (count - arraylen) ((rest.filter si.near).takeWhile si.far)).foldlM
        (fun st i => visit st i.id i.fields) st).map
      (fun st => (st, arraylen + (limited (count - arraylen) ((rest.filter si.near).takeWhile si.far)).length)) := by
  induction fuel generalizing si rest arraylen st with
  | zero => cases hfuel
  | succ fuel ih =>
    obtain ⟨⟨si', item⟩, hid, hget⟩ := (h.getID hP).returns
    rw [streamForEach, hid]
    obtain _ | ⟨id, numfields⟩ := item
    · rw [ok_bind, show (rest.filter si.near).takeWhile si.far = [] from hget]
      simp [limited]
      rfl
    obtain ⟨i, rest', hcons, hfar, range, emitted, rfl, rfl⟩ := hget
    obtain ⟨lp, si'', hlp, hfields, range', ready⟩ := emitted.getFields
    have same := range'.trans range
    rw [hcons, length_cons] at hfuel
    rw [ok_bind, hcons, takeWhile_cons_of_pos hfar]
    simp only [hlp, Int.toNat_natCast]
    rw [hfields, ok_bind]
    rw [limited_cons hcount, foldlM_cons]
    cases hvisit : visit st i.id i.fields with
    | error f => rfl
    | ok st' =>
      rw [ok_bind, ok_bind]
      split
      · rfl
      rename_i hmore
      rw [ih ready (by rw [same.near]; omega) (by omega), same.near, same.far, length_cons]
      congr 2
      funext st
      rw [Nat.add_assoc, Nat.add_comm 1]

end JitRedis
