import JitRedis.Stream.Writing

/-!
# Trimming and deleting

Entries are marked as deleted one by one, or whole nodes are removed.
-/

namespace JitRedis

open Fallible List StreamItem

variable {n : StreamNode} {lp : Listpack} {i : StreamItem} {key : Bytes} {m : StreamID}

/-- Mark the first `k` entries that are not deleted yet. -/
def markFirst : Nat → List StreamItem → List StreamItem
  | 0, l => l
  | _ + 1, [] => []
  | k + 1, i :: l => if i.deleted then i :: markFirst (k + 1) l else { i with deleted := true } :: markFirst k l

/-- The node with its first `k` entries deleted. -/
def StreamNode.mark (n : StreamNode) (k : Nat) : StreamNode := { n with items := markFirst k n.items }

lemma live_markFirst (k : Nat) (l : List StreamItem) :
    (markFirst k l).filter (fun i => !i.deleted) = (l.filter fun i => !i.deleted).drop k := by
  induction l generalizing k with
  | nil => cases k <;> rfl
  | cons i l ih =>
    cases k with
    | zero => rfl
    | succ k =>
      rw [markFirst]
      cases hdel : i.deleted with
      | true =>
        rw [if_pos rfl, filter_cons_of_neg (by simp [hdel]), filter_cons_of_neg (by simp [hdel]), ih]
      | false =>
        rw [if_neg (by simp), filter_cons_of_neg (by simp), filter_cons_of_pos (by simp [hdel]),
          drop_succ_cons, ih]

lemma length_markFirst (k : Nat) (l : List StreamItem) : (markFirst k l).length = l.length := by
  induction l generalizing k with
  | nil => cases k <;> rfl
  | cons i l ih =>
    cases k with
    | zero => rfl
    | succ k =>
      rw [markFirst]
      split <;> rw [length_cons, length_cons, ih]

lemma mem_markFirst {k : Nat} {l} (h : i ∈ markFirst k l) :
    ∃ j ∈ l, j.id = i.id ∧ j.same = i.same ∧ j.fields = i.fields := by
  induction l generalizing k with
  | nil => cases k <;> cases h
  | cons j l ih =>
    cases k with
    | zero => exact ⟨i, h, rfl, rfl, rfl⟩
    | succ k =>
      rw [markFirst] at h
      split at h
      · cases h with
        | head => exact ⟨i, mem_cons_self .., rfl, rfl, rfl⟩
        | tail _ h =>
          obtain ⟨j', hj, eqs⟩ := ih h
          exact ⟨j', mem_cons_of_mem _ hj, eqs⟩
      cases h with
      | head => exact ⟨j, mem_cons_self .., rfl, rfl, rfl⟩
      | tail _ h =>
        obtain ⟨j', hj, eqs⟩ := ih h
        exact ⟨j', mem_cons_of_mem _ hj, eqs⟩

def StreamItem.behind (m : StreamID) (i : StreamItem) : List LpElement := (i.elements m).tail

lemma StreamItem.elements_eq : i.elements m = .int i.flags :: i.behind m := rfl

lemma StreamItem.elements_deleted :
    { i with deleted := true }.elements m = .int (setDeleted i.flags) :: i.behind m := by
  rw [setDeleted_flags]
  rfl

lemma StreamItem.flags_range (i : StreamItem) : -2 ^ 63 ≤ i.flags ∧ i.flags < 2 ^ 63 := by
  rw [flags]
  split <;> split <;> omega

lemma streamSkipEntry_ptr {mfc : Int} {rest} (hsame : i.same = true → mfc = i.fields.length)
    (hs : i.elements m ++ rest <:+ lp.elements) :
    streamSkipEntry lp (lp.ptr (i.elements m ++ rest)) i.flags mfc = .ok (lp.ptr rest) := by
  rw [StreamItem.elements, StreamItem.payload, StreamItem.head] at hs ⊢
  simp only [cons_append, nil_append, append_assoc] at hs ⊢
  have h1 := suffix_of_cons hs
  have h2 := suffix_of_cons h1
  have h3 := suffix_of_cons h2
  have hlast := suffix_of_append (suffix_of_append h3)
  simp only [streamSkipEntry, lpNext_ptr hs, lpNext_ptr h1, lpNext_ptr h2, ok_bind, flagSamefields_flags]
  cases hsm : i.same with
  | true =>
    have hnum : i.numfields = [] := by
      rw [StreamItem.numfields, hsm, if_pos rfl]
    have hlen : i.pairs.length = i.fields.length := by
      rw [StreamItem.pairs, hsm, if_pos rfl, length_map]
    rw [hnum, nil_append] at h3 ⊢
    have hnext := lpNextTimes_ptr h3
    rw [hlen] at hnext
    rw [if_pos rfl, hsame hsm, Int.toNat_natCast, hnext, ok_bind, lpNext_ptr hlast]
  | false =>
    have hnum : i.numfields = [.int i.fields.length] := by
      rw [StreamItem.numfields, hsm, if_neg (by simp)]
    have hlen : (i.numfields ++ i.pairs).length = (1 + (i.fields.length : Int) * 2).toNat := by
      rw [hnum, StreamItem.pairs, hsm, if_neg (by simp)]
      simp
      omega
    have h3' := h3
    rw [← append_assoc] at h3'
    have hnext := lpNextTimes_ptr h3'
    rw [hlen, append_assoc] at hnext
    have hget : lpGetInteger lp (lp.ptr (i.numfields ++ (i.pairs ++ .int i.lpCount :: rest))) = .ok i.fields.length := by
      rw [hnum] at h3 ⊢
      exact lpGetInteger_ptr h3
    rw [if_neg (by simp), hget, ok_bind, hnext, ok_bind, lpNext_ptr hlast]

lemma streamMarkLoop_spec {maxlen length deleted fuel : Nat} {mfc : Int} {pre todo} (hlp : lp.elements = pre ++ todo.flatMap (elements m))
    (hsame : ∀ i ∈ todo, i.same = true → mfc = i.fields.length) (hlt : maxlen < length)
    (hlive : length - maxlen ≤ (todo.filter fun i => !i.deleted).length) (hfuel : todo.length ≤ fuel) :
    Sat OnlyFull (fun r =>
        r.1.elements = pre ++ (markFirst (length - maxlen) todo).flatMap (elements m) ∧
        r.2 = (maxlen, deleted + (length - maxlen)))
      (streamMarkLoop maxlen mfc fuel lp (lp.ptr (todo.flatMap (elements m))) length deleted) := by
  induction todo generalizing lp pre length deleted fuel with
  | nil =>
    rw [filter_nil, length_nil] at hlive
    omega
  | cons i todo ih =>
    obtain ⟨fuel, rfl⟩ : ∃ k, fuel = k + 1 := ⟨fuel - 1, by rw [length_cons] at hfuel; omega⟩
    rw [length_cons] at hfuel
    rw [flatMap_cons] at hlp ⊢
    obtain ⟨k, hk⟩ : ∃ k, length - maxlen = k + 1 := ⟨length - maxlen - 1, by omega⟩
    have hs : i.elements m ++ todo.flatMap (elements m) <:+ lp.elements := by
      rw [hlp]
      exact suffix_append _ _
    have hptr : lp.ptr (i.elements m ++ todo.flatMap (elements m)) = some pre.length := by
      rw [elements_eq] at hlp ⊢
      exact ptr_cons hlp
    have hget : lpGetInteger lp (some pre.length) = .ok i.flags := by
      rw [← hptr]
      exact lpGetInteger_ptr hs
    have hrest := fun j hj => hsame j (mem_cons_of_mem _ hj)
    rw [hptr, streamMarkLoop, hget, ok_bind, flagDeleted_flags, hk, markFirst]
    cases hdel : i.deleted with
    | true =>
      rw [filter_cons_of_neg (by simp [hdel])] at hlive
      rw [if_pos rfl, if_pos rfl, ← hptr, streamSkipEntry_ptr (hsame i (mem_cons_self ..)) hs, ok_bind, ← hk,
        flatMap_cons, ← append_assoc]
      refine ih ?_ hrest hlt hlive (by omega)
      rw [hlp, append_assoc]
    | false =>
      rw [filter_cons_of_pos (by simp [hdel]), length_cons] at hlive
      have hlp' : lp.elements = pre ++ .int i.flags :: (i.behind m ++ todo.flatMap (elements m)) := hlp
      have hflags : -2 ^ 63 ≤ setDeleted i.flags ∧ setDeleted i.flags < 2 ^ 63 := by
        rw [setDeleted_flags]
        exact flags_range _
      have replace := lpReplaceInteger_spec hlp' hflags.1 hflags.2
      rw [ptr_cons hlp'] at replace
      rw [if_neg (by simp), if_neg (by simp), flatMap_cons, elements_deleted, cons_append]
      refine replace.bind fun lp₁ h₁ => ?_
      split
      · obtain rfl : k = 0 := by omega
        rw [sat_ok, markFirst, show length - 1 = maxlen by omega]
        exact ⟨h₁, rfl⟩
      have hs₁ : { i with deleted := true }.elements m ++ todo.flatMap (elements m) <:+ lp₁.elements := by
        rw [h₁, elements_deleted]
        exact suffix_append _ _
      have hskip := streamSkipEntry_ptr (i := { i with deleted := true }) (hsame i (mem_cons_self ..)) hs₁
      rw [elements_deleted, cons_append, ptr_cons h₁, ← setDeleted_flags] at hskip
      rw [hskip, ok_bind]
      have h₁' : lp₁.elements = (pre ++ { i with deleted := true }.elements m) ++
          todo.flatMap (elements m) := by
        rw [h₁, elements_deleted, append_assoc]
        rfl
      refine (ih h₁' hrest (by omega) (by omega) (by omega)).mono fun r hr => ?_
      rw [show length - 1 - maxlen = k by omega, elements_deleted, append_assoc] at hr
      refine ⟨hr.1, hr.2.trans ?_⟩
      rw [Nat.add_assoc, Nat.add_comm 1]

lemma live_mark (n : StreamNode) (k : Nat) : (n.mark k).live = n.live.drop k := live_markFirst k n.items

lemma length_dead_mark {k : Nat} (h : k ≤ n.live.length) : (n.mark k).dead.length = n.dead.length + k := by
  have hmark := (n.mark k).live_add_dead
  have hn := n.live_add_dead
  have hitems : (n.mark k).items.length = n.items.length := length_markFirst k n.items
  rw [live_mark, length_drop] at hmark
  omega

lemma StreamNode.Renders.mark {lp'} {k : Nat} (h : n.Renders (key, lp)) (hk : k < n.live.length)
    (hlp' : lp'.elements = (n.mark k).elements) : (n.mark k).Renders (key, lp') := by
  refine ⟨h.key, hlp', ?_, ?_, ?_⟩
  · intro i hi hsame
    obtain ⟨j, hj, -, hs, hf⟩ := mem_markFirst hi
    rw [← hf]
    exact h.same j hj (hs.trans hsame)
  · obtain ⟨i, rest, hitems, hid⟩ := h.first
    rw [StreamNode.mark, hitems]
    cases k with
    | zero => exact ⟨i, rest, rfl, hid⟩
    | succ k =>
      rw [markFirst]
      split
      · exact ⟨i, _, rfl, hid⟩
      · exact ⟨_, _, rfl, hid⟩
  · intro hnil
    have := congrArg List.length hnil
    rw [live_mark, length_drop, length_nil] at this
    omega

lemma streamTrimNode_spec {maxlen length deleted : Nat} (h : n.Renders (key, lp)) (hlt : maxlen < length)
    (hlive : length < maxlen + n.live.length) :
    Sat OnlyFull (fun r => (n.mark (length - maxlen)).Renders (key, r.1) ∧ r.2 = (maxlen, deleted + (length - maxlen)))
      (streamTrimNode maxlen lp length deleted n.live.length) := by
  obtain ⟨k, hk⟩ : ∃ k : Nat, (length : Int) - maxlen = k := ⟨length - maxlen, by omega⟩
  have hlen := h.length_lt
  have hcounts := n.live_add_dead
  have hlp : lp.elements = [] ++ .int n.live.length :: (.int n.dead.length :: .int n.masterFields.length :: n.master) :=
    h.elements
  have replace := lpReplaceInteger_spec (v := n.live.length - k) hlp (by omega) (by omega)
  rw [ptr_cons hlp] at replace
  have hfirst : lpFirst lp = some 0 := by
    rw [lpFirst_eq_ptr, hlp]
    exact ptr_cons hlp
  rw [streamTrimNode, hfirst, hk, if_neg (by omega)]
  refine replace.bind fun lp₁ h₁ => ?_
  have hs₁ := (⟨[], h₁.symm⟩ : _ <:+ lp₁.elements)
  have h₁' : lp₁.elements = [.int (n.live.length - k)] ++ .int n.dead.length ::
      (.int n.masterFields.length :: n.master) := h₁
  have hnext := lpNext_ptr hs₁
  rw [ptr_cons h₁, ptr_cons h₁'] at hnext
  have hget := lpGetInteger_ptr (suffix_of_cons hs₁)
  rw [ptr_cons h₁'] at hget
  have replace₂ := lpReplaceInteger_spec (v := n.dead.length + k) h₁' (by omega) (by omega)
  rw [ptr_cons h₁'] at replace₂
  rw [show ([] : List LpElement).length = 0 from rfl] at hnext
  rw [hnext, ok_bind, hget, ok_bind]
  refine replace₂.bind fun lp₂ h₂ => ?_
  -- From the second counter on the walk goes over the fields of the master entry.
  have hs₂ : .int (n.dead.length + k) :: .int n.masterFields.length :: n.master <:+ lp₂.elements :=
    ⟨[.int (n.live.length - k)], h₂.symm⟩
  have hs₃ := suffix_of_cons hs₂
  have hs₄ := suffix_of_cons hs₃
  have hs₅ := suffix_of_append hs₄
  have htimes := lpNextTimes_ptr hs₄
  rw [length_map] at htimes
  rw [← ptr_cons h₂, lpNext_ptr hs₂, ok_bind, lpGetInteger_ptr hs₃, ok_bind, lpNext_ptr hs₃, ok_bind,
    Int.toNat_natCast, StreamNode.master, htimes, ok_bind, markedTail, lpNext_ptr hs₅, ok_bind]
  have hpre : lp₂.elements = ([.int (n.live.length - k), .int (n.dead.length + k), .int n.masterFields.length] ++
      n.masterFields.map lpEncode ++ [entryMark []]) ++ n.items.flatMap (elements n.masterId) := by
    rw [h₂, StreamNode.master, markedTail]
    simp
  have hsame : ∀ i ∈ n.items, i.same = true → (n.masterFields.length : Int) = i.fields.length := by
    intro i hi hi'
    rw [← h.same i hi hi', length_map]
  have hfuel : n.items.length ≤ lp₂.elements.length := by
    have := length_items_le (n := n) h.elements
    rw [show lp₂.elements.length = lp.elements.length by rw [hlp, h₂]; rfl]
    exact this
  refine (streamMarkLoop_spec hpre hsame hlt ?_ hfuel).mono fun r hr => ⟨h.mark (by omega) ?_, hr.2⟩
  · show length - maxlen ≤ n.live.length
    omega
  · rw [hr.1, StreamNode.elements, live_mark, length_drop, length_dead_mark (by omega), StreamNode.master,
      StreamNode.mark, markedTail, Nat.cast_sub (by omega), Nat.cast_add, show ((length - maxlen : Nat) : Int) = k by omega]
    simp

/-- What trimming leaves of the nodes of a stream of the given length. -/
def trimNodes (maxlen : Nat) (approx : Bool) : Nat → List StreamNode → Nat × List StreamNode
  | length, [] => (length, [])
  | length, n :: nodes =>
    if length ≤ maxlen then (length, n :: nodes)
    else if maxlen + n.live.length ≤ length then trimNodes maxlen approx (length - n.live.length) nodes
    else if approx then (length, n :: nodes)
    else (maxlen, n.mark (length - maxlen) :: nodes)

lemma StreamNode.Renders.count (h : n.Renders (key, lp)) : lpGetInteger lp (lpFirst lp) = .ok n.live.length := by
  have hs : n.elements <:+ lp.elements := by
    rw [show lp.elements = n.elements from h.elements]
  rw [lpFirst_eq_ptr, show lp.elements = n.elements from h.elements]
  exact lpGetInteger_ptr hs

lemma trimNodes_le (maxlen : Nat) (approx : Bool) (length : Nat) (nodes : List StreamNode) :
    (trimNodes maxlen approx length nodes).1 ≤ length := by
  fun_induction trimNodes with
  | case3 length n nodes hgt hdrop ih => exact ih.trans (Nat.sub_le ..)
  | case5 => exact Nat.le_of_not_le ‹_›
  | _ => exact le_rfl

lemma streamTrimLoop_nil {maxlen fuel deleted : Nat} {approx : Bool} {s : Stream} (h : s.rax.entries = []) :
    streamTrimLoop maxlen approx (fuel + 1) s s.rax.entries deleted = .ok (s, deleted) := by
  rw [h, streamTrimLoop]
  split <;> rfl

/-- A turn of the loop, in terms of the first node. -/
lemma streamTrimLoop_cons {s : Stream} {n nodes} (h : List.Forall₂ StreamNode.Renders (n :: nodes) s.rax.entries) :
    ∃ key lp rax, n.Renders (key, lp) ∧ List.Forall₂ StreamNode.Renders nodes rax.entries ∧
      (∀ {n' lp'}, n'.Renders (key, lp') →
        List.Forall₂ StreamNode.Renders (n' :: nodes) (s.rax.insert key lp').entries) ∧
      ∀ {maxlen approx fuel deleted}, streamTrimLoop maxlen approx (fuel + 1) s s.rax.entries deleted =
        if s.length ≤ maxlen then .ok (s, deleted)
        else if maxlen + n.live.length ≤ s.length then
          streamTrimLoop maxlen approx fuel { s with rax, length := s.length - n.live.length } rax.entries
            (deleted + n.live.length)
        else if approx then .ok (s, deleted)
        else streamTrimNode maxlen lp s.length deleted n.live.length >>= fun r =>
          .ok ({ s with rax := s.rax.insert key r.1, length := r.2.1 }, r.2.2) := by
  obtain ⟨⟨key, lp⟩, ri, hn, hri, hentries⟩ := forall₂_cons_left_iff.mp h
  have hsplit : s.rax.entries = [] ++ (key, lp) :: ri := hentries
  have herase : (s.rax.erase key).entries = ri := SortedMap.erase_of_split hsplit
  have hup : (s.rax.erase key).upward key = (s.rax.erase key).entries := by
    apply SortedMap.upward_eq_entries
    rw [herase]
    exact fun e he => ((SortedMap.split_sorted hsplit).2 e he).le
  refine ⟨key, lp, s.rax.erase key, hn, herase ▸ hri, fun hn' => ?_, fun {maxlen approx fuel deleted} => ?_⟩
  · rw [SortedMap.insert_of_split hsplit]
    exact .cons hn' hri
  · rw [hentries, streamTrimLoop]
    dsimp only
    rw [hn.count, ok_bind, hup, Int.toNat_natCast,
      show ((s.length : Int) - n.live.length).toNat = s.length - n.live.length by omega]
    split
    · rfl
    · exact if_congr (by omega) rfl rfl

lemma streamTrimLoop_spec {maxlen fuel deleted : Nat} {approx : Bool} {s : Stream} {nodes}
    (h : List.Forall₂ StreamNode.Renders nodes s.rax.entries) (hfuel : nodes.length < fuel) :
    Sat OnlyFull (fun r =>
        List.Forall₂ StreamNode.Renders (trimNodes maxlen approx s.length nodes).2 r.1.rax.entries ∧
        r.1.length = (trimNodes maxlen approx s.length nodes).1 ∧ r.1.lastId = s.lastId ∧ r.1.cgroups = s.cgroups ∧
        r.2 = deleted + (s.length - r.1.length))
      (streamTrimLoop maxlen approx fuel s s.rax.entries deleted) := by
  induction nodes generalizing s fuel deleted with
  | nil =>
    obtain ⟨fuel, rfl⟩ : ∃ k, fuel = k + 1 := ⟨fuel - 1, by omega⟩
    rw [streamTrimLoop_nil (forall₂_nil_left_iff.mp h)]
    exact ⟨h, rfl, rfl, rfl, by simp⟩
  | cons n nodes ih =>
    obtain ⟨fuel, rfl⟩ : ∃ k, fuel = k + 1 := ⟨fuel - 1, by omega⟩
    obtain ⟨key, lp, rax, hn, hrax, hinsert, turn⟩ := streamTrimLoop_cons h
    rw [turn, trimNodes]
    split_ifs with hle hdrop happrox
    · exact ⟨h, rfl, rfl, rfl, by simp⟩
    · have next := @ih fuel (deleted + n.live.length) { s with rax, length := s.length - n.live.length } hrax
        (Nat.lt_of_succ_lt_succ hfuel)
      refine next.mono fun r ⟨hnodes, hlength, hlast, hgroups, hdeleted⟩ => ⟨hnodes, hlength, hlast, hgroups, ?_⟩
      have := trimNodes_le maxlen approx (s.length - n.live.length) nodes
      dsimp only at hlength hdeleted
      omega
    · exact ⟨h, rfl, rfl, rfl, by simp⟩
    · refine (streamTrimNode_spec hn (by omega) (by omega)).bind ?_
      rintro ⟨lp', length', deleted'⟩ ⟨hmark, hr⟩
      cases hr
      exact ⟨hinsert hmark, rfl, rfl, rfl, rfl⟩

lemma trimNodes_of_le {maxlen length : Nat} (approx : Bool) (nodes : List StreamNode) (h : length ≤ maxlen) :
    trimNodes maxlen approx length nodes = (length, nodes) := by
  cases nodes with
  | nil => rfl
  | cons n nodes => rw [trimNodes, if_pos h]

lemma streamTrimByLength_spec {maxlen : Nat} {approx : Bool} {s : Stream} {nodes}
    (h : List.Forall₂ StreamNode.Renders nodes s.rax.entries) :
    Sat OnlyFull (fun r =>
        List.Forall₂ StreamNode.Renders (trimNodes maxlen approx s.length nodes).2 r.1.rax.entries ∧
        r.1.length = (trimNodes maxlen approx s.length nodes).1 ∧ r.1.lastId = s.lastId ∧ r.1.cgroups = s.cgroups ∧
        r.2 = s.length - r.1.length)
      (streamTrimByLength s maxlen approx) := by
  rw [streamTrimByLength]
  split
  · rename_i hle
    rw [trimNodes_of_le approx nodes hle]
    exact ⟨h, rfl, rfl, rfl, (Nat.sub_self _).symm⟩
  · refine (streamTrimLoop_spec h (by rw [h.length_eq]; omega)).mono fun r hr => ?_
    rw [Nat.zero_add] at hr
    exact hr

lemma streamCountDeleted_spec {live dead : Nat} {rest}
    (h : lp.elements = .int live :: .int dead :: rest) (hlive : live < 2 ^ 31) (hdead : dead < 2 ^ 31) :
    Sat OnlyFull (fun r => live = 1 ∧ r = none ∨
        live ≠ 1 ∧ ∃ lp', r = some lp' ∧ lp'.elements = .int (live - 1) :: .int (dead + 1) :: rest)
      (streamCountDeleted lp) := by
  have h₀ : lp.elements = [] ++ .int live :: (.int dead :: rest) := h
  have hfirst : ∀ {lp' : Listpack} {x : LpElement} {xs : List LpElement}, lp'.elements = x :: xs →
      lpFirst lp' = lp'.ptr (x :: xs) := by
    intro lp' x xs h'
    rw [lpFirst_eq_ptr, h']
  rw [streamCountDeleted, hfirst h, lpGetInteger_ptr ⟨[], h.symm⟩, ok_bind]
  split
  · rename_i hone
    exact .inl ⟨by omega, rfl⟩
  rename_i hne
  refine Sat.bind (lpReplaceInteger_spec h₀ (by omega) (by omega)) fun lp₁ h₁ => ?_
  have hs₁ : .int (live - 1) :: .int dead :: rest <:+ lp₁.elements := ⟨[], h₁.symm⟩
  rw [hfirst h₁, lpNext_ptr hs₁, ok_bind, lpGetInteger_ptr (suffix_of_cons hs₁), ok_bind]
  have h₁' : lp₁.elements = [.int (live - 1)] ++ .int dead :: rest := h₁
  refine Sat.bind (lpReplaceInteger_spec h₁' (by omega) (by omega)) fun lp₂ h₂ => ?_
  exact .inr ⟨by omega, lp₂, rfl, h₂⟩

def StreamNode.withDeleted (n : StreamNode) (done : List StreamItem) (i : StreamItem) (todo : List StreamItem) :
    StreamNode := { n with items := done ++ { i with deleted := true } :: todo }

/-- The stream after an entry was removed, with its node or alone. -/
inductive Removed (s : Stream) (n : StreamNode) (key : Bytes) : Stream → Prop
  | node (live : n.live = []) : Removed s n key { s with rax := s.rax.erase key, length := s.length - 1 }
  | entry {lp : Listpack} (h : n.Renders (key, lp)) :
    Removed s n key { s with rax := s.rax.insert key lp, length := s.length - 1 }

variable {done todo : List StreamItem}

lemma StreamNode.counts_withDeleted (h : n.items = done ++ i :: todo) (hlive : i.deleted = false) :
    n.live.length = (n.withDeleted done i todo).live.length + 1 ∧
      (n.withDeleted done i todo).dead.length = n.dead.length + 1 := by
  rw [StreamNode.live, StreamNode.live, StreamNode.dead, StreamNode.dead, StreamNode.withDeleted, h]
  simp [filter_append, hlive]
  omega

lemma StreamNode.Renders.withDeleted {lp'} (h : n.Renders (key, lp)) (hitems : n.items = done ++ i :: todo)
    (hlive : (n.withDeleted done i todo).live ≠ []) (hlp' : lp'.elements = (n.withDeleted done i todo).elements) :
    (n.withDeleted done i todo).Renders (key, lp') := by
  refine ⟨h.key, hlp', ?_, ?_, hlive⟩
  · intro j hj hsame
    have hold := h.same
    rw [hitems] at hold
    rcases mem_append.mp hj with hj | hj
    · exact hold j (mem_append_left _ hj) hsame
    · cases hj with
      | head => exact hold i (mem_append_right _ (mem_cons_self ..)) hsame
      | tail _ hj => exact hold j (mem_append_right _ (mem_cons_of_mem _ hj)) hsame
  · obtain ⟨j, rest, hfirst, hid⟩ := h.first
    rw [hitems] at hfirst
    cases done with
    | nil =>
      cases hfirst
      exact ⟨_, _, rfl, hid⟩
    | cons j' done =>
      cases hfirst
      exact ⟨_, _, rfl, hid⟩

lemma streamIteratorRemoveEntry_spec {s : Stream} {si current}
    (on : si.OnEntry n lp done i todo) (hdel : i.deleted = false) :
    Sat OnlyFull (fun r => Removed s (n.withDeleted done i todo) si.key r.1)
      (streamIteratorRemoveEntry s si current) := by
  have render := on.within.renders
  have hcounts := n.live_add_dead
  have hlen := render.length_lt
  obtain ⟨hlive, hdead⟩ := n.counts_withDeleted on.items hdel
  obtain ⟨pre, hpre⟩ : ∃ pre, pre = .int n.live.length :: .int n.dead.length :: .int n.masterFields.length ::
      (n.masterFields.map lpEncode ++ entryMark [] :: done.flatMap (elements n.masterId)) := ⟨_, rfl⟩
  have hlp : lp.elements = pre ++ .int i.flags :: (i.behind n.masterId ++ todo.flatMap (elements n.masterId)) := by
    rw [show lp.elements = n.elements from render.elements, StreamNode.elements, StreamNode.master, markedTail, on.items,
      flatMap_append, flatMap_cons, elements_eq, hpre]
    simp
  have hflags : si.lpFlags = lp.ptr (.int i.flags :: (i.behind n.masterId ++
      todo.flatMap (elements n.masterId))) := by
    rw [on.lpFlags, markedTail, entryMark_snoc, ← cons_append, ← elements_eq, elements,
      append_assoc]
    rfl
  have hrange : -2 ^ 63 ≤ setDeleted i.flags ∧ setDeleted i.flags < 2 ^ 63 := by
    rw [setDeleted_flags]
    exact flags_range _
  rw [streamIteratorRemoveEntry, on.within.listpack]
  simp only
  rw [hflags, lpGetInteger_ptr ⟨pre, hlp.symm⟩, ok_bind]
  refine Sat.bind (lpReplaceInteger_spec hlp hrange.1 hrange.2) fun lp₁ h₁ => ?_
  have h₁' : lp₁.elements = .int n.live.length :: .int n.dead.length :: .int n.masterFields.length ::
      (n.withDeleted done i todo).master := by
    rw [h₁, hpre, StreamNode.master, markedTail, StreamNode.withDeleted]
    simp [elements_deleted]
  refine Sat.bind (streamCountDeleted_spec h₁' (by omega) (by omega)) fun r hr => ?_
  rcases hr with ⟨hone, rfl⟩ | ⟨hne, lp₂, rfl, h₂⟩
  · exact .node (length_eq_zero_iff.mp (by omega))
  refine .entry (render.withDeleted on.items ?_ ?_)
  · intro hnil
    rw [hnil, length_nil] at hlive
    omega
  · rw [h₂, StreamNode.elements, hdead, hlive]
    simp [StreamNode.withDeleted]

end JitRedis
