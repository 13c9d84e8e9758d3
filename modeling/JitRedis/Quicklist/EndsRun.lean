import JitRedis.Quicklist.Ends

/-!
# The end nodes of a quicklist stay uncompressed, over whole runs

Every operation of a monitored run keeps `Quicklist.Ends`; a monitored operation that is not stopped
does the same as the unmonitored one; so the invariant holds in every state of a run in which the
monitor has nothing to stop.
-/

namespace JitRedis

open Fallible Monitors

variable {lzf : Nat → Bool} {q : Quicklist} {i : Nat}

lemma readZl_spec (raw : q.RawAt i) :
    Sat EndsFault (fun zl => ∃ nd, q.nodes[i]? = some nd ∧ nd.zl = zl) (q.readZl i) := by
  rw [Quicklist.readZl]
  split
  · exact .inl (.inr rfl)
  · rename_i nd hnd
    rw [if_neg (by rw [raw nd hnd]; decide)]
    exact ⟨nd, hnd, rfl⟩

lemma overflow_endsFault {f : Fault} (h : f = .overflow) : EndsFault f := .inl (.inl h)

lemma gentle_setZl (zl : Ziplist) : Gentle (·.setZl zl) := gentle_of_eq (fun _ => rfl) fun _ => rfl

lemma gentle_addCount (k : Int) : Gentle (·.addCount k) := gentle_of_eq (fun _ => rfl) fun _ => rfl

lemma Quicklist.EndsRaw.rawAt_endNode (ends : q.EndsRaw) (head : Bool) : q.RawAt (q.endNode head) := by
  cases head with
  | true => exact ends.head
  | false => exact ends.tail

section

variable (ends : q.Ends)
include ends

lemma push_spec (value : Bytes) (head : Bool) :
    Sat EndsFault Quicklist.Ends (quicklistPush ⟨lzf, true⟩ q value head) := by
  refine Sat.bind (P := Quicklist.Ends) ?_ fun q' ends' => ?_
  · rw [quicklistPushNode]
    split
    · refine (readZl_spec (ends.rawAt_endNode head)).bind fun zl _ => ?_
      refine ((ziplistPush_spec zl _ head).weaken overflow_endsFault).bind fun zl' _ => ?_
      exact ends.modify (gentle_setZl zl')
    · refine ((ziplistPush_spec _ _ head).weaken overflow_endsFault).bind fun zl' _ => ?_
      exact insertNode_spec ends rfl rfl
  · exact (ends'.modify (gentle_addCount 1)).setCount _

lemma appendZiplist_spec (zl : Ziplist) :
    Sat EndsFault Quicklist.Ends (quicklistAppendZiplist ⟨lzf, true⟩ q zl) :=
  (insertNode_spec ends rfl rfl).bind fun _ ends' => ends'.setCount _

lemma delIndex_spec (raw : q.RawAt i) (p : Nat) :
    Sat EndsFault (fun r => r.1.Ends ∧ r.1.nodes.length + (if r.2 then 1 else 0) = q.nodes.length)
      (quicklistDelIndex ⟨lzf, true⟩ q i p) := by
  refine (readZl_spec raw).bind fun zl _ => ?_
  refine ((ziplistDelete_fault zl p 1).weaken overflow_endsFault).bind fun zl' _ => ?_
  extract_lets q'
  have ends' : q'.Ends := ends.modify (gentle_of_eq (fun _ => rfl) fun _ => rfl)
  have len : q'.nodes.length = q.nodes.length := length_modifyNode
  split
  · exact (delNode_spec ends').bind fun q'' h => ⟨h.1.setCount _, h.2.trans len⟩
  · exact ⟨(ends'.modify (gentle_setZl zl')).setCount _, length_modifyNode.trans len⟩

lemma popCustom_spec (head : Bool) :
    Sat EndsFault (fun r => r.1.Ends) (quicklistPopCustom ⟨lzf, true⟩ q head) := by
  rw [quicklistPopCustom]
  split
  · exact ends
  · refine (readZl_spec (ends.rawAt_endNode head)).bind fun zl _ => ?_
    split
    · exact ends
    · exact (delIndex_spec ends (ends.rawAt_endNode head) _).bind fun r h => h.1

lemma Quicklist.Ends.decompressForUse : (quicklistDecompressNodeForUse q i).Ends :=
  ends.modify gentle_decompressForUse

lemma index_spec (idx : Int) :
    Sat EndsFault (fun r => r.1.Ends ∧ ∀ e, r.2 = some e → r.1.RawAt e.node) (quicklistIndex q idx) := by
  rw [quicklistIndex]
  split
  · exact ⟨ends, fun e h => by cases h⟩
  · refine (readZl_spec rawAt_decompressForUse).bind fun zl _ => ?_
    refine ⟨ends.decompressForUse, ?_⟩
    rintro e ⟨⟩
    exact rawAt_decompressForUse

lemma replaceAtIndex_spec (idx : Int) (data : Bytes) :
    Sat EndsFault (fun r => r.1.Ends) (quicklistReplaceAtIndex ⟨lzf, true⟩ q idx data) := by
  refine (index_spec ends idx).bind ?_
  rintro ⟨q', _ | ⟨node, _ | p, offset⟩⟩ ⟨ends', raw⟩
  · exact ends'
  · exact .inl (.inr rfl)
  · refine (readZl_spec (raw _ rfl)).bind fun zl _ => ?_
    refine ((ziplistDelete_fault zl p 1).weaken overflow_endsFault).bind fun zl' _ => ?_
    refine ((ziplistInsert_spec zl' p _).weaken overflow_endsFault).bind fun zl'' _ => ?_
    exact (ends'.modify (gentle_setZl zl'')).compress_any.bind fun _ h => h.1

lemma ziplistMerge_spec (a : Nat) :
    Sat EndsFault Quicklist.Ends (quicklistZiplistMerge ⟨lzf, true⟩ q a) := by
  set q' := quicklistDecompressNode (quicklistDecompressNode q (some a)) (some (a + 1)) with hq'
  have ends' : q'.Ends := (ends.modify gentle_decompress).modify gentle_decompress
  refine (readZl_spec (q := q') rawAt_decompress.decompress).bind fun first _ => ?_
  refine (readZl_spec (q := q') rawAt_decompress).bind fun second _ => ?_
  refine ((ziplistMerge_fault first second).weaken .inl).bind ?_
  rintro ⟨zl, keepFirst⟩ -
  refine Sat.bind (delNode_spec (Quicklist.Ends.modify ?_ (Quicklist.Ends.modify ?_ ends'))) ?_
  · exact gentle_of_eq (fun _ => rfl) fun _ => rfl
  · exact gentle_of_eq (fun _ => rfl) fun _ => rfl
  · exact fun q'' h => h.1.compress_any.mono fun _ h => h.1

lemma tryMerge_spec (a : Option Nat) :
    Sat EndsFault (fun r => r.1.Ends) (quicklistTryMerge ⟨lzf, true⟩ q a) := by
  cases a with
  | none => exact ends
  | some a =>
    rw [quicklistTryMerge]
    split
    · exact (ziplistMerge_spec ends a).bind fun _ h => h
    · exact ends

lemma mergeNodes_spec (center : Nat) :
    Sat EndsFault Quicklist.Ends (quicklistMergeNodes ⟨lzf, true⟩ q center) := by
  refine (tryMerge_spec ends _).bind fun r₁ ends₁ => ?_
  refine (tryMerge_spec ends₁ _).bind fun r₂ ends₂ => ?_
  refine (tryMerge_spec ends₂ _).bind fun r₃ ends₃ => ?_
  exact (tryMerge_spec ends₃ _).bind fun r₄ ends₄ => ends₄

lemma editNode_spec {edit}
    (he : ∀ zl, Sat (· = .overflow) (fun _ => True) (edit zl)) :
    Sat EndsFault Quicklist.Ends (quicklistEditNode ⟨lzf, true⟩ q i edit) := by
  refine (readZl_spec rawAt_decompressForUse).bind fun zl _ => ?_
  refine ((he zl).weaken overflow_endsFault).bind fun zl' _ => ?_
  refine (recompressOnly_spec ?_).mono fun _ h => h.1
  exact ends.decompressForUse.modify (gentle_of_eq (fun _ => rfl) fun _ => rfl)

lemma splitInsert_spec (offset : Int) (value : Bytes) (after : Bool) :
    Sat EndsFault Quicklist.Ends (quicklistSplitInsert ⟨lzf, true⟩ q i offset value after) := by
  refine (readZl_spec rawAt_decompressForUse).bind fun zl _ => ?_
  refine Sat.bind (P := fun _ => True) ?_ fun r _ => ?_
  · refine ((ziplistDeleteRange_fault zl _ _).weaken overflow_endsFault).bind fun kept _ => ?_
    exact ((ziplistDeleteRange_fault zl _ _).weaken overflow_endsFault).bind fun taken _ => trivial
  · refine ((ziplistPush_spec _ _ after).weaken overflow_endsFault).bind fun zl' _ => ?_
    refine Sat.bind (insertNode_spec ?_ rfl rfl) fun q' ends' => mergeNodes_spec ends' _
    exact ends.decompressForUse.modify (gentle_of_eq (fun _ => rfl) fun _ => rfl)

lemma insert_spec (entry : QuicklistEntry) (value : Bytes) (after : Bool) :
    Sat EndsFault Quicklist.Ends (quicklistInsert ⟨lzf, true⟩ q entry value after) := by
  have ins : ∀ p zl, Sat (· = .overflow) (fun _ => True) (ziplistInsert zl p (clip value)) :=
    fun p zl => (ziplistInsert_spec zl p _).mono fun _ _ => trivial
  have psh : ∀ head zl, Sat (· = .overflow) (fun _ => True) (ziplistPush zl (clip value) head) :=
    fun head zl => (ziplistPush_spec zl _ head).mono fun _ _ => trivial
  rw [quicklistInsert]
  split
  · rename_i nd zi _ _
    refine Sat.bind (P := Quicklist.Ends) ?_ fun q' ends' => ends'.setCount _
    unfold quicklistPlace
    extract_lets node allows full next prev atTail fullNext atHead fullPrev
    split
    · refine editNode_spec ends fun zl => ?_
      split
      · exact psh false zl
      · exact ins _ zl
    split
    · exact editNode_spec ends (ins zi)
    split
    · exact editNode_spec ends (psh true)
    split
    · exact editNode_spec ends (psh false)
    split
    · refine ((psh true _).weaken overflow_endsFault).bind fun zl _ => ?_
      exact insertNode_spec ends rfl rfl
    · exact splitInsert_spec ends _ value after
  · exact .inl (.inr rfl)

lemma delRangeLoop_spec {fuel extent : Nat} {offset : Int}
    (hf : q.nodes.length - i < fuel) :
    Sat EndsFault Quicklist.Ends (delRangeLoop ⟨lzf, true⟩ fuel q extent i offset) := by
  induction fuel generalizing q extent i offset with
  | zero => omega
  | succ fuel ih =>
    rw [delRangeLoop]
    split
    · exact ends
    split
    · exact .inl (.inr rfl)
    rename_i nd hnd
    have hi := (List.getElem?_eq_some_iff.mp hnd).1
    extract_lets extents del
    split
    · exact (delNode_spec ends).bind fun q' h => ih h.1 (by omega)
    refine (readZl_spec rawAt_decompressForUse).bind fun zl _ => ?_
    refine ((ziplistDeleteRange_fault zl _ _).weaken overflow_endsFault).bind fun zl' _ => ?_
    extract_lets q₁ q₂
    have ends₁ : q₁.Ends :=
      ends.decompressForUse.modify (gentle_of_eq (fun _ => rfl) fun _ => rfl)
    have ends₂ : q₂.Ends := ends₁.setCount _
    have len : q₂.nodes.length = q.nodes.length := length_modifyNode.trans length_modifyNode
    split
    · exact (delNode_spec ends₂).bind fun q' h => ih h.1 (by omega)
    · refine (recompressOnly_spec ends₂).bind fun q' h => ih h.1 ?_
      rw [h.2.length]
      omega

lemma delRange_spec (start count : Int) :
    Sat EndsFault (fun r => r.1.Ends) (quicklistDelRange ⟨lzf, true⟩ q start count) := by
  rw [quicklistDelRange]
  split
  · exact ends
  · refine (index_spec ends start).bind ?_
    rintro ⟨q', _ | e⟩ ⟨ends', -⟩
    · exact ends'
    · exact (delRangeLoop_spec ends' (Nat.lt_succ_of_le (Nat.sub_le ..))).bind fun _ h => h

end

def QuicklistIter.Reads (it : QuicklistIter) (q : Quicklist) : Prop :=
  ∀ i, it.current = some i → it.zi ≠ none → q.RawAt i

/-- How many nodes an iterator over `n` nodes may still visit. -/
def QuicklistIter.reach (it : QuicklistIter) (n : Nat) : Nat :=
  match it.current with
  | none => 0
  | some i => if it.forward then n - i else min (i + 1) n

lemma QuicklistIter.reach_le (it : QuicklistIter) (n : Nat) : it.reach n ≤ n := by
  rw [reach]
  split
  · omega
  · split <;> omega

variable {it : QuicklistIter}

section

variable (ends : q.Ends)
include ends

lemma iterZi_spec (reads : it.Reads q) (cur : it.current = some i) :
    Sat EndsFault (fun r => r.1.Ends ∧ r.1.RawAt i ∧ r.1.nodes.length = q.nodes.length ∧
      i < q.nodes.length) (quicklistIterZi q it i) := by
  rw [quicklistIterZi]
  split
  · refine (readZl_spec rawAt_decompressForUse).bind ?_
    rintro zl ⟨nd, hnd, -⟩
    have hi := (List.getElem?_eq_some_iff.mp hnd).1
    have len : (quicklistDecompressNodeForUse q i).nodes.length = q.nodes.length := length_modifyNode
    exact ⟨ends.decompressForUse, rawAt_decompressForUse, len, len ▸ hi⟩
  rename_i p hp
  have raw : q.RawAt i := reads i cur (by simp [hp])
  refine (readZl_spec raw).bind ?_
  rintro zl ⟨nd, hnd, -⟩
  exact ⟨ends, raw, rfl, (List.getElem?_eq_some_iff.mp hnd).1⟩

lemma next_spec {fuel : Nat} (reads : it.Reads q)
    (hf : it.reach q.nodes.length < fuel) :
    Sat EndsFault (fun r => r.1.Ends ∧ ∀ e, r.2.2 = some e → r.1.RawAt e.node ∧ r.2.1.Reads r.1)
      (quicklistNext ⟨lzf, true⟩ fuel q it) := by
  induction fuel generalizing q it with
  | zero => omega
  | succ fuel ih =>
    rw [quicklistNext]
    cases cur : it.current with
    | none => exact ⟨ends, fun e h => by cases h⟩
    | some i =>
      refine (iterZi_spec ends reads cur).bind ?_
      rintro ⟨q', _ | p, offset⟩ ⟨ends', raw, len, hi⟩
      · refine ends'.compress_any.bind fun q'' h => ih h.1 (fun _ _ hz => absurd rfl hz) ?_
        -- The neighbour in the direction of the iterator is a step nearer to the end.
        have len'' : q''.nodes.length = q.nodes.length := h.2.length.trans len
        rw [QuicklistIter.reach, cur] at hf
        rw [QuicklistIter.reach, len'']
        cases hfw : it.forward <;> simp only [hfw, Quicklist.next, Quicklist.prev, len''] at hf ⊢ <;>
          split <;> simp_all <;> omega
      refine ⟨ends', ?_⟩
      rintro e ⟨⟩
      refine ⟨raw, fun j hj _ => ?_⟩
      obtain rfl : i = j := by simpa [cur] using hj
      exact raw

lemma delEntry_spec {e} (raw : q.RawAt e.node) :
    Sat EndsFault (fun r => r.1.Ends ∧ r.2.Reads r.1) (quicklistDelEntry ⟨lzf, true⟩ q it e) := by
  rw [quicklistDelEntry]
  split
  · exact .inl (.inr rfl)
  · refine (delIndex_spec ends raw _).bind ?_
    rintro ⟨q', _ | _⟩ ⟨ends', -⟩
    · exact ⟨ends', fun _ _ hz => absurd rfl hz⟩
    · exact ⟨ends', fun _ _ hz => absurd rfl hz⟩

lemma iterate_spec {deletes} (reads : it.Reads q) :
    Sat EndsFault Quicklist.Ends (quicklistIterate ⟨lzf, true⟩ deletes q it) := by
  induction deletes generalizing q it with
  | nil => exact ends
  | cons delete rest ih =>
    refine (next_spec ends reads (Nat.lt_succ_of_le (it.reach_le _))).bind ?_
    rintro ⟨q', it', _ | e⟩ ⟨ends', h⟩
    · exact ends'
    · obtain ⟨raw, reads'⟩ := h e rfl
      cases delete with
      | true => exact (delEntry_spec ends' raw).bind fun r hr => ih hr.1 hr.2
      | false => exact ih ends' reads'

lemma seek_spec {skip : Nat} (reads : it.Reads q) :
    Sat EndsFault (fun r => r.1.Ends) (quicklistSeek ⟨lzf, true⟩ skip q it) := by
  induction skip generalizing q it with
  | zero =>
    exact (next_spec ends reads (Nat.lt_succ_of_le (it.reach_le _))).bind fun r h => h.1
  | succ skip ih =>
    refine (next_spec ends reads (Nat.lt_succ_of_le (it.reach_le _))).bind ?_
    rintro ⟨q', it', _ | e⟩ ⟨ends', h⟩
    · exact ends'
    · exact ih ends' (h e rfl).2

lemma getIteratorAtIdx_spec (forward : Bool) (idx : Int) :
    Sat EndsFault (fun r => r.1.Ends ∧ ∀ it, r.2 = some it → it.Reads r.1)
      (quicklistGetIteratorAtIdx q forward idx) := by
  refine (index_spec ends idx).bind ?_
  rintro ⟨q', _ | e⟩ ⟨ends', -⟩
  · exact ⟨ends', fun it h => by cases h⟩
  · refine ⟨ends', ?_⟩
    rintro it ⟨⟩
    exact fun _ _ hz => absurd rfl hz

lemma quicklistStep_ends (op : QuicklistOp) :
    Sat EndsFault (fun r => r.1.Ends) (quicklistStep ⟨lzf, true⟩ q op) := by
  cases op with
  | push value head => exact (push_spec ends value head).bind fun _ h => h
  | pop head => exact (popCustom_spec ends head).bind fun _ h => h
  | index idx =>
    refine (index_spec ends idx).bind ?_
    rintro ⟨q', _ | e⟩ ⟨ends', raw⟩
    · exact ends'
    · refine Sat.bind (P := fun _ => True) ?_ fun _ _ => ends'
      exact (readZl_spec (raw e rfl)).bind fun _ _ => trivial
  | replace idx data => exact (replaceAtIndex_spec ends idx data).bind fun _ h => h
  | iterate forward idx deletes =>
    refine (getIteratorAtIdx_spec ends forward idx).bind ?_
    rintro ⟨q', _ | it⟩ ⟨ends', reads⟩
    · exact ends'
    · exact (iterate_spec ends' (reads it rfl)).bind fun _ h => h
  | insert skip after value =>
    refine (getIteratorAtIdx_spec ends true 0).bind ?_
    rintro ⟨q', _ | it⟩ ⟨ends', reads⟩
    · exact ends'
    · refine (seek_spec ends' (reads it rfl)).bind ?_
      rintro ⟨q'', _ | e⟩ ends''
      · exact ends''
      · exact (insert_spec ends'' e value after).bind fun _ h => h
  | delRange start count => exact (delRange_spec ends start count).bind fun _ h => h
  | appendZiplist zl => exact (appendZiplist_spec ends zl).bind fun _ h => h

end

section Monitor

-- Only the branch that recompresses a node looks at the monitor; everything else is the same code.

lemma monitors_recompress :
    Monitors .monitor (quicklistRecompress ⟨lzf, true⟩ q i) (quicklistRecompress ⟨lzf, false⟩ q i) := by
  by_cases h : q.Stray ⟨lzf, true⟩ i
  · left
    rw [quicklistRecompress, if_pos ⟨rfl, h⟩]
  · right
    rw [quicklistRecompress, quicklistRecompress, if_neg fun h' => h h'.2]
    rfl

lemma monitors_recompressOnly : Monitors .monitor (quicklistRecompressOnly ⟨lzf, true⟩ q i)
    (quicklistRecompressOnly ⟨lzf, false⟩ q i) := by
  rw [quicklistRecompressOnly, quicklistRecompressOnly]
  split
  · exact .refl _
  · split
    · exact monitors_recompress
    · exact .refl _

lemma monitors_compress :
    Monitors .monitor (quicklistCompress ⟨lzf, true⟩ q i) (quicklistCompress ⟨lzf, false⟩ q i) := by
  rw [quicklistCompress, quicklistCompress]
  split
  · exact .refl _
  · split
    · exact monitors_recompress
    · exact .refl _

lemma monitors_insertNode {old new} {after : Bool} :
    Monitors .monitor (quicklistInsertNode ⟨lzf, true⟩ q old new after)
      (quicklistInsertNode ⟨lzf, false⟩ q old new after) := by
  cases old with
  | none => exact .refl _
  | some i => exact monitors_compress.bind fun _ => .refl _

lemma monitors_push {value : Bytes} {head : Bool} :
    Monitors .monitor (quicklistPush ⟨lzf, true⟩ q value head)
      (quicklistPush ⟨lzf, false⟩ q value head) := by
  refine bind ?_ fun _ => .refl _
  rw [quicklistPushNode, quicklistPushNode]
  split
  · exact .refl _
  · exact (refl _).bind fun _ => monitors_insertNode

lemma monitors_replaceAtIndex {idx : Int} {data : Bytes} :
    Monitors .monitor (quicklistReplaceAtIndex ⟨lzf, true⟩ q idx data)
      (quicklistReplaceAtIndex ⟨lzf, false⟩ q idx data) := by
  refine (refl _).bind ?_
  rintro ⟨q', _ | ⟨node, _ | p, offset⟩⟩
  · exact .refl _
  · exact .refl _
  · refine (refl _).bind fun zl => (refl _).bind fun zl' => ?_
    exact (refl _).bind fun zl'' => monitors_compress.bind fun _ => .refl _

lemma monitors_tryMerge {a} : Monitors .monitor (quicklistTryMerge ⟨lzf, true⟩ q a)
    (quicklistTryMerge ⟨lzf, false⟩ q a) := by
  cases a with
  | none => exact .refl _
  | some a =>
    rw [quicklistTryMerge, quicklistTryMerge]
    split
    · refine bind ?_ fun _ => .refl _
      refine (refl _).bind fun first => (refl _).bind fun second => ?_
      exact (refl _).bind fun r => (refl _).bind fun q' => monitors_compress
    · exact .refl _

lemma monitors_mergeNodes {center : Nat} : Monitors .monitor (quicklistMergeNodes ⟨lzf, true⟩ q center)
    (quicklistMergeNodes ⟨lzf, false⟩ q center) :=
  monitors_tryMerge.bind fun _ => monitors_tryMerge.bind fun _ => monitors_tryMerge.bind fun _ =>
    monitors_tryMerge.bind fun _ => .refl _

lemma monitors_editNode {edit} :
    Monitors .monitor (quicklistEditNode ⟨lzf, true⟩ q i edit)
      (quicklistEditNode ⟨lzf, false⟩ q i edit) :=
  (refl _).bind fun _ => (refl _).bind fun _ => monitors_recompressOnly

lemma monitors_insert {entry} {value : Bytes} {after : Bool} :
    Monitors .monitor (quicklistInsert ⟨lzf, true⟩ q entry value after)
      (quicklistInsert ⟨lzf, false⟩ q entry value after) := by
  rw [quicklistInsert, quicklistInsert]
  split
  · refine bind ?_ fun _ => .refl _
    unfold quicklistPlace
    extract_lets node allows full next prev atTail fullNext atHead fullPrev
    split
    · exact monitors_editNode
    split
    · exact monitors_editNode
    split
    · exact monitors_editNode
    split
    · exact monitors_editNode
    split
    · exact (refl _).bind fun _ => monitors_insertNode
    · refine (refl _).bind fun zl => (refl _).bind fun r => ?_
      exact (refl _).bind fun zl' => monitors_insertNode.bind fun _ => monitors_mergeNodes
  · exact .refl _

lemma monitors_delRangeLoop {fuel extent : Nat} {offset : Int} :
    Monitors .monitor (delRangeLoop ⟨lzf, true⟩ fuel q extent i offset)
      (delRangeLoop ⟨lzf, false⟩ fuel q extent i offset) := by
  induction fuel generalizing q extent i offset with
  | zero => exact .refl _
  | succ fuel ih =>
    rw [delRangeLoop, delRangeLoop]
    split
    · exact .refl _
    split
    · exact .refl _
    extract_lets extents del
    split
    · exact (refl _).bind fun _ => ih
    refine (refl _).bind fun zl => (refl _).bind fun zl' => ?_
    extract_lets q₁ q₂
    split
    · exact (refl _).bind fun _ => ih
    · exact monitors_recompressOnly.bind fun _ => ih

lemma monitors_next {fuel : Nat} :
    Monitors .monitor (quicklistNext ⟨lzf, true⟩ fuel q it) (quicklistNext ⟨lzf, false⟩ fuel q it) := by
  induction fuel generalizing q it with
  | zero => exact .refl _
  | succ fuel ih =>
    rw [quicklistNext, quicklistNext]
    split
    · exact .refl _
    · refine (refl _).bind ?_
      rintro ⟨q', _ | p, offset⟩
      · exact monitors_compress.bind fun _ => ih
      · exact .refl _

lemma monitors_iterate {deletes} :
    Monitors .monitor (quicklistIterate ⟨lzf, true⟩ deletes q it)
      (quicklistIterate ⟨lzf, false⟩ deletes q it) := by
  induction deletes generalizing q it with
  | nil => exact .refl _
  | cons delete rest ih =>
    refine monitors_next.bind ?_
    rintro ⟨q', it', _ | e⟩
    · exact .refl _
    · cases delete with
      | true => exact (refl _).bind fun _ => ih
      | false => exact ih

lemma monitors_seek {skip : Nat} :
    Monitors .monitor (quicklistSeek ⟨lzf, true⟩ skip q it)
      (quicklistSeek ⟨lzf, false⟩ skip q it) := by
  induction skip generalizing q it with
  | zero => exact monitors_next.bind fun _ => .refl _
  | succ skip ih =>
    refine monitors_next.bind ?_
    rintro ⟨q', it', _ | e⟩
    · exact .refl _
    · exact ih

lemma monitors_quicklistStep {op} :
    Monitors .monitor (quicklistStep ⟨lzf, true⟩ q op) (quicklistStep ⟨lzf, false⟩ q op) := by
  cases op with
  | push value head => exact monitors_push.bind fun _ => .refl _
  | pop head => exact .refl _
  | index idx => exact .refl _
  | replace idx data => exact monitors_replaceAtIndex.bind fun _ => .refl _
  | iterate forward idx deletes =>
    refine (refl _).bind ?_
    rintro ⟨q', _ | it⟩
    · exact .refl _
    · exact monitors_iterate.bind fun _ => .refl _
  | insert skip after value =>
    refine (refl _).bind ?_
    rintro ⟨q', _ | it⟩
    · exact .refl _
    · refine monitors_seek.bind ?_
      rintro ⟨q'', _ | e⟩
      · exact .refl _
      · exact monitors_insert.bind fun _ => .refl _
  | delRange start count =>
    refine bind ?_ fun _ => .refl _
    rw [quicklistDelRange, quicklistDelRange]
    split
    · exact .refl _
    · refine (refl _).bind ?_
      rintro ⟨q', _ | e⟩
      · exact .refl _
      · exact monitors_delRangeLoop.bind fun _ => .refl _
  | appendZiplist zl =>
    refine bind ?_ fun _ => .refl _
    exact monitors_insertNode.bind fun _ => .refl _

end Monitor

lemma ends_quicklistNew (fill depth : Int) : (quicklistNew fill depth).Ends := by
  have none : ∀ (j : Nat) nd, (quicklistNew fill depth).nodes[j]? = some nd → False :=
    fun j nd h => by cases h
  exact ⟨⟨fun nd h => (none _ nd h).elim, fun nd h => (none _ nd h).elim,
    fun _ j nd h => (none j nd h).elim, fun _ j nd h => (none j nd h).elim⟩, rfl⟩

/-- No node is compressed through its `recompress` bit that is an end of the list, or in too short a list. -/
def QuicklistOp.Calm (lzf : Nat → Bool) (q : Quicklist) (op : QuicklistOp) : Prop :=
  quicklistStep ⟨lzf, true⟩ q op ≠ .error .monitor

instance (lzf : Nat → Bool) (q : Quicklist) (op : QuicklistOp) : Decidable (op.Calm lzf q) :=
  inferInstanceAs (Decidable (_ ≠ _))

/-- In every run of calm operations from an empty list, head and tail are uncompressed after every
operation, and no operation reads a compressed ziplist. -/
theorem quicklist_ends_raw (lzf : Nat → Bool) (fill depth : Int) (ops : List QuicklistOp)
    (calm : Guarded (quicklistStep ⟨lzf, false⟩) (fun q op => op.Calm lzf q)
      (quicklistNew fill depth) ops) :
    Sat (fun f => f = .overflow ∨ f = .badAccess)
      (fun r => (∀ nd, r.1.nodes.head? = some nd → nd.encoding = .raw) ∧
        ∀ nd, r.1.nodes.getLast? = some nd → nd.encoding = .raw)
      (exec (quicklistStep ⟨lzf, false⟩) (quicklistNew fill depth) ops) := by
  have pres : ∀ q op, q.Ends → op.Calm lzf q →
      Sat (fun f => f = .overflow ∨ f = .badAccess) (fun r => r.1.Ends)
        (quicklistStep ⟨lzf, false⟩ q op) :=
    fun q op ends c => monitors_quicklistStep.sat c (quicklistStep_ends ends op)
  refine (exec_invariant pres (ends_quicklistNew fill depth) calm).mono ?_
  rintro ⟨q, replies⟩ ends
  refine ⟨fun nd h => ends.head nd ?_, fun nd h => ends.tail nd ?_⟩
  · rwa [← List.head?_eq_getElem?]
  · rwa [← List.getLast?_eq_getElem?]

/-- A text whose ziplist is large enough to be compressed. -/
def bulky (c : UInt8) : Bytes := List.replicate 50 c

def threeNodes : List QuicklistOp :=
  [.push (bulky 97) false, .push (bulky 98) false, .push (bulky 99) false]

theorem quicklist_ends_raw_run :
    Guarded (quicklistStep ⟨fun _ => true, false⟩) (fun q op => op.Calm (fun _ => true) q)
        (quicklistNew 1 1) (threeNodes ++ [.index 1, .pop true]) ∧
      Sat (fun f => f = .overflow ∨ f = .badAccess)
        (fun r => (∀ nd, r.1.nodes.head? = some nd → nd.encoding = .raw) ∧
          ∀ nd, r.1.nodes.getLast? = some nd → nd.encoding = .raw)
        (exec (quicklistStep ⟨fun _ => true, false⟩) (quicklistNew 1 1)
          (threeNodes ++ [.index 1, .pop true])) := by
  have calm : Guarded (quicklistStep ⟨fun _ => true, false⟩) (fun q op => op.Calm (fun _ => true) q)
      (quicklistNew 1 1) (threeNodes ++ [.index 1, .pop true]) :=
    guarded_of_check (by decide +kernel)
  exact ⟨calm, quicklist_ends_raw (fun _ => true) 1 1 _ calm⟩

/-- The second node is decompressed for a read, becomes the head by a pop, and is compressed again by
the write that follows: the head is compressed, and the next pop reads its compressed ziplist. -/
theorem quicklist_head_recompressed :
    (exec (quicklistStep ⟨fun _ => true, false⟩) (quicklistNew 1 1)
        (threeNodes ++ [.index 1, .pop true, .replace 0 (bulky 100)])).map
          (fun r => r.1.nodes.head?.map (·.encoding)) = .ok (some .lzf) ∧
      exec (quicklistStep ⟨fun _ => true, false⟩) (quicklistNew 1 1)
        (threeNodes ++ [.index 1, .pop true, .replace 0 (bulky 100), .pop true]) =
          .error .lzfAccess := by
  decide +kernel

end JitRedis
