import JitRedis.Quicklist.Sequence

/-!
# Deleting a range of a quicklist

`quicklistDelRange` takes from each node what it means to delete there, and counts that as deleted. Where the range
starts inside a node and ends behind it although it is shorter than the node, more is counted than the node has left.
-/

namespace JitRedis

open Fallible Chunks List QuicklistNode

variable {lzf : Nat → Bool} {q q' : Quicklist} {i p extent : Nat} {offset : Int} {l : List Bytes} {nd : QuicklistNode}

/-- Nothing is deleted where the range is empty or starts outside of the list, and otherwise exactly the range. -/
def Quicklist.DeletesRange (q : Quicklist) (l : List Bytes) (start count : Int) (r : Quicklist × Bool) : Prop :=
  match listIndex l.length start with
  | some s => if 0 < count then r.1.Stores (l.take s ++ l.drop (s + count.toNat)) ∧ r.2 = true else r = (q, false)
  | none => r = (q, false)

/-- The range starts inside a node, is shorter than the node, and yet goes on behind it. -/
def Quicklist.Overruns (q : Quicklist) (start count : Int) : Prop :=
  0 ≤ start ∧ ∃ (i offset : Nat) (nd : QuicklistNode), q.locate start = some (i, (offset : Int)) ∧
    q.nodes[i]? = some nd ∧ 0 < offset ∧ min count.toNat (q.count - start.toNat) < nd.count ∧
    nd.count < offset + min count.toNat (q.count - start.toNat)

section Ziplists

/-- The bytes of an entry with the long form of `prevlen`. -/
def ZlEntry.longLen (e : ZlEntry) : Nat := 5 + e.value.lensize + e.value.len

/-- The bytes of a ziplist all of whose entries have the long form of `prevlen`. -/
def longBlobLen (zl : Ziplist) : Nat := 11 + (zl.map ZlEntry.longLen).sum

lemma take_append_drop_sublist (zl : Ziplist) (p num : Nat) : (zl.take p ++ zl.drop (p + num)).Sublist zl := by
  have hdrop : (zl.drop (p + num)).Sublist (zl.drop p) := by
    rw [← drop_drop]
    exact drop_sublist num _
  calc (zl.take p ++ zl.drop (p + num)).Sublist (zl.take p ++ zl.drop p) := hdrop.append_left _
    _ = zl := take_append_drop p zl

lemma blobLen_le_longBlobLen (zl : Ziplist) : ziplistBlobLen zl ≤ longBlobLen zl := by
  have hlen : ∀ e ∈ zl, e.rawlen ≤ e.longLen := by
    intro e _
    rw [ZlEntry.rawlen, ZlEntry.longLen]
    split <;> omega
  exact Nat.add_le_add_left (sum_le_sum hlen) 11

/-- No ziplist passes `2 ^ 32` bytes while entries are deleted: those left may come to need the long `prevlen`. -/
def Quicklist.Roomy (q : Quicklist) : Prop := ∀ nd ∈ q.bare, longBlobLen nd.zl < 2 ^ 32

/-- What a deletion may fail with: the overflow of a ziplist, in a list without room. -/
def NoRoom (R : Prop) (f : Fault) : Prop := f = .overflow ∧ ¬ R

lemma longLen_cascadeUpdate (rawlen : Nat) (zl : Ziplist) :
    (cascadeUpdate rawlen zl).map ZlEntry.longLen = zl.map ZlEntry.longLen := by
  induction zl generalizing rawlen with
  | nil => rfl
  | cons next rest ih =>
    rw [cascadeUpdate]
    split
    · rw [map_cons, ih]
      rfl
    · rfl

lemma longLen_storePrevlen (big : Bool) (zl : Ziplist) :
    (storePrevlen big zl).map ZlEntry.longLen = zl.map ZlEntry.longLen := by
  cases zl with
  | nil => rfl
  | cons next rest =>
    rw [storePrevlen]
    split
    · rfl
    · rw [map_cons, longLen_cascadeUpdate]
      rfl

lemma ziplistDelete_room {R : Prop} {zl num} (small : ziplistBlobLen zl < 2 ^ 32)
    (room : R → longBlobLen zl < 2 ^ 32) :
    Sat (NoRoom R) (fun zl' => zl'.texts = zl.texts.take p ++ zl.texts.drop (p + num) ∧ ziplistBlobLen zl' < 2 ^ 32 ∧
      longBlobLen zl' ≤ longBlobLen zl) (ziplistDelete zl p num) := by
  have hspec := ziplistDelete_spec zl p num small
  by_cases none : num = 0 ∨ zl.length ≤ p
  · rw [ziplistDelete, if_pos none] at hspec ⊢
    exact ⟨hspec.1, hspec.2, le_rfl⟩
  rw [ziplistDelete, if_neg none] at hspec ⊢
  set zl' := zl.take p ++ storePrevlen (bigPrevlen (prevlenAt zl p)) (zl.drop (p + num)) with hzl'
  have hlong : longBlobLen zl' ≤ longBlobLen zl := by
    have hsub : (zl'.map ZlEntry.longLen).Sublist (zl.map ZlEntry.longLen) := by
      rw [hzl', map_append, longLen_storePrevlen, ← map_append]
      exact (take_append_drop_sublist zl p num).map _
    exact Nat.add_le_add_left (hsub.sum_le_sum fun _ _ => Nat.zero_le _) 11
  by_cases hbig : 2 ^ 32 ≤ ziplistBlobLen zl'
  · have hle := blobLen_le_longBlobLen zl'
    rw [ziplistResize, if_pos hbig]
    exact ⟨rfl, fun r => absurd (room r) (by omega)⟩
  · rw [ziplistResize, if_neg hbig] at hspec ⊢
    exact ⟨hspec.1, hspec.2, hlong⟩

end Ziplists

section Nodes

lemma recompressOnly_shape (hi : i < q.nodes.length) :
    Sat NoFault (fun q' => q.SameShape q') (quicklistRecompressOnly ⟨lzf, false⟩ q i) := by
  rw [quicklistRecompressOnly, getElem?_eq_getElem hi]
  dsimp only
  split
  · exact sameShape_compressNode
  · exact .refl q

end Nodes

section Turn

lemma Quicklist.Roomy.shrink (h : q.Roomy) (hnd : q.bare[i]? = some nd) {zl}
    (hlong : longBlobLen zl ≤ longBlobLen nd.zl) {k}
    (bare : q'.bare = q.bare.modify i fun nd => (nd.setZl zl).addCount k) : q'.Roomy := by
  intro nd' h'
  rcases mem_modify_cases hnd (bare ▸ h') with rfl | old
  · exact lt_of_le_of_lt hlong (h nd (mem_of_getElem? hnd))
  · exact h nd' old

/-- The list after a turn has deleted inside a node and counted `del` strings as deleted. -/
def Quicklist.cut (q : Quicklist) (i : Nat) (zl : Ziplist) (del : Nat) : Quicklist :=
  let q := quicklistDecompressNodeForUse q i
  { q.modifyNode i fun nd => (nd.setZl zl).addCount (-del) with count := ulongSub q.count del }

lemma bare_cut {zl del} :
    (q.cut i zl del).bare = q.bare.modify i fun nd => (nd.setZl zl).addCount (-del) := by
  have shape : q.SameShape (quicklistDecompressNodeForUse q i) := sameShape_decompressForUse
  rw [← shape.bare]
  exact bare_modifyNode fun _ => rfl

lemma count_cut {zl del} : (q.cut i zl del).count = ulongSub q.count del := by
  have shape : q.SameShape (quicklistDecompressNodeForUse q i) := sameShape_decompressForUse
  rw [Quicklist.cut, shape.count]

lemma length_cut {zl del} : (q.cut i zl del).nodes.length = q.nodes.length := by
  rw [← length_bare, bare_cut, length_modify, length_bare]

lemma len_cut {zl del} : (q.cut i zl del).len = q.len := by
  have shape : q.SameShape (quicklistDecompressNodeForUse q i) := sameShape_decompressForUse
  exact shape.len

lemma bare_cut_node (hnd : q.bare[i]? = some nd) (zl : Ziplist) (del : Nat) :
    (q.cut i zl del).bare[i]? = some ((nd.setZl zl).addCount (-del)) := by
  rw [bare_cut, getElem?_modify_eq, hnd]
  rfl

lemma delRangeLoop_inside (hnd : q.bare[i]? = some nd) (hindex : ziplistIndex nd.zl offset = some p) {del}
    (hextent : delRangeExtent nd.count offset extent = (del, false)) (pos : 0 < extent) {fuel} :
    delRangeLoop ⟨lzf, false⟩ (fuel + 1) q extent i offset = ziplistDelete nd.zl p del >>= fun zl =>
      if ((nd.count + -(del : Int)) % 2 ^ 16).toNat = 0 then
        quicklistDelNode ⟨lzf, false⟩ (q.cut i zl del) i >>= fun q =>
          delRangeLoop ⟨lzf, false⟩ fuel q (extent - del) i 0
      else
        quicklistRecompressOnly ⟨lzf, false⟩ (q.cut i zl del) i >>= fun q =>
          delRangeLoop ⟨lzf, false⟩ fuel q (extent - del) (i + 1) 0 := by
  have shape : q.SameShape (quicklistDecompressNodeForUse q i) := sameShape_decompressForUse
  obtain ⟨nd₀, hnd₀, hbare⟩ := exists_node hnd
  have hcount₀ : nd₀.count = nd.count := by rw [← hbare]; rfl
  rw [delRangeLoop, if_neg (Nat.ne_of_gt pos), hnd₀]
  dsimp only
  rw [hcount₀, hextent, if_neg Bool.false_ne_true, readZl_eq rawAt_decompressForUse (shape.bare ▸ hnd)]
  show (ziplistDeleteRange nd.zl offset del >>= _) = _
  rw [ziplistDeleteRange, hindex]
  refine congrArg _ (funext fun zl => ?_)
  obtain ⟨nd₁, hnd₁, hbare₁⟩ := exists_node (bare_cut_node hnd zl del)
  have hcount₁ : nd₁.count = ((nd.count + -(del : Int)) % 2 ^ 16).toNat := congrArg count hbare₁
  show (if ((q.cut i zl del).nodes[i]?.any fun nd => nd.count = 0) then _ else _) = _
  rw [hnd₁, Option.any_some, hcount₁]
  simp only [decide_eq_true_eq]
  rfl

/-- A turn in which the node has as much left as is deleted. What follows goes on at the same place of the list. -/
lemma delRangeLoop_turn (h : q.Stores l) (hnd : q.bare[i]? = some nd) (hindex : ziplistIndex nd.zl offset = some p)
    (hp : p < nd.zl.length) {del whole} (hextent : delRangeExtent nd.count offset extent = (del, whole))
    (hdel : del = min (nd.zl.length - p) extent) (hwhole : whole = true → p = 0 ∧ del = nd.zl.length)
    (pos : 0 < extent) {R : Prop} (room : R → q.Roomy) {P} {fuel}
    (rest : ∀ q' i', q'.Stores (l.take ((before texts q.bare i).length + p) ++
          l.drop ((before texts q.bare i).length + p + del)) →
        (extent - del = 0 ∨ (before texts q'.bare i').length =
          (before texts q.bare i).length + p) →
        q'.nodes.length - i' < q.nodes.length - i → (R → q'.Roomy) →
        Sat (NoRoom R) P (delRangeLoop ⟨lzf, false⟩ fuel q' (extent - del) i' 0)) :
    Sat (NoRoom R) P (delRangeLoop ⟨lzf, false⟩ (fuel + 1) q extent i offset) := by
  have tidy := h.tidy nd (mem_of_getElem? hnd)
  have hfits := tidy.fits
  have hcount := tidy.count
  have hlen := congrArg length (h.texts.symm.trans (flatMap_eq hnd))
  simp only [length_append, nd.length_texts] at hlen
  have hq := h.count
  have hi : i < q.nodes.length := lt_of_bare hnd
  -- Without node `i`, what followed it is found at the same place.
  have erased : ∀ {q' : Quicklist}, q'.bare = q.bare.eraseIdx i →
      before texts q'.bare i = before texts q.bare i ∧
        q'.nodes.length + 1 = q.nodes.length := by
    intro q' bare
    constructor
    · rw [bare, before_eraseIdx]
    · rw [← length_bare, bare, length_eraseIdx_of_lt (by simpa using hi), length_bare]
      omega
  have gone : ∀ {q' : Quicklist}, p = 0 → del = nd.zl.length → q'.bare = q.bare.eraseIdx i →
      q'.count = q.count - nd.zl.length → q'.len = q'.nodes.length →
      Sat (NoRoom R) P (delRangeLoop ⟨lzf, false⟩ fuel q' (extent - del) i 0) := by
    rintro q' rfl hall bare count len
    obtain ⟨hbefore, hlength⟩ := erased bare
    refine rest q' i ?_ (.inr (by rw [hbefore, Nat.add_zero])) (by omega) ?_
    · rw [hall]
      exact h.erase hnd bare count len
    · intro r nd' h'
      exact room r nd' (mem_of_mem_eraseIdx (bare ▸ h'))
  cases whole with
  | true =>
    obtain ⟨hp0, hall⟩ := hwhole rfl
    obtain ⟨nd₀, hnd₀, hbare⟩ := exists_node hnd
    have hcount₀ : nd₀.count = nd.count := by rw [← hbare]; rfl
    rw [delRangeLoop, if_neg (Nat.ne_of_gt pos), hnd₀]
    dsimp only
    rw [hcount₀, hextent]
    refine (delNode_shape h.len hnd).total.bind ?_
    rintro q' ⟨bare, count, len, -⟩
    exact gone hp0 hall bare (by rw [count, hcount, ulongSub_eq (by omega)]) len
  | false =>
    rw [delRangeLoop_inside hnd hindex hextent pos]
    refine (ziplistDelete_room tidy.small fun r => room r nd (mem_of_getElem? hnd)).bind ?_
    rintro zl ⟨htexts, hsmall, hlong⟩
    have hzl : zl.length = nd.zl.length - del := by
      rw [← length_texts, htexts, length_append, length_take, length_drop, length_texts]
      omega
    have count : ulongSub q.count del = q.count - del := ulongSub_eq (by omega)
    have len : (q.cut i zl del).len = (q.cut i zl del).nodes.length := by rw [len_cut, length_cut, h.len]
    by_cases hz : zl.length = 0
    · rw [if_pos (by omega)]
      have hzero : ((nd.setZl zl).addCount (-del)).count = 0 := by
        show ((nd.count + -(del : Int)) % 2 ^ 16).toNat = 0
        omega
      refine (delNode_shape len (bare_cut_node hnd zl del)).total.bind ?_
      rintro q' ⟨bare, count', len', -⟩
      rw [bare_cut, eraseIdx_modify_of_eq] at bare
      rw [hzero, count_cut, ulongSub_eq (Nat.zero_le _)] at count'
      exact gone (by omega) (by omega) bare (by omega) len'
    rw [if_neg (by omega)]
    refine (recompressOnly_shape (by rwa [length_cut])).total.bind ?_
    intro q' shape
    have hne : zl ≠ [] := fun h => hz (by rw [h]; rfl)
    have bare : q'.bare = q.bare.modify i fun nd => (nd.setZl zl).addCount (-del) := shape.bare.trans bare_cut
    have hlength : q'.nodes.length = q.nodes.length := shape.length.trans length_cut
    apply rest
    · refine h.shrink hnd (by omega) htexts hne hsmall bare ?_ ?_
      · rw [shape.count, count_cut, count]
      · rw [shape.len, len, shape.length]
    · -- Something is left of the node: either the range ends here, or it took all that follows `p`.
      by_cases hend : extent - del = 0
      · exact .inl hend
      refine .inr ?_
      have hnd' : q'.bare[i]? = some ((nd.setZl zl).addCount (-del)) := by
        rw [shape.bare, bare_cut_node hnd]
      have hbefore : before texts q'.bare i = before texts q.bare i := by
        rw [bare, before_modify]
      rw [before_succ hnd', hbefore, length_append, QuicklistNode.length_texts]
      show _ + zl.length = _
      omega
    · omega
    · exact fun r => (room r).shrink hnd hlong bare

end Turn

section Run

lemma take_drop_twice {k a b} (hk : k ≤ l.length) :
    (l.take k ++ l.drop (k + a)).take k ++ (l.take k ++ l.drop (k + a)).drop (k + b) =
      l.take k ++ l.drop (k + (a + b)) := by
  have hlen : (l.take k).length = k := length_take_of_le hk
  rw [take_left' hlen, drop_append, hlen, drop_eq_nil_of_le (by omega), nil_append,
    Nat.add_sub_cancel_left, drop_drop, Nat.add_assoc]

lemma delRangeLoop_exact (lzf : Nat → Bool) (fuel : Nat) {k} (h : q.Stores l)
    (at_start : extent = 0 ∨ (before texts q.bare i).length = k) (fits : k + extent ≤ l.length)
    (hfuel : q.nodes.length - i < fuel) {R : Prop} (room : R → q.Roomy) :
    Sat (NoRoom R) (fun q' => q'.Stores (l.take k ++ l.drop (k + extent)))
      (delRangeLoop ⟨lzf, false⟩ fuel q extent i 0) := by
  induction fuel generalizing q l extent i with
  | zero => omega
  | succ fuel ih =>
    rcases Nat.eq_zero_or_pos extent with rfl | pos
    · rw [delRangeLoop, if_pos rfl, Nat.add_zero, take_append_drop]
      exact h
    have hk : (before texts q.bare i).length = k := at_start.resolve_left (by omega)
    have hi : i < q.bare.length := by
      by_contra hge
      rw [before, take_of_length_le (by omega), h.texts] at hk
      omega
    have hnd := getElem?_eq_getElem hi
    set nd := q.bare[i] with hnd_def
    have tidy := h.tidy nd (mem_of_getElem? hnd)
    have hzl := length_pos_of_ne_nil tidy.nonempty
    have hcount := tidy.count
    have hindex : ziplistIndex nd.zl 0 = some 0 := if_pos hzl
    have hstep : delRangeExtent nd.count 0 extent =
        (min (nd.zl.length - 0) extent, decide (nd.zl.length ≤ extent)) := by
      rw [delRangeExtent, hcount]
      by_cases hle : nd.zl.length ≤ extent
      · simp [hle]
      · simp [hle]
        omega
    refine delRangeLoop_turn h hnd hindex hzl hstep rfl (fun hw => ⟨rfl, ?_⟩) pos room ?_
    · have := of_decide_eq_true hw
      omega
    · intro q' i' h' hat hlt room'
      rw [Nat.add_zero, hk] at h' hat
      set del := min (nd.zl.length - 0) extent with hdel
      have hlen : (l.take k ++ l.drop (k + del)).length = l.length - del := by
        rw [length_append, length_take, length_drop]
        omega
      have hrest := ih h' hat (by omega) (by omega) room'
      rw [take_drop_twice (by omega)] at hrest
      have hsum : del + (extent - del) = extent := by omega
      rwa [hsum] at hrest

lemma extent_eq {start count : Int} {s : Nat} (h : q.Stores l) (hs : listIndex l.length start = some s) (pos : 0 < count) :
    (if 0 ≤ start ∧ start ≤ q.count ∧ q.count - start.toNat < count.toNat then q.count - start.toNat
      else if start < 0 ∧ (-start).toNat < count.toNat then (-start).toNat else count.toNat) =
        min count.toNat (l.length - s) := by
  rw [listIndex] at hs
  have hcount := h.count
  split at hs <;> split at hs <;> cases hs
  · rw [if_neg (by omega)]
    split <;> omega
  · split
    · omega
    · rw [if_neg (by omega)]
      omega

lemma delRangeExtent_eq {zl} (hindex : ziplistIndex zl offset = some p) (hp : p < zl.length)
    (inside : 0 < offset → extent < zl.length → offset + extent ≤ zl.length) :
    ∃ whole, delRangeExtent zl.length offset extent = (min (zl.length - p) extent, whole) ∧
      (whole = true → p = 0 ∧ min (zl.length - p) extent = zl.length) := by
  rw [ziplistIndex] at hindex
  rw [delRangeExtent]
  dsimp only at hindex
  split at hindex <;> split at hindex <;> cases hindex
  · rename_i neg hback
    refine ⟨false, ?_, fun h => absurd h Bool.false_ne_true⟩
    rw [if_neg (by omega), if_neg (by omega), if_pos neg]
    congr 1
    omega
  rename_i nonneg _
  by_cases hle : zl.length ≤ extent
  · by_cases hz : offset = 0
    · subst hz
      refine ⟨true, ?_, fun _ => ⟨rfl, ?_⟩⟩
      · rw [if_pos ⟨rfl, hle⟩]
        congr 1
        simp [hle]
      · simp [hle]
    · refine ⟨false, ?_, fun h => absurd h Bool.false_ne_true⟩
      rw [if_neg (fun h => hz h.1), if_pos ⟨by omega, hle⟩]
      congr 1
      omega
  · refine ⟨false, ?_, fun h => absurd h Bool.false_ne_true⟩
    rw [if_neg (fun h => hle h.2), if_neg (fun h => hle h.2), if_neg nonneg]
    congr 1
    omega

lemma delRangeLoop_first {s} (h : q.Stores l) (hnd : q.bare[i]? = some nd)
    (hindex : ziplistIndex nd.zl offset = some p) (hp : p < nd.zl.length)
    (hs : (before texts q.bare i).length + p = s) (pos : 0 < extent) (fits : s + extent ≤ l.length)
    (inside : 0 < offset → extent < nd.count → offset + extent ≤ nd.count) {R : Prop} (room : R → q.Roomy) :
    Sat (NoRoom R) (fun q' => q'.Stores (l.take s ++ l.drop (s + extent)))
      (delRangeLoop ⟨lzf, false⟩ (q.nodes.length + 1) q extent i offset) := by
  have hcount := (h.tidy nd (mem_of_getElem? hnd)).count
  obtain ⟨whole, hstep, hwhole⟩ := delRangeExtent_eq hindex hp (hcount ▸ inside)
  refine delRangeLoop_turn h hnd hindex hp (hcount ▸ hstep) rfl hwhole pos room ?_
  · intro q' i' h' hat hlt room'
    rw [hs] at h' hat
    set del := min (nd.zl.length - p) extent with hdel
    have hlen : (l.take s ++ l.drop (s + del)).length = l.length - del := by
      rw [length_append, length_take, length_drop]
      omega
    have hrest := delRangeLoop_exact lzf q.nodes.length h' hat (by omega) (by omega) room'
    rw [take_drop_twice (by omega)] at hrest
    have hsum : del + (extent - del) = extent := by omega
    rwa [hsum] at hrest

lemma delRangeLoop_overrun {n} (h : q.Stores l) (hnd : q.bare[i]? = some nd) (hp : n < nd.zl.length)
    (pos : 0 < n) (short : extent < nd.count) (past : nd.count < n + extent)
    {R : Prop} (room : R → q.Roomy) :
    Sat (NoRoom R) (fun q' => ∀ l', ¬ q'.Stores l')
      (delRangeLoop ⟨lzf, false⟩ (q.nodes.length + 1) q extent i n) := by
  have tidy := h.tidy nd (mem_of_getElem? hnd)
  have hcount := tidy.count
  have hfits := tidy.fits
  have hi : i < q.nodes.length := lt_of_bare hnd
  have hindex : ziplistIndex nd.zl n = some n := by
    rw [ziplistIndex, if_neg (by omega), Int.toNat_natCast, if_pos hp]
  have hstep : delRangeExtent nd.count n extent = (extent, false) := by
    rw [delRangeExtent, if_neg (by omega), if_neg (by omega), if_neg (by omega)]
  rw [delRangeLoop_inside hnd hindex hstep (by omega)]
  refine (ziplistDelete_room tidy.small fun r => room r nd (mem_of_getElem? hnd)).bind ?_
  rintro zl ⟨htexts, -, -⟩
  have hzl : zl.length = n := by
    rw [← length_texts, htexts, length_append, length_take, length_drop, length_texts]
    omega
  rw [if_neg (by omega)]
  refine (recompressOnly_shape (by rwa [length_cut])).total.bind ?_
  intro q' shape
  obtain ⟨fuel, hfuel⟩ : ∃ fuel, q.nodes.length = fuel + 1 := ⟨_, (Nat.succ_pred_eq_of_pos (by omega)).symm⟩
  rw [hfuel, Nat.sub_self, delRangeLoop, if_pos rfl]
  intro l' h'
  -- The node has `n` strings left, and its count says `nd.count - extent`, which is less.
  have wrong := (h'.tidy _ (mem_of_getElem? (shape.bare ▸ bare_cut_node hnd zl extent))).count
  have hleft : ((nd.count + -(extent : Int)) % 2 ^ 16).toNat = zl.length := wrong
  omega

lemma Quicklist.Overruns.exists_index (h : q.Stores l) {start count} (past : q.Overruns start count) :
    0 < count ∧ ∃ s, listIndex l.length start = some s := by
  obtain ⟨hstart, i, n, nd₀, hloc, hnd₀, pos, short, past⟩ := past
  cases hs : listIndex l.length start with
  | none => exact absurd (h.locate_none hs) (by rw [hloc]; exact Option.some_ne_none _)
  | some s =>
    obtain ⟨i', nd, offset, p, hloc', hnd, hindex, hp, -, -⟩ := h.locate_some hs
    cases hloc.symm.trans hloc'
    have hcount := (h.tidy nd (mem_of_getElem? hnd)).count
    rw [Quicklist.bare, getElem?_map, hnd₀, Option.map_some, Option.some.injEq] at hnd
    have hcount₀ : nd₀.count = nd.count := by rw [← hnd]; rfl
    rw [ziplistIndex, if_neg (by omega)] at hindex
    split at hindex <;> cases hindex
    exact ⟨by omega, s, rfl⟩

lemma listIndex_lt {n s start} (hs : listIndex n start = some s) : s < n := by
  rw [listIndex] at hs
  split at hs <;> split at hs <;> cases hs <;> omega

lemma Quicklist.Stores.overruns_iff (h : q.Stores l) {start} (count : Int) {s}
    (hs : listIndex l.length start = some s) (hloc : q.locate start = some (i, offset)) (hnd : q.bare[i]? = some nd) (hsign : offset < 0 ↔ start < 0) :
    q.Overruns start count ↔ 0 < offset ∧ min count.toNat (l.length - s) < nd.count ∧
      nd.count < offset + min count.toNat (l.length - s) := by
  obtain ⟨nd₀, hnd₀, hbare⟩ := exists_node hnd
  have hcount₀ : nd₀.count = nd.count := by rw [← hbare]; rfl
  have hextent : 0 ≤ start → q.count - start.toNat = l.length - s := by
    intro hstart
    rw [listIndex, if_neg (by omega)] at hs
    split at hs <;> cases hs
    rw [h.count]
  constructor
  · rintro ⟨hstart, i', n, nd', hloc', hnd', pos, short, far⟩
    cases hloc.symm.trans hloc'
    cases hnd₀.symm.trans hnd'
    rw [hextent hstart, hcount₀] at short far
    exact ⟨by omega, short, by omega⟩
  · rintro ⟨pos, short, far⟩
    obtain ⟨n, rfl⟩ := Int.eq_ofNat_of_zero_le (Int.le_of_lt pos)
    have hstart : 0 ≤ start := by omega
    refine ⟨hstart, i, n, nd₀, hloc, hnd₀, by omega, ?_, ?_⟩
    · rwa [hextent hstart, hcount₀]
    · rw [hextent hstart, hcount₀]
      omega

/-- `quicklistDelRange` deletes exactly the range, and leaves every count and size right, unless the range starts
inside a node, is shorter than the node, and goes on behind it. -/
theorem quicklistDelRange_exact (lzf : Nat → Bool) (h : q.Stores l) (start count : Int) :
    Sat (NoRoom q.Roomy) (fun r => q.DeletesRange l start count r ↔ ¬ q.Overruns start count)
      (quicklistDelRange ⟨lzf, false⟩ q start count) := by
  rw [quicklistDelRange]
  by_cases neg : count ≤ 0
  · rw [if_pos neg]
    have fits : ¬ q.Overruns start count := fun past => absurd (past.exists_index h).1 (by omega)
    refine iff_of_true ?_ fits
    rw [Quicklist.DeletesRange]
    cases listIndex l.length start with
    | none => rfl
    | some s => exact (if_neg (by omega)).mpr rfl
  rw [if_neg neg]
  cases hs : listIndex l.length start with
  | none =>
    rw [quicklistIndex, h.locate_none hs]
    have fits : ¬ q.Overruns start count := by
      intro past
      obtain ⟨s, hs'⟩ := (past.exists_index h).2
      rw [hs] at hs'
      cases hs'
    refine iff_of_true ?_ fits
    rw [Quicklist.DeletesRange, hs]
  | some s =>
    obtain ⟨i, nd, offset, p, hloc, hnd, hindex, hp, hpos, hsign, heq⟩ := h.index_some hs
    have shape : q.SameShape (quicklistDecompressNodeForUse q i) := sameShape_decompressForUse
    have h' := h.congr shape
    have room : q.Roomy → (quicklistDecompressNodeForUse q i).Roomy := fun r => by rwa [Quicklist.Roomy, shape.bare]
    have hext := extent_eq h hs (Int.not_le.mp neg)
    rw [← shape.bare] at hnd hpos
    dsimp only
    rw [hext, heq]
    show Sat _ _ (delRangeLoop _ _ _ _ i offset >>= fun q => .ok (q, true))
    have hslt : s < l.length := listIndex_lt hs
    have hloc_iff := h.overruns_iff count hs hloc (shape.bare ▸ hnd) hsign
    by_cases past : q.Overruns start count
    · obtain ⟨pos, short, far⟩ := hloc_iff.mp past
      obtain ⟨n, rfl⟩ := Int.eq_ofNat_of_zero_le (Int.le_of_lt pos)
      have hp' : n < nd.zl.length := by
        rw [ziplistIndex, if_neg (by omega)] at hindex
        split at hindex
        · omega
        · cases hindex
      refine (delRangeLoop_overrun h' hnd hp' (by omega) short (by omega) room).bind fun q' wrong => ?_
      refine iff_of_false ?_ (not_not_intro past)
      rw [Quicklist.DeletesRange, hs]
      dsimp only
      rw [if_pos (by omega)]
      exact fun deleted => wrong _ deleted.1
    · have inside : 0 < offset → min count.toNat (l.length - s) < nd.count →
          offset + min count.toNat (l.length - s) ≤ nd.count := by
        intro pos short
        by_contra far
        exact past (hloc_iff.mpr ⟨pos, short, by omega⟩)
      refine (delRangeLoop_first h' hnd hindex hp hpos (by omega) (by omega) inside room).bind fun q' deleted => ?_
      refine iff_of_true ?_ past
      rw [Quicklist.DeletesRange, hs]
      dsimp only
      rw [if_pos (by omega)]
      refine ⟨?_, rfl⟩
      have hdrop : l.drop (s + count.toNat) = l.drop (s + min count.toNat (l.length - s)) := by
        rcases Nat.le_total count.toNat (l.length - s) with hle | hle
        · rw [Nat.min_eq_left hle]
        · rw [Nat.min_eq_right hle, drop_eq_nil_of_le (by omega), drop_eq_nil_of_le (by omega)]
      rwa [hdrop]

/-- A list of nodes with small numbers in them; the numbers with each node are its size and its count. -/
def smallNodes (nodes : List (List Int × Nat × Nat)) (count : Nat) : Quicklist where
  nodes := nodes.map fun n => quicklistCreateNode (n.1.map fun v => ⟨false, .int v⟩) n.2.1 n.2.2
  count := count
  len := nodes.length
  fill := 3
  compress := 0
  tries := 0

def twoNodes : Quicklist := smallNodes [([1, 2, 3], 17, 3), ([4, 5, 6], 17, 3)] 6

lemma twoNodes_stores : twoNodes.Stores [ll2string 1, ll2string 2, ll2string 3, ll2string 4, ll2string 5, ll2string 6] where
  tidy := by
    intro nd hnd
    fin_cases hnd <;> exact ⟨by decide, by decide, by decide, by decide, by decide⟩
  texts := rfl
  count := rfl
  len := rfl

theorem quicklistDelRange_exact_twoNodes :
    Sat (NoRoom twoNodes.Roomy)
      (fun r => twoNodes.DeletesRange
        [ll2string 1, ll2string 2, ll2string 3, ll2string 4, ll2string 5, ll2string 6] 1 5 r ↔ ¬ twoNodes.Overruns 1 5)
      (quicklistDelRange ⟨fun _ => false, false⟩ twoNodes 1 5) :=
  quicklistDelRange_exact _ twoNodes_stores 1 5

/-- Deleting two strings from the third on leaves the fourth in place, the first node with two strings and a count of
one, and the list with five strings and a count of four. -/
theorem quicklistDelRange_overruns :
    twoNodes.Stores [ll2string 1, ll2string 2, ll2string 3, ll2string 4, ll2string 5, ll2string 6] ∧
      ∃ r, quicklistDelRange ⟨fun _ => false, false⟩ twoNodes 2 2 = .ok r ∧
        r = (smallNodes [([1, 2], 15, 1), ([4, 5, 6], 17, 3)] 4, true) ∧
        ¬ twoNodes.DeletesRange
          [ll2string 1, ll2string 2, ll2string 3, ll2string 4, ll2string 5, ll2string 6] 2 2 r := by
  refine ⟨twoNodes_stores, _, ?_, rfl, ?_⟩
  · decide +kernel
  · rintro ⟨stores, -⟩
    have hcount := (stores.tidy _ (mem_cons_self ..)).count
    exact absurd hcount (by decide)

end Run

end JitRedis
