import JitRedis.Quicklist.DelRange

/-!
# Iterating over a quicklist while deleting from it

An iterator stands between the strings it has passed and those to come. `quicklistNext` returns the next one, and a deletion of
the string that was just returned leaves the iterator where it is, in either direction and whatever becomes of the node.
-/

namespace JitRedis

open Fallible Chunks List QuicklistNode

variable {lzf : Nat → Bool} {q q' : Quicklist} {it : QuicklistIter} {i p c k n : Nat} {l l' : List Bytes}
  {nd : QuicklistNode}

/-- The position that an iterator returns next, of `n` with `k` before the iterator. -/
def nextEntry (forward : Bool) (n k : Nat) : Option Nat :=
  if forward then if k < n then some k else none else if 0 < k then some (k - 1) else none

/-- The offset of an entry of a ziplist with `n` entries, from the end for an iterator that goes backward. -/
def entryOffset (forward : Bool) (n p : Nat) : Int := if forward then p else p - n

/-- The iterator is in node `i`, which has `n` entries, and has `c` of them before it. -/
structure QuicklistIter.Points (it : QuicklistIter) (q : Quicklist) (i n c : Nat) : Prop where
  current : it.current = some i
  le : c ≤ n
  place : (it.zi = none ∧ it.offset = if it.forward then (c : Int) else c - n - 1) ∨
    ∃ p, it.zi = some p ∧ p < n ∧ q.RawAt i ∧ it.offset = entryOffset it.forward n p ∧
      c = if it.forward then p + 1 else p

lemma ziplistIndex_cursor {zl : Ziplist} (forward : Bool) (hc : c ≤ zl.length) :
    ziplistIndex zl (if forward then (c : Int) else c - zl.length - 1) = nextEntry forward zl.length c := by
  rw [ziplistIndex, nextEntry]
  cases forward with
  | true =>
    rw [if_pos rfl, if_pos rfl, if_neg (by omega), Int.toNat_natCast]
  | false =>
    rw [if_neg Bool.false_ne_true, if_neg Bool.false_ne_true, if_pos (by omega)]
    have hback : (-((c : Int) - zl.length - 1) - 1).toNat = zl.length - c := by omega
    rw [hback]
    by_cases hpos : 0 < c
    · rw [if_pos (by omega), if_pos hpos]
      congr 1
      omega
    · rw [if_neg (by omega), if_neg hpos]

lemma ziplistStep_cursor {zl : Ziplist} (forward : Bool) (hp : p < zl.length) :
    (if forward then ziplistNext zl p else ziplistPrev zl p) =
      nextEntry forward zl.length (if forward then p + 1 else p) := by
  rw [nextEntry]
  cases forward with
  | true => rfl
  | false =>
    rw [if_neg Bool.false_ne_true, if_neg Bool.false_ne_true, if_neg Bool.false_ne_true, ziplistPrev, if_neg (by omega)]
    by_cases hpos : 0 < p
    · rw [if_neg (by omega), if_pos hpos]
    · rw [if_pos (by omega), if_neg hpos]

lemma nextEntry_cases {forward : Bool} {j : Nat} (h : nextEntry forward n k = some j) :
    if forward then j = k ∧ k < n else j + 1 = k := by
  rw [nextEntry] at h
  cases forward with
  | true =>
    rw [if_pos rfl] at h ⊢
    split at h
    · cases h
      exact ⟨rfl, by assumption⟩
    · cases h
  | false =>
    rw [if_neg Bool.false_ne_true] at h ⊢
    split at h
    · cases h
      omega
    · cases h

lemma QuicklistIter.Points.iterZi (h : it.Points q i nd.zl.length c) (hnd : q.bare[i]? = some nd) :
    ∃ q₁ offset, quicklistIterZi q it i = .ok (q₁, nextEntry it.forward nd.zl.length c, offset) ∧ q.SameShape q₁ ∧
      q₁.RawAt i ∧ ∀ p, nextEntry it.forward nd.zl.length c = some p → offset = entryOffset it.forward nd.zl.length p := by
  obtain ⟨hzi, hoffset⟩ | ⟨p, hzi, hp, raw, hoffset, hc⟩ := h.place
  · have shape : q.SameShape (quicklistDecompressNodeForUse q i) := sameShape_decompressForUse
    refine ⟨_, it.offset, ?_, shape, rawAt_decompressForUse, fun p hp => ?_⟩
    · rw [quicklistIterZi, hzi]
      dsimp only
      rw [readZl_eq rawAt_decompressForUse (shape.bare ▸ hnd), ok_bind, hoffset, ziplistIndex_cursor _ h.le]
    · have hcases := nextEntry_cases hp
      rw [hoffset, entryOffset]
      cases hf : it.forward with
      | true =>
        rw [hf, if_pos rfl] at hcases
        rw [if_pos rfl, if_pos rfl]
        omega
      | false =>
        rw [hf, if_neg Bool.false_ne_true] at hcases
        rw [if_neg Bool.false_ne_true, if_neg Bool.false_ne_true]
        omega
  · refine ⟨q, if it.forward then it.offset + 1 else it.offset - 1, ?_, .refl q, raw, fun p' hp' => ?_⟩
    · rw [quicklistIterZi, hzi]
      dsimp only
      rw [readZl_eq raw hnd, ok_bind, hc, ziplistStep_cursor _ hp]
    · have hcases := nextEntry_cases hp'
      rw [hoffset, entryOffset, entryOffset]
      cases hf : it.forward with
      | true =>
        rw [hf, if_pos rfl] at hcases hc
        rw [if_pos rfl, if_pos rfl, if_pos rfl]
        omega
      | false =>
        rw [hf, if_neg Bool.false_ne_true] at hcases hc
        rw [if_neg Bool.false_ne_true, if_neg Bool.false_ne_true, if_neg Bool.false_ne_true]
        omega

/-- The iterator has `k` strings of the list before it. -/
def Quicklist.Cursor (q : Quicklist) (it : QuicklistIter) (k : Nat) : Prop :=
  (it.current = none ∧ k = if it.forward then q.count else 0) ∨
    ∃ i nd c, q.bare[i]? = some nd ∧ it.Points q i nd.zl.length c ∧
      k = (before QuicklistNode.texts q.bare i).length + c

/-- The iterator after it has returned an entry. -/
def QuicklistIter.returned (it : QuicklistIter) (i n p : Nat) : QuicklistIter :=
  { it with current := some i, zi := some p, offset := entryOffset it.forward n p }

/-- The iterator at the near end of a node. -/
def QuicklistIter.enter (it : QuicklistIter) (current : Option Nat) : QuicklistIter :=
  { it with current, zi := none, offset := if it.forward then 0 else -1 }

lemma next_inside (lzf : Nat → Bool) (fuel : Nat) (h : it.Points q i nd.zl.length c) (hnd : q.bare[i]? = some nd)
    (hp : nextEntry it.forward nd.zl.length c = some p) :
    ∃ q', quicklistNext ⟨lzf, false⟩ (fuel + 1) q it =
        .ok (q', it.returned i nd.zl.length p, some ⟨i, some p, entryOffset it.forward nd.zl.length p⟩) ∧
      q.SameShape q' ∧ q'.RawAt i := by
  obtain ⟨q₁, offset, hiter, shape, raw, hoffset⟩ := h.iterZi hnd
  refine ⟨q₁, ?_, shape, raw⟩
  rw [quicklistNext, h.current]
  dsimp only
  rw [hiter, ok_bind, hp, hoffset p hp, QuicklistIter.returned]

lemma next_hop (lzf : Nat → Bool) (fuel : Nat) (h : it.Points q i nd.zl.length c) (hnd : q.bare[i]? = some nd) (len : q.len = q.nodes.length)
    (hp : nextEntry it.forward nd.zl.length c = none) :
    ∃ q', quicklistNext ⟨lzf, false⟩ (fuel + 1) q it =
        quicklistNext ⟨lzf, false⟩ fuel q' (it.enter (if it.forward then q'.next i else Quicklist.prev i)) ∧
      q.SameShape q' := by
  obtain ⟨q₁, offset, hiter, shape, -, -⟩ := h.iterZi hnd
  have hi : i < q.nodes.length := lt_of_bare hnd
  obtain ⟨q₂, hcompress, shape'⟩ := (compress_shape lzf (q := q₁) (i := i)
    (by rw [shape.len, len, shape.length]) (by rwa [shape.length])).returns
  refine ⟨q₂, ?_, shape.trans shape'⟩
  rw [quicklistNext, h.current]
  dsimp only
  rw [hiter, ok_bind, hp]
  dsimp only
  rw [hcompress, ok_bind]
  rfl

lemma points_enter (current : Option Nat) (hi : current = some i) :
    (it.enter current).Points q i n (if it.forward then 0 else n) := by
  refine ⟨hi, ?_, .inl ⟨rfl, ?_⟩⟩
  · split <;> omega
  · rw [QuicklistIter.enter]
    dsimp only
    split
    · rfl
    · omega

/-- What `quicklistNext` returns: the next string of the list in the direction of the iterator. -/
def Quicklist.Returns (lzf : Nat → Bool) (q : Quicklist) (l : List Bytes) (it : QuicklistIter) (k : Nat) : Prop :=
  match nextEntry it.forward l.length k with
  | none => ∃ q' it', quicklistNext ⟨lzf, false⟩ (q.nodes.length + 1) q it = .ok (q', it', none) ∧ q.SameShape q'
  | some j => ∃ q' i nd p, quicklistNext ⟨lzf, false⟩ (q.nodes.length + 1) q it =
        .ok (q', it.returned i nd.zl.length p, some ⟨i, some p, entryOffset it.forward nd.zl.length p⟩) ∧
      q.SameShape q' ∧ q'.RawAt i ∧ q'.bare[i]? = some nd ∧ p < nd.zl.length ∧
      (before QuicklistNode.texts q'.bare i).length + p = j

lemma Quicklist.Stores.length_lt (h : q.Stores l) {s : Bytes} (hs : s ∈ l) : s.length < 2 ^ 32 := by
  rw [← h.texts] at hs
  obtain ⟨nd, hnd, hmem⟩ := mem_flatMap.mp hs
  obtain ⟨e, he, rfl⟩ := mem_map.mp hmem
  have hsmall := (h.tidy nd hnd).small
  have hle : e.rawlen ≤ (nd.zl.map ZlEntry.rawlen).sum := le_sum_of_mem (mem_map_of_mem he)
  rw [ziplistBlobLen] at hsmall
  rw [ZlEntry.rawlen] at hle
  cases hv : e.value with
  | str t =>
    rw [hv] at hle
    show t.length < 2 ^ 32
    rw [ZlValue.len] at hle
    omega
  | int v =>
    have hlen := length_ll2string_le v
    show (ll2string v).length < 2 ^ 32
    omega

lemma next_enter (lzf : Nat → Bool) (fuel : Nat) (h : q.Stores l) (hnd : q.bare[i]? = some nd)
    (hk : k = (before texts q.bare i).length + if it.forward then 0 else nd.zl.length) :
    ∃ q' p j, nextEntry it.forward l.length k = some j ∧
      quicklistNext ⟨lzf, false⟩ (fuel + 1) q (it.enter (some i)) =
        .ok (q', it.returned i nd.zl.length p, some ⟨i, some p, entryOffset it.forward nd.zl.length p⟩) ∧
      q.SameShape q' ∧ q'.RawAt i ∧ p < nd.zl.length ∧ (before texts q.bare i).length + p = j := by
  have hpos := length_pos_of_ne_nil (h.tidy nd (mem_of_getElem? hnd)).nonempty
  have hlen := h.length_eq hnd
  obtain ⟨p, hp, hlt, hj⟩ : ∃ p, nextEntry it.forward nd.zl.length (if it.forward then 0 else nd.zl.length) = some p ∧
      p < nd.zl.length ∧
      nextEntry it.forward l.length k = some ((before texts q.bare i).length + p) := by
    rw [hk, nextEntry, nextEntry]
    cases it.forward with
    | true =>
      refine ⟨0, if_pos hpos, hpos, ?_⟩
      simp only [if_true]
      rw [if_pos (by omega)]
    | false =>
      refine ⟨nd.zl.length - 1, if_pos hpos, by omega, ?_⟩
      simp only [Bool.false_eq_true, if_false]
      rw [if_pos (by omega), Nat.add_sub_assoc hpos]
  have points : (it.enter (some i)).Points q i nd.zl.length (if it.forward then 0 else nd.zl.length) := points_enter _ rfl
  obtain ⟨q', hnext, shape, raw⟩ := next_inside lzf fuel points hnd hp
  exact ⟨q', p, _, hj, hnext, shape, raw, hlt, rfl⟩

/-- An iterator that has passed all of its node goes to the next one, with as many strings before it. -/
lemma next_node (h : q.Stores l) (hnd : q.bare[i]? = some nd) (hle : c ≤ nd.zl.length)
    (hp : nextEntry it.forward nd.zl.length c = none) (hk : k = (before texts q.bare i).length + c) :
    ((if it.forward then q.next i else Quicklist.prev i) = none ∧ nextEntry it.forward l.length k = none) ∨
      ∃ i' nd', (if it.forward then q.next i else Quicklist.prev i) = some i' ∧ q.bare[i']? = some nd' ∧
        k = (before QuicklistNode.texts q.bare i').length + if it.forward then 0 else nd'.zl.length := by
  have hlen := h.length_eq hnd
  have hi := (List.getElem?_eq_some_iff.mp hnd).1
  rw [nextEntry] at hp ⊢
  cases hf : it.forward with
  | true =>
    rw [hf, if_pos rfl] at hp
    have hc : c = nd.zl.length := by
      split at hp
      · cases hp
      · omega
    simp only [if_true]
    by_cases hlast : i + 1 < q.bare.length
    · refine .inr ⟨i + 1, q.bare[i + 1], ?_, getElem?_eq_getElem hlast, ?_⟩
      · rw [Quicklist.next, if_pos (by rwa [length_bare] at hlast)]
      · rw [before_succ hnd, length_append, nd.length_texts, hk, hc, Nat.add_zero]
    refine .inl ⟨?_, if_neg ?_⟩
    · rw [Quicklist.next, if_neg (by rwa [length_bare] at hlast)]
    · have hbehind : behind texts q.bare i = [] := by
        rw [behind, drop_eq_nil_of_le (by omega)]
        rfl
      rw [hbehind, length_nil] at hlen
      omega
  | false =>
    rw [hf, if_neg Bool.false_ne_true] at hp
    have hc : c = 0 := by
      split at hp
      · cases hp
      · omega
    simp only [Bool.false_eq_true, if_false]
    cases i with
    | zero =>
      refine .inl ⟨rfl, if_neg ?_⟩
      rw [hk, before_zero, length_nil]
      omega
    | succ i =>
      have hprev := getElem?_eq_getElem (Nat.lt_of_succ_lt hi)
      refine .inr ⟨i, q.bare[i], rfl, hprev, ?_⟩
      rw [hk, hc, before_succ hprev, length_append, QuicklistNode.length_texts, Nat.add_zero]

lemma quicklistNext_spec (lzf : Nat → Bool) (h : q.Stores l) (cursor : q.Cursor it k) : q.Returns lzf l it k := by
  obtain ⟨hnone, hk⟩ | ⟨i, nd, c, hnd, points, hk⟩ := cursor
  · have hend : nextEntry it.forward l.length k = none := by
      rw [hk, nextEntry, h.count]
      cases it.forward with
      | true => exact if_neg (lt_irrefl _)
      | false => rfl
    rw [Quicklist.Returns, hend]
    refine ⟨q, it, ?_, .refl q⟩
    rw [quicklistNext, hnone]
  have hlen := h.length_eq hnd
  have hle := points.le
  have hi : i < q.nodes.length := lt_of_bare hnd
  cases hp : nextEntry it.forward nd.zl.length c with
  | some p =>
    have hcases := nextEntry_cases hp
    obtain ⟨hj, hlt⟩ : nextEntry it.forward l.length k = some ((before texts q.bare i).length + p) ∧
        p < nd.zl.length := by
      rw [hk, nextEntry]
      cases hf : it.forward with
      | true =>
        rw [hf, if_pos rfl] at hcases
        rw [if_pos rfl, if_pos (by omega), hcases.1]
        exact ⟨rfl, hcases.2⟩
      | false =>
        rw [hf, if_neg Bool.false_ne_true] at hcases
        rw [if_neg Bool.false_ne_true, if_pos (by omega)]
        exact ⟨congrArg some (by omega), by omega⟩
    obtain ⟨q', hnext, shape, raw⟩ := next_inside lzf q.nodes.length points hnd hp
    rw [Quicklist.Returns, hj]
    exact ⟨q', i, nd, p, hnext, shape, raw, shape.bare ▸ hnd, hlt, by rw [shape.bare]⟩
  | none =>
    obtain ⟨q₂, hhop, shape⟩ := next_hop lzf q.nodes.length points hnd h.len hp
    have h₂ := h.congr shape
    obtain ⟨fuel, hfuel⟩ : ∃ fuel, q.nodes.length = fuel + 1 := ⟨q.nodes.length - 1, by omega⟩
    rw [hfuel] at hhop
    rw [← shape.bare] at hk
    obtain ⟨hT, hend⟩ | ⟨i', nd', hT, hnd', hk'⟩ := next_node h₂ (shape.bare ▸ hnd) hle hp hk
    · rw [Quicklist.Returns, hend, hfuel]
      rw [hT, quicklistNext] at hhop
      exact ⟨q₂, _, hhop, shape⟩
    · obtain ⟨q', p, j, hj, hnext, shape', raw, hlt, hpos⟩ := next_enter lzf fuel h₂ hnd' hk'
      rw [Quicklist.Returns, hj, hfuel]
      rw [hT, hnext] at hhop
      exact ⟨q', i', nd', p, hhop, shape.trans shape', raw, shape'.bare ▸ hnd', hlt, by rw [shape'.bare, hpos]⟩

lemma cursor_returned (raw : q.RawAt i) (hnd : q.bare[i]? = some nd) (hp : p < nd.zl.length) :
    q.Cursor (it.returned i nd.zl.length p)
      ((before texts q.bare i).length + if it.forward then p + 1 else p) := by
  refine .inr ⟨i, nd, _, hnd, ⟨rfl, ?_, .inr ⟨p, rfl, hp, raw, rfl, rfl⟩⟩, rfl⟩
  split <;> omega

section Delete

lemma cursor_gone (hnd : q.bare[i]? = some nd) (stores : q'.Stores l') (bare : q'.bare = q.bare.eraseIdx i) :
    q'.Cursor (it.skipGone i (q.next i)) (before QuicklistNode.texts q.bare i).length := by
  have hi := (List.getElem?_eq_some_iff.mp hnd).1
  have hlen : q.bare.length = q.nodes.length := length_bare
  have hbefore : before texts q'.bare i = before texts q.bare i := by rw [bare, before_eraseIdx]
  have hentered (target : Option Nat)
      (htarget : (if it.forward then (q.next i).map fun _ => i else Quicklist.prev i) = target) :
      it.skipGone i (q.next i) = it.enter target := by rw [← htarget]; rfl
  cases hf : it.forward with
  | true =>
    rw [hf, if_pos rfl] at hentered
    by_cases hlast : i + 1 < q.bare.length
    · have hnext : q'.bare[i]? = some q.bare[i + 1] := by
        rw [bare, getElem?_eraseIdx_of_ge (le_refl i), getElem?_eq_getElem hlast]
      have htarget : (q.next i).map (fun _ => i) = some i := by rw [Quicklist.next, if_pos (by omega), Option.map_some]
      have points : (it.enter (some i)).Points q' i q.bare[i + 1].zl.length _ := points_enter _ rfl
      rw [hentered _ htarget]
      refine .inr ⟨i, _, _, hnext, points, ?_⟩
      rw [hbefore, hf, if_pos rfl, Nat.add_zero]
    have htarget : (q.next i).map (fun _ => i) = none := by rw [Quicklist.next, if_neg (by omega), Option.map_none]
    have hall := stores.texts
    rw [bare, flatMap_eraseIdx, behind, drop_eq_nil_of_le (by omega), flatMap_nil, append_nil] at hall
    rw [hentered _ htarget]
    refine .inl ⟨rfl, ?_⟩
    rw [stores.count, ← hall, show (it.enter none).forward = true from hf, if_pos rfl]
  | false =>
    rw [hf, if_neg Bool.false_ne_true] at hentered
    cases i with
    | zero =>
      rw [hentered none rfl]
      refine .inl ⟨rfl, ?_⟩
      rw [show (it.enter none).forward = false from hf]
      rfl
    | succ i =>
      have hprev : q'.bare[i]? = some q.bare[i] := by
        rw [bare, getElem?_eraseIdx_of_lt (Nat.lt_succ_self i), getElem?_eq_getElem (Nat.lt_of_succ_lt hi)]
      have points : (it.enter (some i)).Points q' i q.bare[i].zl.length _ := points_enter _ rfl
      rw [hentered (some i) rfl]
      refine .inr ⟨i, _, _, hprev, points, ?_⟩
      rw [hf, if_neg Bool.false_ne_true, ← hbefore, before_succ hprev, length_append, QuicklistNode.length_texts]

lemma delEntry_stores (lzf : Nat → Bool) (h : q.Stores l) (raw : q.RawAt i) (hnd : q.bare[i]? = some nd)
    (hp : p < nd.zl.length) (it : QuicklistIter) :
    Sat (fun f => f = .overflow ∧ ziplistDelete nd.zl p 1 = .error f)
      (fun r => r.1.Stores (l.eraseIdx ((before texts q.bare i).length + p)) ∧
        r.1.Cursor r.2 ((before texts q.bare i).length + p) ∧ r.2.forward = it.forward ∧
        ∃ zl, ziplistDelete nd.zl p 1 = .ok zl ∧ r.1.bare = if zl = [] then q.bare.eraseIdx i else
          q.bare.modify i fun nd => (nd.setZl zl).addCount (-(1 : Nat)))
      (quicklistDelEntry ⟨lzf, false⟩ q (it.returned i nd.zl.length p) ⟨i, some p, entryOffset it.forward nd.zl.length p⟩) := by
  rw [quicklistDelEntry]
  refine (delIndex_stores lzf h raw hnd hp).bind ?_
  rintro ⟨q', gone⟩ ⟨⟨stores, -⟩, zl, hdel, hzl, rfl, bare⟩
  by_cases hz : zl = []
  · rw [decide_eq_true hz]
    rw [if_pos hz] at bare
    have hone : p = 0 := by
      rw [hz, length_nil] at hzl
      omega
    refine ⟨stores, ?_, rfl, zl, hdel, by rw [if_pos hz]; exact bare⟩
    rw [hone, Nat.add_zero]
    exact cursor_gone hnd stores bare
  rw [decide_eq_false hz]
  rw [if_neg hz] at bare
  refine ⟨stores, .inr ⟨i, (nd.setZl zl).addCount (-(1 : Nat)), p, ?_, ⟨rfl, ?_, .inl ⟨rfl, ?_⟩⟩, ?_⟩, rfl, zl, hdel,
    by rw [if_neg hz]; exact bare⟩
  · show q'.bare[i]? = _
    rw [bare, getElem?_modify_eq, hnd]
    rfl
  · show p ≤ zl.length
    omega
  · show entryOffset it.forward nd.zl.length p = if it.forward then (p : Int) else p - zl.length - 1
    rw [entryOffset]
    split <;> omega
  · show _ = (before texts q'.bare i).length + p
    rw [bare, before_modify]

end Delete

end JitRedis
