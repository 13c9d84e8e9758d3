import JitRedis.Quicklist.Merging

/-!
# Inserting next to an entry of a quicklist

`_quicklistInsert` takes an entry that `quicklistIndex` or `quicklistNext` has returned. The entry has the position of an element in
its node twice: as a pointer into the ziplist and as an offset, which counts from the end of the node if the entry was found
from the end of the list. Where the node has to be split, the offset decides what goes where.
-/

namespace JitRedis

open Fallible Chunks List QuicklistNode

def quicklistGetIterator (q : Quicklist) (forward : Bool) : QuicklistIter where
  current := q.endRef forward
  zi := none
  offset := if forward then 0 else -1
  forward := forward

/-- `_quicklistInsert`, also without a node: then a node is made, whose `sz` is not updated. -/
def quicklistInsertEntry (env : QuicklistEnv) (q : Quicklist) (entry : Option QuicklistEntry) (value : Bytes)
    (after : Bool) : Except Fault Quicklist :=
  match entry with
  | none => do
    let zl ← ziplistPush ziplistNew (clip value) true
    let q ← quicklistInsertNode env q none (quicklistCreateNode zl 0 1) after
    .ok { q with count := q.count + 1 }
  | some entry => quicklistInsert env q entry value after

section Entries

variable {lzf : Nat → Bool} {q q₀ : Quicklist} {it : QuicklistIter} {e : QuicklistEntry} {i p : Nat} {zl : Ziplist}
  {offset : Int}

/-- The iterators over a list: from one of its ends or from an index, in either direction, after some elements. -/
inductive Quicklist.Iterates (lzf : Nat → Bool) (q₀ : Quicklist) : Quicklist → QuicklistIter → Prop
  | start (forward : Bool) : q₀.Iterates lzf q₀ (quicklistGetIterator q₀ forward)
  | atIdx {q : Quicklist} {it : QuicklistIter} (forward : Bool) (idx : Int) :
      quicklistGetIteratorAtIdx q₀ forward idx = .ok (q, some it) → q₀.Iterates lzf q it
  | next {q q' : Quicklist} {it it' : QuicklistIter} {e : QuicklistEntry} : q₀.Iterates lzf q it →
      quicklistNext ⟨lzf, false⟩ (q.nodes.length + 1) q it = .ok (q', it', some e) → q₀.Iterates lzf q' it'

/-- The entries that `quicklistIndex` and `quicklistNext` obtain. An empty list has one without a node. -/
inductive Quicklist.Obtains (lzf : Nat → Bool) (q₀ : Quicklist) : Quicklist → Option QuicklistEntry → Prop
  | index {q : Quicklist} {e : QuicklistEntry} (idx : Int) : quicklistIndex q₀ idx = .ok (q, some e) →
      q₀.Obtains lzf q (some e)
  | next {q q' : Quicklist} {it it' : QuicklistIter} {e : QuicklistEntry} : q₀.Iterates lzf q it →
      quicklistNext ⟨lzf, false⟩ (q.nodes.length + 1) q it = .ok (q', it', some e) → q₀.Obtains lzf q' (some e)
  | noNode : q₀.nodes = [] → q₀.Obtains lzf q₀ none

/-- The two offsets of a position. -/
def OffsetOf (offset : Int) (p n : Nat) : Prop := offset = p ∨ offset = p - n

/-- The position is in the node, and the offset is the one of it. -/
def Quicklist.At (q : Quicklist) (i p : Nat) (offset : Int) : Prop :=
  ∃ nd, q.bare[i]? = some nd ∧ p < nd.zl.length ∧ OffsetOf offset p nd.zl.length

/-- The position that an iterator remembers has its offset. -/
def QuicklistIter.Synced (it : QuicklistIter) (q : Quicklist) : Prop :=
  ∀ i p, it.current = some i → it.zi = some p → q.At i p it.offset

lemma offsetOf_ziplistIndex (h : ziplistIndex zl offset = some p) : p < zl.length ∧ OffsetOf offset p zl.length := by
  rw [ziplistIndex] at h
  rw [OffsetOf]
  split at h
  · dsimp only at h
    split at h
    · cases h
      omega
    · cases h
  · split at h
    · cases h
      omega
    · cases h

lemma readZl_node (q : Quicklist) (i : Nat) :
    Sat (fun _ => True) (fun zl => ∃ nd, q.bare[i]? = some nd ∧ nd.zl = zl) (q.readZl i) := by
  rw [Quicklist.readZl]
  cases hnd : q.nodes[i]? with
  | none => trivial
  | some nd =>
    dsimp only
    split
    · trivial
    · exact ⟨nd.bare, by rw [Quicklist.bare, getElem?_map, hnd]; rfl, rfl⟩

lemma iterZi_at (synced : it.Synced q) (hi : it.current = some i) :
    Sat (fun _ => True) (fun r => q.SameShape r.1 ∧ i < q.nodes.length ∧ ∀ p, r.2.1 = some p → q.At i p r.2.2)
      (quicklistIterZi q it i) := by
  rw [quicklistIterZi]
  cases hzi : it.zi with
  | none =>
    have shape : q.SameShape (quicklistDecompressNodeForUse q i) := sameShape_decompressForUse
    refine (readZl_node _ i).bind ?_
    rintro zl ⟨nd, hnd, rfl⟩
    rw [shape.bare] at hnd
    exact ⟨shape, lt_of_bare hnd, fun p hp => ⟨nd, hnd, offsetOf_ziplistIndex hp⟩⟩
  | some p =>
    obtain ⟨nd, hnd, hp, hoffset⟩ := synced i p hi hzi
    refine (readZl_node q i).bind ?_
    rintro zl ⟨nd', hnd', rfl⟩
    cases hnd.symm.trans hnd'
    refine ⟨.refl q, lt_of_bare hnd, fun p' hp' => ⟨nd, hnd, ?_⟩⟩
    rw [OffsetOf] at hoffset ⊢
    dsimp only at hp' ⊢
    cases hf : it.forward with
    | true =>
      rw [hf, if_pos rfl, ziplistNext] at hp'
      rw [if_pos rfl]
      split at hp'
      · cases hp'
        omega
      · cases hp'
    | false =>
      rw [hf, if_neg Bool.false_ne_true, ziplistPrev, if_neg (by omega)] at hp'
      rw [if_neg Bool.false_ne_true]
      split at hp'
      · cases hp'
      · cases hp'
        omega

lemma Quicklist.At.congr {q'} (h : q.At i p offset) (shape : q.SameShape q') : q'.At i p offset := by
  obtain ⟨nd, hnd, hp, hoffset⟩ := h
  exact ⟨nd, shape.bare ▸ hnd, hp, hoffset⟩

lemma next_at (len : q.len = q.nodes.length) (synced : it.Synced q) (fuel : Nat) :
    Sat (fun _ => True) (fun r => q.SameShape r.1 ∧ ∀ e, r.2.2 = some e → r.2.1.Synced r.1 ∧
      ∃ p, e.zi = some p ∧ r.1.At e.node p e.offset) (quicklistNext ⟨lzf, false⟩ fuel q it) := by
  induction fuel generalizing q it with
  | zero => trivial
  | succ fuel ih =>
    rw [quicklistNext]
    cases hi : it.current with
    | none => exact ⟨.refl q, fun e he => by cases he⟩
    | some i =>
      refine (iterZi_at synced hi).bind ?_
      rintro ⟨q₁, zi, offset⟩ ⟨shape, hlt, hat⟩
      cases zi with
      | some p =>
        have hat' := (hat p rfl).congr shape
        refine ⟨shape, fun e he => ?_⟩
        cases he
        refine ⟨fun i' p' hi' hp' => ?_, p, rfl, hat'⟩
        cases hi'
        cases hp'
        exact hat'
      | none =>
        refine ((compress_shape lzf (q := q₁) (i := i) (by rw [shape.len, len, shape.length])
          (by rwa [shape.length])).weaken fun _ => trivial).bind ?_
        intro q₂ shape'
        have shape₂ := shape.trans shape'
        refine (ih (by rw [shape₂.len, len, shape₂.length]) ?_).mono fun r hr => ⟨shape₂.trans hr.1, hr.2⟩
        intro i' p' _ hp'
        cases hp'

lemma index_at {l} {idx : Int} (h : q₀.Stores l) (hidx : quicklistIndex q₀ idx = .ok (q, some e)) :
    q₀.SameShape q ∧ ∃ p, e.zi = some p ∧ q.At e.node p e.offset := by
  cases hk : listIndex l.length idx with
  | none =>
    rw [quicklistIndex, h.locate_none hk] at hidx
    cases hidx
  | some k =>
    obtain ⟨i, nd, offset, p, -, hnd, hindex, -, -, -, hentry⟩ := h.index_some hk
    cases hentry.symm.trans hidx
    have shape : q₀.SameShape (quicklistDecompressNodeForUse q₀ i) := sameShape_decompressForUse
    exact ⟨shape, p, rfl, nd, shape.bare ▸ hnd, offsetOf_ziplistIndex hindex⟩

lemma Quicklist.Iterates.synced {l} (iterates : q₀.Iterates lzf q it) (h : q₀.Stores l) :
    q₀.SameShape q ∧ it.Synced q := by
  induction iterates with
  | start forward => exact ⟨.refl q₀, fun _ _ _ hp => by cases hp⟩
  | atIdx forward idx hit =>
    rw [quicklistGetIteratorAtIdx] at hit
    rcases hidx : quicklistIndex q₀ idx with _ | ⟨q', _ | e⟩ <;> rw [hidx] at hit <;> cases hit
    exact ⟨(index_at h hidx).1, fun _ _ _ hp => by cases hp⟩
  | next _ hnext ih =>
    obtain ⟨shape, synced⟩ := ih
    obtain ⟨shape', hentry⟩ := (next_at (by rw [shape.len, h.len, shape.length]) synced _).of_eq hnext
    exact ⟨shape.trans shape', (hentry _ rfl).1⟩

lemma Quicklist.Obtains.at {l} (obtains : q₀.Obtains lzf q (some e)) (h : q₀.Stores l) :
    q₀.SameShape q ∧ ∃ p, e.zi = some p ∧ q.At e.node p e.offset := by
  cases obtains with
  | index idx hidx => exact index_at h hidx
  | next iterates hnext =>
    obtain ⟨shape, synced⟩ := iterates.synced h
    obtain ⟨shape', hentry⟩ := (next_at (by rw [shape.len, h.len, shape.length]) synced _).of_eq hnext
    exact ⟨shape.trans shape', (hentry _ rfl).2⟩

end Entries

/-- Whether `_quicklistNodeAllowInsert` allows a value in the node of a ziplist. -/
def allows (fill : Int) (z : Ziplist) (value : Bytes) : Bool :=
  quicklistNodeAllowInsert (some (nodeOf z)) fill value.length

/-- A ziplist is split, the value is put into the new one, and the ziplists around the old one are joined. -/
def splitZl (fill : Int) (L : List Ziplist) (z : Ziplist) (R : List Ziplist) (offset : Int) (value : Bytes) (after : Bool) :
    Except Fault (List Ziplist) := do
  let (kept, taken) ← quicklistSplitNode z offset after
  let new ← ziplistPush taken (clip value) after
  if after then joinAround fill L kept (new :: R) else joinAround fill (new :: L) kept R

/-- The value goes before the first entry of a full ziplist: into the one before, or into a new one. -/
def headZl (fill : Int) (z : Ziplist) (R : List Ziplist) (value : Bytes) : List Ziplist → Except Fault (List Ziplist)
  | [] => splitZl fill [] z R 0 value false
  | prev :: L =>
    if allows fill prev value then
      (ziplistPush prev (clip value) false).map fun prev => L.reverse ++ prev :: z :: R
    else
      (ziplistPush ziplistNew (clip value) true).map fun new => (prev :: L).reverse ++ new :: z :: R

/-- `_quicklistInsert` at position `p` of a ziplist, in terms of the ziplists before it, the nearest first, and behind it. -/
def insertZl (fill : Int) (L : List Ziplist) (z : Ziplist) (R : List Ziplist) (p : Nat) (offset : Int) (value : Bytes)
    (after : Bool) : Except Fault (List Ziplist) :=
  if allows fill z value then
    (ziplistInsert z (if after then p + 1 else p) (clip value)).map fun z => L.reverse ++ z :: R
  else if after = false ∧ offset = 0 then
    headZl fill z R value L
  else
    splitZl fill L z R offset value after

section Simulation

variable {lzf : Nat → Bool} {q q' : Quicklist} {i p : Nat} {z n : Ziplist} {X Y L R : List Ziplist} {offset : Int}
  {value s : Bytes} {after : Bool} {edit : Ziplist → Except Fault Ziplist}

lemma ziplistInsert_length (hp : p ≤ z.length) (s : Bytes) :
    Sat (· = .overflow) (fun z' => z'.length = z.length + 1) (ziplistInsert z p s) := by
  refine (ziplistInsert_spec z p s).mono fun z' ⟨htexts, _⟩ => ?_
  rw [← length_texts, htexts, length_append, length_cons, length_take, length_drop, length_texts]
  omega

lemma ziplistPush_length (z : Ziplist) (s : Bytes) (head : Bool) :
    Sat (· = .overflow) (fun z' => z'.length = z.length + 1) (ziplistPush z s head) := by
  refine ziplistInsert_length ?_ s
  split <;> omega

lemma editNode_tiles {x} (lzf : Nat → Bool) (h : q.Tiles (X ++ z :: Y)) (hX : X.length = i) (hx : edit z = x)
    (one : Sat (· = .overflow) (fun z' => z'.length = z.length + 1) x) :
    Mirrors q.Retiled (x.map fun z' => X ++ z' :: Y) (quicklistEditNode ⟨lzf, false⟩ q i edit) := by
  subst hx
  have shape : q.SameShape (quicklistDecompressNodeForUse q i) := sameShape_decompressForUse
  have h₁ := h.congr shape
  rw [quicklistEditNode, readZl_eq rawAt_decompressForUse (h₁.getElem? hX)]
  refine Mirrors.map (R := fun z' => q.Retiled (X ++ z' :: Y)) ((one.mirrors_same).andThen ?_) _ fun _ _ h' => h'
  rintro z' _ ⟨rfl, hcount⟩
  have hlt : i < ((quicklistDecompressNodeForUse q i).modifyNode i fun nd => (nd.setZl z').addCount 1).nodes.length := by
    rw [length_modifyNode, h₁.length_eq, length_append, length_cons]
    omega
  obtain ⟨q', hq', shape'⟩ := (recompressOnly_shape hlt).returns
  rw [hq']
  refine ⟨⟨?_, ?_⟩, shape'.count.trans shape.count, shape'.fill.trans shape.fill⟩
  · have hnode : ((nodeOf z).setZl z').addCount 1 = nodeOf z' := by
      have hmod : (((z.length % 2 ^ 16 : Nat) + 1 : Int) % 2 ^ 16).toNat = z'.length % 2 ^ 16 := by omega
      exact congrArg (fun k => ({ (nodeOf z').bare with count := k } : QuicklistNode)) hmod
    rw [shape'.bare, bare_modifyNode (g := fun nd => (nd.setZl z').addCount 1) fun _ => rfl, h₁.bare, map_append,
      map_cons, modify_at (by rwa [length_map]), hnode, map_append, map_cons]
  · rw [shape'.len, shape'.length, length_modifyNode]
    exact h₁.len

lemma insertNode_tiles (lzf : Nat → Bool) (after : Bool) (h : q.Tiles (X ++ Y)) (hi : i < q.nodes.length)
    (hX : X.length = if after then i + 1 else i) :
    Sat NoFault (q.Retiled (X ++ n :: Y))
      (quicklistInsertNode ⟨lzf, false⟩ q (some i) (nodeOf n) after) := by
  refine (insertNode_shape lzf after (nodeOf n) h.len hi).mono ?_
  rintro q' ⟨bare, len, count, fill⟩
  refine ⟨⟨bare.trans ?_, len⟩, count, fill⟩
  rw [h.bare, map_append, insertIdx_at (by rwa [length_map]), map_append]
  rfl

lemma splitInsert_tiles (lzf : Nat → Bool) (h : q.Tiles (L.reverse ++ z :: R)) (hL : L.length = i) (offset : Int)
    (value : Bytes) (after : Bool) :
    Mirrors q.Retiled (splitZl q.fill L z R offset value after)
      (quicklistSplitInsert ⟨lzf, false⟩ q i offset value after) := by
  have shape : q.SameShape (quicklistDecompressNodeForUse q i) := sameShape_decompressForUse
  have h₁ := h.congr shape
  have hL' : L.reverse.length = i := by rwa [length_reverse]
  rw [quicklistSplitInsert, readZl_eq rawAt_decompressForUse (h₁.getElem? hL')]
  refine (Mirrors.same _).bind ?_
  rintro ⟨kept, taken⟩ _ rfl
  refine (ziplistPush_length taken (clip value) after).mirrors_same.bind ?_
  rintro new _ ⟨rfl, hlength⟩
  generalize hq₂ : (quicklistDecompressNodeForUse q i).modifyNode i _ = q₂
  have h₂ : q.Retiled (L.reverse ++ kept :: R) q₂ := by
    rw [← hq₂]
    refine ⟨⟨?_, ?_⟩, shape.count, shape.fill⟩
    · rw [bare_modifyNode (g := fun nd => { nd.setZl kept with count := ziplistLen kept % 2 ^ 16 }) fun _ => rfl,
        h₁.bare, map_append, map_cons, modify_at (by rwa [length_map]), map_append]
      rfl
    · rw [length_modifyNode]
      exact h₁.len
  have hlt : i < q₂.nodes.length := by
    rw [h₂.tiles.length_eq, length_append, length_cons]
    omega
  have hnew : quicklistCreateNode new (ziplistBlobLen new) ((ziplistLen taken + 1) % 2 ^ 16) = nodeOf new := by
    rw [nodeOf, ziplistLen, ziplistLen, hlength]
  rw [hnew]
  cases after with
  | true =>
    have h₂' : q₂.Tiles ((L.reverse ++ [kept]) ++ R) := by rw [append_assoc]; exact h₂.tiles
    refine (insertNode_tiles lzf true h₂' hlt (by simp [hL])).mirrors fun q₃ h₃ => ?_
    rw [append_assoc] at h₃
    have h₃ := h₂.trans h₃
    rw [← h₃.fill]
    exact (mergeNodes_tiles lzf h₃.tiles hL).mono fun _ _ => h₃.trans
  | false =>
    refine (insertNode_tiles lzf false h₂.tiles hlt (by simp [hL])).mirrors fun q₃ h₃ => ?_
    have h₃ := h₂.trans h₃
    have h₃' : q₃.Tiles ((new :: L).reverse ++ kept :: R) := by
      rw [reverse_cons, append_assoc]
      exact h₃.tiles
    rw [← h₃.fill]
    exact (mergeNodes_tiles lzf h₃' (i := i + 1) (by simp [hL])).mono fun _ _ => h₃.trans

lemma allowInsert_node {nd} (hnd : q.nodes[i]? = some nd) (hz : q.bare[i]? = some (nodeOf z)) (fill : Int)
    (value : Bytes) : quicklistNodeAllowInsert (some nd) fill value.length = allows fill z value ∧
      nd.count = z.length % 2 ^ 16 := by
  rw [Quicklist.bare, getElem?_map, hnd, Option.map_some, Option.some.injEq] at hz
  have hsz : nd.sz = ziplistBlobLen z := congrArg sz hz
  have hcount : nd.count = z.length % 2 ^ 16 := congrArg count hz
  refine ⟨?_, hcount⟩
  rw [quicklistNodeAllowInsert, hsz, hcount]
  rfl

lemma insertAfter_eq (hp : p < z.length) (s : Bytes) :
    (match ziplistNext z p with
      | none => ziplistPush z s false
      | some p => ziplistInsert z p s) = ziplistInsert z (p + 1) s := by
  rw [ziplistNext]
  by_cases hnext : p + 1 < z.length
  · rw [if_pos hnext]
  · have hlast : z.length = p + 1 := by omega
    rw [if_neg hnext]
    rw [ziplistPush, if_neg Bool.false_ne_true, hlast]

lemma place_eq (env : QuicklistEnv) (q : Quicklist) {e nd} (zi : Nat) (value : Bytes)
    (after : Bool) (htail : e.offset ≠ nd.count) : quicklistPlace env q e nd zi value after =
      if quicklistNodeAllowInsert (some nd) q.fill value.length then
        if after then
          quicklistEditNode env q e.node fun zl =>
            match ziplistNext zl zi with
            | none => ziplistPush zl (clip value) false
            | some p => ziplistInsert zl p (clip value)
        else
          quicklistEditNode env q e.node fun zl => ziplistInsert zl zi (clip value)
      else if after = false ∧ e.offset = 0 ∧ (if e.node = 0 then none else q.nodes[e.node - 1]?).isSome then
        if quicklistNodeAllowInsert (if e.node = 0 then none else q.nodes[e.node - 1]?) q.fill value.length then
          quicklistEditNode env q (e.node - 1) fun zl => ziplistPush zl (clip value) false
        else do
          let zl ← ziplistPush ziplistNew (clip value) true
          quicklistInsertNode env q (some e.node) (quicklistCreateNode zl (ziplistBlobLen zl) 1) after
      else
        quicklistSplitInsert env q e.node e.offset value after := by
  rw [quicklistPlace]
  generalize (if e.node = 0 then none else q.nodes[e.node - 1]?) = prev
  by_cases hallow : quicklistNodeAllowInsert (some nd) q.fill value.length
  · cases after with
    | true =>
      rw [if_pos hallow]
      exact if_pos ⟨by simp [hallow], rfl⟩
    | false => simp [hallow]
  cases after with
  | true => simp [hallow, htail]
  | false =>
    by_cases hhead : e.offset = 0
    · cases prev with
      | none => simp [hallow, hhead]
      | some prev =>
        by_cases hprev : quicklistNodeAllowInsert (some prev) q.fill value.length
        · simp [hallow, hhead, hprev]
        · simp [hallow, hhead, hprev]
    · simp [hallow, hhead]

lemma place_tiles (lzf : Nat → Bool) {e nd} (h : q.Tiles (L.reverse ++ z :: R))
    (hL : L.length = e.node) (hnd : q.nodes[e.node]? = some nd) (hp : p < z.length) (fits : z.length < 2 ^ 16)
    (hoffset : OffsetOf e.offset p z.length) (value : Bytes) (after : Bool) :
    Mirrors q.Retiled (insertZl q.fill L z R p e.offset value after)
      (quicklistPlace ⟨lzf, false⟩ q e nd p value after) := by
  have hL' : L.reverse.length = e.node := by rwa [length_reverse]
  obtain ⟨hallow, hcount⟩ := allowInsert_node hnd (h.getElem? hL') q.fill value
  have htail : e.offset ≠ nd.count := by
    rw [OffsetOf] at hoffset
    omega
  rw [place_eq _ _ _ _ _ htail, insertZl, hallow]
  by_cases hfull : allows q.fill z value
  · rw [if_pos hfull, if_pos hfull]
    cases after with
    | true =>
      rw [if_pos rfl]
      exact editNode_tiles lzf h hL' (insertAfter_eq hp _) (ziplistInsert_length (by omega) _)
    | false => exact editNode_tiles lzf h hL' rfl (ziplistInsert_length (Nat.le_of_lt hp) _)
  rw [if_neg hfull, if_neg hfull]
  by_cases hhead : after = false ∧ e.offset = 0
  · obtain ⟨rfl, hzero⟩ := hhead
    rw [if_pos ⟨rfl, hzero⟩]
    cases L with
    | nil =>
      have hfirst : e.node = 0 := hL.symm
      rw [if_neg (by simp [hfirst]), hzero]
      exact splitInsert_tiles lzf h hL 0 value false
    | cons prev L =>
      have hnode : e.node ≠ 0 := by
        rw [← hL, length_cons]
        omega
      have hprev : L.reverse.length = e.node - 1 := by
        rw [← hL, length_cons, length_reverse, Nat.add_sub_cancel]
      have h' : q.Tiles (L.reverse ++ prev :: z :: R) := by simpa using h
      obtain ⟨pn, hpn, -⟩ := exists_node (h'.getElem? hprev)
      obtain ⟨hallow', -⟩ := allowInsert_node hpn (h'.getElem? hprev) q.fill value
      rw [if_neg hnode, hpn, if_pos ⟨rfl, hzero, rfl⟩, headZl, hallow']
      by_cases hroom : allows q.fill prev value
      · rw [if_pos hroom, if_pos hroom]
        exact editNode_tiles lzf h' hprev rfl (ziplistPush_length _ _ _)
      rw [if_neg hroom, if_neg hroom]
      refine Mirrors.map (R := fun new => q.Retiled ((prev :: L).reverse ++ new :: z :: R))
        ((ziplistPush_length _ _ _).mirrors_same.andThen ?_) _ fun _ _ h' => h'
      rintro new _ ⟨rfl, hlength⟩
      have hnew : quicklistCreateNode new (ziplistBlobLen new) 1 = nodeOf new := by
        rw [nodeOf, ziplistLen, hlength]
        rfl
      obtain ⟨q', hq', h''⟩ := (insertNode_tiles (n := new) lzf false h (List.getElem?_eq_some_iff.mp hnd).1 hL').returns
      rw [hnew, hq']
      exact h''
  · rw [if_neg hhead, if_neg (fun hand => hhead ⟨hand.1, hand.2.1⟩)]
    exact splitInsert_tiles lzf h hL e.offset value after

lemma insert_tiles (lzf : Nat → Bool) {e} (h : q.Tiles (L.reverse ++ z :: R)) (hL : L.length = e.node)
    (hzi : e.zi = some p) (hp : p < z.length) (fits : z.length < 2 ^ 16) (hoffset : OffsetOf e.offset p z.length)
    (value : Bytes) (after : Bool) :
    Mirrors (fun Z q' => q'.Tiles Z ∧ q'.count = q.count + 1) (insertZl q.fill L z R p e.offset value after)
      (quicklistInsert ⟨lzf, false⟩ q e value after) := by
  obtain ⟨nd, hnd, -⟩ := exists_node (h.getElem? ((length_reverse ..).trans hL))
  rw [quicklistInsert, hnd, hzi]
  exact (place_tiles lzf h hL hnd hp fits hoffset value after).andThen fun Z q' h' =>
    ⟨⟨h'.tiles.bare, h'.tiles.len⟩, congrArg (· + 1) h'.count⟩

end Simulation

section Edits

variable {R : Prop} {z : Ziplist} {p k num : Nat} {s : Bytes} {index : Int}

lemma longLen_zipEncode (big : Bool) (s : Bytes) : ZlEntry.longLen ⟨big, zipEncode s⟩ ≤ 20 + s.length := by
  rw [ZlEntry.longLen]
  cases hs : zipEncode s with
  | str t =>
    have htext := text_zipEncode s
    rw [hs] at htext
    obtain rfl : t = s := htext
    rw [ZlValue.lensize, ZlValue.len]
    split
    · omega
    · split <;> omega
  | int v =>
    have hsize : zipIntSize v ≤ 8 := by
      rw [zipIntSize]
      repeat' split
      all_goals omega
    rw [ZlValue.lensize, ZlValue.len]
    omega

lemma ziplistInsert_room (room : R → longBlobLen z + 20 + s.length < 2 ^ 32) (p : Nat) :
    Sat (NoRoom R) (fun z' => z'.texts = z.texts.take p ++ s :: z.texts.drop p ∧ ziplistBlobLen z' < 2 ^ 32 ∧
      longBlobLen z' ≤ longBlobLen z + 20 + s.length) (ziplistInsert z p s) := by
  have hspec := ziplistInsert_spec z p s
  rw [ziplistInsert] at hspec ⊢
  generalize hz' : z.take p ++ _ :: storePrevlen _ (z.drop p) = z' at hspec ⊢
  have hlong : longBlobLen z' ≤ longBlobLen z + 20 + s.length := by
    have hentry := longLen_zipEncode (bigPrevlen (prevlenAt z p)) s
    have hsum : (z.map ZlEntry.longLen).sum =
        ((z.take p).map ZlEntry.longLen).sum + ((z.drop p).map ZlEntry.longLen).sum := by
      rw [← sum_append, ← map_append, take_append_drop]
    rw [← hz', longBlobLen, longBlobLen, map_append, map_cons, longLen_storePrevlen, sum_append,
      sum_cons]
    omega
  rw [ziplistResize] at hspec ⊢
  split
  · have hle := blobLen_le_longBlobLen z'
    exact ⟨rfl, fun hR => absurd (room hR) (by omega)⟩
  · rename_i hsmall
    rw [if_neg hsmall] at hspec
    exact ⟨hspec.1, hspec.2, hlong⟩

lemma ziplistPush_room (room : R → longBlobLen z + 20 + s.length < 2 ^ 32) (head : Bool) :
    Sat (NoRoom R) (fun z' => z'.texts = (if head then s :: z.texts else z.texts ++ [s]) ∧ ziplistBlobLen z' < 2 ^ 32 ∧
      longBlobLen z' ≤ longBlobLen z + 20 + s.length) (ziplistPush z s head) := by
  refine (ziplistInsert_room room _).mono fun z' ⟨htexts, hsmall, hlong⟩ => ⟨?_, hsmall, hlong⟩
  rw [htexts]
  cases head with
  | true => rfl
  | false =>
    rw [if_neg Bool.false_ne_true, ← length_texts, take_length, drop_length]
    rfl

lemma ziplistDeleteRange_room (small : ziplistBlobLen z < 2 ^ 32) (room : R → longBlobLen z < 2 ^ 32)
    (hindex : ziplistIndex z index = some k ∨ ziplistIndex z index = none ∧ z.length ≤ k) (num : Nat) :
    Sat (NoRoom R) (fun z' => z'.texts = z.texts.take k ++ z.texts.drop (k + num) ∧ ziplistBlobLen z' < 2 ^ 32 ∧
      longBlobLen z' ≤ longBlobLen z) (ziplistDeleteRange z index num) := by
  rw [ziplistDeleteRange]
  obtain hk | ⟨hnone, hk⟩ := hindex
  · rw [hk]
    exact ziplistDelete_room small room
  · rw [hnone]
    refine ⟨?_, small, le_rfl⟩
    rw [take_of_length_le (by rwa [length_texts]), drop_eq_nil_of_le (by rw [length_texts]; omega),
      append_nil]

lemma splitNode_room (offset : Int) (after : Bool) (small : ziplistBlobLen z < 2 ^ 32)
    (room : R → longBlobLen z < 2 ^ 32) {k₁ k₂ : Nat}
    (h₁ : ziplistIndex z (if after then offset + 1 else 0) = some k₁ ∨
      ziplistIndex z (if after then offset + 1 else 0) = none ∧ z.length ≤ k₁)
    (h₂ : ziplistIndex z (if after then 0 else offset) = some k₂ ∨
      ziplistIndex z (if after then 0 else offset) = none ∧ z.length ≤ k₂) :
    Sat (NoRoom R)
      (fun r => r.1.texts = z.texts.take k₁ ++ z.texts.drop (k₁ + uintOfInt (if after then -1 else offset)) ∧
        r.2.texts = z.texts.take k₂ ++ z.texts.drop (k₂ + uintOfInt (if after then offset + 1 else -1)) ∧
        ziplistBlobLen r.1 < 2 ^ 32 ∧ longBlobLen r.1 ≤ longBlobLen z ∧ longBlobLen r.2 ≤ longBlobLen z)
      (quicklistSplitNode z offset after) := by
  refine (ziplistDeleteRange_room small room h₁ _).bind fun kept ⟨htexts₁, hsmall₁, hlong₁⟩ => ?_
  refine (ziplistDeleteRange_room small room h₂ _).bind fun taken ⟨htexts₂, _, hlong₂⟩ => ?_
  exact ⟨htexts₁, htexts₂, hsmall₁, hlong₁, hlong₂⟩

lemma uintOfInt_natCast {n : Nat} (hn : n < 2 ^ 32) : uintOfInt n = n := by
  rw [uintOfInt]
  omega

lemma le_uintOfInt (hneg : index < 0) (hlow : -2 ^ 31 ≤ index) : 2 ^ 31 ≤ uintOfInt index := by
  rw [uintOfInt]
  omega

lemma drop_uintOfInt (hneg : index < 0) (hlow : -2 ^ 31 ≤ index) (fits : z.length < 2 ^ 16) (k : Nat) :
    z.texts.drop (k + uintOfInt index) = [] := by
  have hle := le_uintOfInt hneg hlow
  exact drop_eq_nil_of_le (by rw [length_texts]; omega)

lemma ziplistIndex_natCast (hk : k < z.length) : ziplistIndex z k = some k := by
  rw [ziplistIndex, if_neg (by omega), Int.toNat_natCast, if_pos hk]

lemma ziplistIndex_neg (hk : k < z.length) : ziplistIndex z (k - z.length) = some k := by
  rw [ziplistIndex, if_pos (by omega)]
  rw [if_pos (by omega)]
  congr 1
  omega

lemma ziplistIndex_offset (hp : p < z.length) (hoffset : OffsetOf index p z.length) : ziplistIndex z index = some p := by
  rcases hoffset with rfl | rfl
  · exact ziplistIndex_natCast hp
  · exact ziplistIndex_neg hp

section

variable (small : ziplistBlobLen z < 2 ^ 32) (room : R → longBlobLen z < 2 ^ 32)
include small room

lemma splitNode_texts (hp : p < z.length) (fits : z.length < 2 ^ 16) (hoffset : OffsetOf index p z.length) {after : Bool}
    (hlast : index = -1 → after = false) :
    Sat (NoRoom R)
      (fun r => r.1.texts = (if after then z.texts.take (p + 1) else z.texts.drop (uintOfInt index)) ∧
        r.2.texts = (if after then z.texts.drop (uintOfInt (index + 1)) else z.texts.take p) ∧
        ziplistBlobLen r.1 < 2 ^ 32 ∧ longBlobLen r.1 ≤ longBlobLen z ∧ longBlobLen r.2 ≤ longBlobLen z)
      (quicklistSplitNode z index after) := by
  have hzero : ziplistIndex z 0 = some 0 := ziplistIndex_natCast (Nat.zero_lt_of_lt hp)
  have hall (k : Nat) : z.texts.drop (k + uintOfInt (-1)) = [] := drop_uintOfInt (by decide) (by decide) fits k
  cases after with
  | true =>
    have hnext : ziplistIndex z (index + 1) = some (p + 1) ∨
        ziplistIndex z (index + 1) = none ∧ z.length ≤ p + 1 := by
      have hne : index ≠ -1 := fun heq => Bool.noConfusion (hlast heq)
      rw [OffsetOf] at hoffset
      by_cases hlt : p + 1 < z.length
      · refine .inl (ziplistIndex_offset hlt ?_)
        rw [OffsetOf]
        omega
      · refine .inr ⟨?_, by omega⟩
        rw [ziplistIndex, if_neg (by omega), if_neg (by omega)]
    refine (splitNode_room index true small room hnext (.inl hzero)).mono ?_
    rintro r ⟨htexts₁, htexts₂, hrest⟩
    simp only [if_true, hall, append_nil, Nat.zero_add, take_zero, nil_append] at htexts₁ htexts₂ ⊢
    exact ⟨htexts₁, htexts₂, hrest⟩
  | false =>
    refine (splitNode_room index false small room (.inl hzero) (.inl (ziplistIndex_offset hp hoffset))).mono ?_
    rintro r ⟨htexts₁, htexts₂, hrest⟩
    simp only [Bool.false_eq_true, if_false, hall, append_nil, Nat.zero_add, take_zero, nil_append]
      at htexts₁ htexts₂ ⊢
    exact ⟨htexts₁, htexts₂, hrest⟩

lemma splitNode_last (hne : z ≠ [])
    (fits : z.length < 2 ^ 16) : Sat (NoRoom R) (fun r => r = ([], z)) (quicklistSplitNode z (-1) true) := by
  have hzero : ziplistIndex z 0 = some 0 := ziplistIndex_natCast (length_pos_of_ne_nil hne)
  have hkeep : ziplistDeleteRange z 0 0 = .ok z := by
    rw [ziplistDeleteRange, hzero]
    rfl
  refine (ziplistDeleteRange_room small room (.inl hzero) _).bind ?_
  rintro kept ⟨htexts, -, -⟩
  have hkept : kept = [] := by
    rw [drop_uintOfInt (by decide) (by decide) fits, take_zero, nil_append] at htexts
    rw [← length_eq_zero_iff, ← length_texts, htexts, length_nil]
  show Sat _ _ (ziplistDeleteRange z 0 0 >>= _)
  rw [hkeep, hkept]
  rfl

end

end Edits

section Result

variable {room : Prop} {fill offset : Int} {z n t : Ziplist} {X Y Z L R : List Ziplist} {p : Nat} {value : Bytes}
  {after : Bool} {T l : List Bytes}

/-- The ziplist that takes the value, if one that is there does. -/
def taker (fill : Int) (L : List Ziplist) (z : Ziplist) (offset : Int) (value : Bytes) (after : Bool) : Option Ziplist :=
  if allows fill z value then some z
  else if after = false ∧ offset = 0 then L.head?.filter (allows fill · value)
  else none

/-- Where an insertion is right. The value is shorter than `2 ^ 32` bytes, and the node that takes it can count it. A node that is
full is split at an offset from its head; or at the offset `-1` from its end, if all of its strings are equal to the
value and what is left of the node, which is nothing, is joined with the node behind it. -/
def InsertsRight (fill : Int) (L : List Ziplist) (z : Ziplist) (R : List Ziplist) (offset : Int) (value : Bytes)
    (after : Bool) : Prop :=
  value.length < 2 ^ 32 ∧ (∀ t, taker fill L z offset value after = some t → t.length + 1 < 2 ^ 16) ∧
    (allows fill z value = false → 0 ≤ offset ∨ after = true ∧ offset = -1 ∧ (∀ t ∈ z.texts, t = value) ∧
      ∃ new, ziplistPush z value true = .ok new ∧ Heals fill L new R)

/-- The strings with the value next to the one at position `p` of the ziplist. -/
def inserted (L : List Ziplist) (z : Ziplist) (R : List Ziplist) (p : Nat) (value : Bytes) (after : Bool) : List Bytes :=
  textsOf L.reverse ++ (z.texts.take (if after then p + 1 else p) ++ value :: z.texts.drop (if after then p + 1 else p)) ++
    textsOf R

/-- Nodes that hold the ziplists store the strings. -/
def Stored (Z : List Ziplist) (T : List Bytes) : Prop := (∀ y ∈ Z, Sound False y) ∧ textsOf Z = T

lemma Sound.of (h : Sound room z) : Sound False z := ⟨⟨h.nonempty, h.small, False.elim⟩, h.fits⟩

lemma sound_of_texts (htexts : z.texts.length = p + 1) (hfits : p + 1 < 2 ^ 16) (hsmall : ziplistBlobLen z < 2 ^ 32)
    (hspare : room → longBlobLen z < 2 ^ 31) : Sound room z := by
  rw [length_texts] at htexts
  exact ⟨⟨ne_nil_of_length_pos (by omega), hsmall, hspare⟩, by omega⟩

lemma stored_at (hX : ∀ y ∈ X, Sound room y) (hz : Sound False z) (hY : ∀ y ∈ Y, Sound room y)
    (htexts : textsOf X ++ z.texts ++ textsOf Y = T) : Stored (X ++ z :: Y) T := by
  refine ⟨forall_mem_append.mpr ⟨fun y hy => (hX y hy).of, forall_mem_cons.mpr ⟨hz, fun y hy => (hY y hy).of⟩⟩, ?_⟩
  rw [textsOf_append, textsOf_cons, ← append_assoc, htexts]

/-- Ziplists around the one of an entry and a value, with room for it if there is any. -/
structure Ready (room : Prop) (L : List Ziplist) (z : Ziplist) (R : List Ziplist) (value : Bytes) : Prop where
  left : ∀ y ∈ L, Sound room y
  here : Sound room z
  right : ∀ y ∈ R, Sound room y
  spareLeft : room → ∀ y ∈ L, longBlobLen y + 20 + value.length < 2 ^ 31
  spare : room → longBlobLen z + 20 + value.length < 2 ^ 31
  short : value.length < 2 ^ 32

section

variable (ready : Ready room L z R value)
include ready

lemma Ready.reversed : ∀ y ∈ L.reverse, Sound room y :=
  fun y hy => ready.left y (mem_reverse.mp hy)

lemma Ready.longBlobLen_lt : room → longBlobLen z < 2 ^ 32 := by
  intro r
  have hlt := ready.spare r
  omega

lemma Ready.of : Ready False L z R value :=
  ⟨fun y hy => (ready.left y hy).of, ready.here.of, fun y hy => (ready.right y hy).of, False.elim, False.elim, ready.short⟩

lemma insert_here (hp : p < z.length) (hfits : z.length + 1 < 2 ^ 16) (after : Bool) :
    Sat (NoRoom room) (fun Z => Stored Z (inserted L z R p value after))
      ((ziplistInsert z (if after then p + 1 else p) (clip value)).map fun z => L.reverse ++ z :: R) := by
  rw [sat_map, clip_eq ready.short]
  refine (ziplistInsert_room (fun r => ?_) _).mono fun z' ⟨htexts, hsmall, _⟩ => ?_
  · have hlt := ready.spare r
    omega
  · refine stored_at ready.reversed ?_ ready.right (by rw [htexts]; rfl)
    refine sound_of_texts (p := z.length) ?_ hfits hsmall False.elim
    rw [htexts, length_append, length_cons, length_take, length_drop, length_texts]
    split <;> omega

end

lemma splitJoin_rule {F P} {kept new} (rule : JoinRule fill F P) (hL : ∀ y ∈ L, P y) (hkept : P kept) (hnew : P new)
    (hR : ∀ y ∈ R, P y) (after : Bool) :
    Sat F (fun Z => (∀ y ∈ Z, P y) ∧ textsOf Z = textsOf L.reverse ++
        (if after then kept.texts ++ new.texts else new.texts ++ kept.texts) ++ textsOf R)
      (if after then joinAround fill L kept (new :: R) else joinAround fill (new :: L) kept R) := by
  cases after with
  | true =>
    refine (joinAround_rule rule hL hkept (forall_mem_cons.mpr ⟨hnew, hR⟩)).mono fun Z ⟨hZ, texts⟩ => ⟨hZ, texts.trans ?_⟩
    simp
  | false =>
    refine (joinAround_rule rule (forall_mem_cons.mpr ⟨hnew, hL⟩) hkept hR).mono fun Z ⟨hZ, texts⟩ => ⟨hZ, texts.trans ?_⟩
    simp

lemma split_forward (fill : Int) (ready : Ready room L z R value) (hp : p < z.length) (after : Bool) :
    Sat (NoRoom room) (fun Z => Stored Z (inserted L z R p value after)) (splitZl fill L z R p value after) := by
  have hz := ready.here
  have hL := ready.left
  have hR := ready.right
  have spare := ready.spare
  refine (splitNode_texts hz.small ready.longBlobLen_lt hp hz.fits (.inl rfl) (by omega)).bind ?_
  rintro ⟨kept, taken⟩ ⟨hkept, htaken, hsmall, hlong, hlong'⟩
  have hfits := hz.fits
  rw [uintOfInt_natCast (by omega)] at hkept
  rw [show uintOfInt (p + 1) = p + 1 from uintOfInt_natCast (n := p + 1) (by omega)] at htaken
  dsimp only at hkept htaken hsmall hlong hlong' ⊢
  rw [clip_eq ready.short]
  refine (ziplistPush_room (fun r => ?_) after).bind ?_
  · have hlt := spare r
    omega
  rintro new ⟨hnew, hsmall', hlong''⟩
  have hkeptlen : kept.length = if after then p + 1 else z.length - p := by
    rw [← length_texts, hkept]
    split
    · rw [length_take, length_texts]
      omega
    · rw [length_drop, length_texts]
  have soundKept : Sound room kept := by
    refine ⟨⟨ne_nil_of_length_pos ?_, hsmall, fun r => ?_⟩, ?_⟩
    · rw [hkeptlen]
      split <;> omega
    · have hlt := spare r
      omega
    · rw [hkeptlen]
      split <;> omega
  have soundNew : Sound room new := by
    refine sound_of_texts (p := taken.length) ?_ ?_ hsmall' fun r => ?_
    · rw [hnew]
      split
      · rw [length_cons, length_texts]
      · rw [length_append, length_texts, length_singleton]
    · rw [← length_texts, htaken]
      split
      · rw [length_drop, length_texts]
        omega
      · rw [length_take]
        omega
    · have hlt := spare r
      omega
  refine (splitJoin_rule joinPair_sound hL soundKept soundNew hR after).mono fun Z ⟨hZ, textsZ⟩ => ?_
  refine ⟨fun y hy => (hZ y hy).of, textsZ.trans ?_⟩
  rw [inserted, hkept, hnew, htaken]
  cases after <;> simp

lemma insert_head (ready : Ready room L z R value) (hz : 0 < z.length)
    (hfits : ∀ t, L.head?.filter (allows fill · value) = some t → t.length + 1 < 2 ^ 16) :
    Sat (NoRoom room) (fun Z => Stored Z (inserted L z R 0 value false)) (headZl fill z R value L) := by
  cases L with
  | nil => exact split_forward fill ready hz false
  | cons prev L =>
    obtain ⟨hprev, hL⟩ := forall_mem_cons.mp ready.left
    have hL' : ∀ y ∈ L.reverse, Sound room y := fun y hy => hL y (mem_reverse.mp hy)
    have hR : ∀ y ∈ z :: R, Sound room y := forall_mem_cons.mpr ⟨ready.here, ready.right⟩
    rw [headZl, clip_eq ready.short]
    by_cases hallow : allows fill prev value
    · rw [if_pos hallow, sat_map]
      refine (ziplistPush_room (fun r => ?_) false).mono fun prev' ⟨htexts, hsmall, _⟩ => ?_
      · have hlt := ready.spareLeft r prev (mem_cons_self ..)
        omega
      · rw [if_neg Bool.false_ne_true] at htexts
        refine stored_at hL' (sound_of_texts (p := prev.length) ?_ ?_ hsmall False.elim) hR ?_
        · rw [htexts, length_append, length_texts, length_singleton]
        · exact hfits prev (by rw [head?_cons, Option.filter_some, if_pos hallow])
        · rw [htexts, inserted]
          simp
    rw [if_neg hallow, sat_map]
    refine (ziplistPush_room (fun r => ?_) true).mono fun new ⟨htexts, hsmall, _⟩ => ?_
    · have hlt := ready.spareLeft r prev (mem_cons_self ..)
      have hnew : longBlobLen ziplistNew = 11 := rfl
      omega
    · refine stored_at ready.reversed (sound_of_texts (p := 0) ?_ (by decide) hsmall False.elim) hR ?_
      · rw [htexts]
        rfl
      · rw [htexts, inserted]
        simp [ziplistNew, Ziplist.texts]

lemma cons_eq_append {v : Bytes} (l : List Bytes) : v :: l = l ++ [v] ↔ ∀ t ∈ l, t = v := by
  induction l with
  | nil => simp
  | cons t l ih =>
    rw [cons_append, List.cons.injEq, forall_mem_cons]
    refine ⟨?_, ?_⟩
    · rintro ⟨rfl, htail⟩
      exact ⟨rfl, ih.mp htail⟩
    · rintro ⟨rfl, hall⟩
      exact ⟨rfl, ih.mpr hall⟩

lemma split_last (ready : Ready room L z R value) (hp : p + 1 = z.length) (hall : ∀ t ∈ z.texts, t = value) {new : Ziplist}
    (hnew : ziplistPush z value true = .ok new) (heals : Heals fill L new R) :
    Sat (NoRoom room) (fun Z => Stored Z (inserted L z R p value true)) (splitZl fill L z R (-1) value true) := by
  have hz := ready.here
  refine (splitNode_last hz.small ready.longBlobLen_lt hz.nonempty hz.fits).bind ?_
  rintro _ rfl
  dsimp only
  obtain ⟨htexts, hsmall, hlong⟩ := (ziplistPush_room (R := room) (fun r => by
    have hlt := ready.spare r
    omega) true).of_eq hnew
  rw [if_pos rfl] at htexts
  have hne : new ≠ [] := ne_nil_of_length_pos (by rw [← length_texts, htexts, length_cons]; omega)
  have sturdy : Sturdy room new := ⟨hne, hsmall, fun r => by
    have hlt := ready.spare r
    omega⟩
  rw [clip_eq ready.short, hnew, ok_bind]
  refine (joinAround_heals ready.left sturdy ready.right heals).mono fun Z ⟨hZ, textsZ⟩ => ?_
  refine ⟨fun y hy => (hZ y hy).of, textsZ.trans ?_⟩
  have hlast : z.texts.length = p + 1 := by rw [length_texts, hp]
  rw [inserted, if_pos rfl, ← hlast, take_length, drop_length, textsOf_append, textsOf_cons, htexts,
    (cons_eq_append z.texts).mpr hall, append_assoc, append_assoc, append_assoc]

lemma insertZl_right (ready : Ready room L z R value) (hp : p < z.length) (hoffset : OffsetOf offset p z.length)
    (right : InsertsRight fill L z R offset value after) :
    Sat (NoRoom room) (fun Z => Stored Z (inserted L z R p value after)) (insertZl fill L z R p offset value after) := by
  obtain ⟨-, hfits, hfull⟩ := right
  rw [taker] at hfits
  rw [insertZl]
  by_cases hallow : allows fill z value
  · rw [if_pos hallow]
    rw [if_pos hallow] at hfits
    exact insert_here ready hp (hfits z rfl) after
  rw [if_neg hallow]
  rw [if_neg hallow] at hfits
  rw [OffsetOf] at hoffset
  by_cases hhead : after = false ∧ offset = 0
  · obtain ⟨rfl, rfl⟩ := hhead
    obtain rfl : p = 0 := by omega
    exact insert_head ready hp hfits
  rw [if_neg hhead]
  rcases hfull (Bool.eq_false_iff.mpr hallow) with hpos | ⟨rfl, rfl, hall, new, hnew, heals⟩
  · obtain rfl : offset = p := by omega
    exact split_forward fill ready hp after
  · exact split_last ready (by omega) hall hnew heals

abbrev InsertFault (f : Fault) : Prop := f = .overflow ∨ f = .badAccess

lemma insertFault_of {f : Fault} (h : NoRoom False f) : InsertFault f := .inl h.1

lemma length_inserted (hp : p < z.length) : (inserted L z R p value after).length =
    (textsOf L.reverse).length + (z.length + 1) + (textsOf R).length := by
  rw [inserted]
  simp only [length_append, length_cons, length_take, length_drop, length_texts]
  split <;> omega

lemma not_stored_of_length (hz : z ∈ Z) (hlen : 2 ^ 16 ≤ z.length) : ¬ Stored Z T :=
  fun stored => absurd (stored.1 z hz).fits (Nat.not_lt.mpr hlen)

lemma not_stored_of_lost (hp : p < z.length) (htexts : textsOf Z = textsOf L.reverse ++ T ++ textsOf R)
    (hlost : T.length ≤ z.length) : ¬ Stored Z (inserted L z R p value after) := by
  intro stored
  have hlen := congrArg List.length (htexts.symm.trans stored.2)
  rw [length_inserted hp, length_append, length_append] at hlen
  omega

lemma split_lost (fill : Int) (ready : Ready False L z R value) (hp : p < z.length)
    (hlast : after = true → p + 1 < z.length) :
    Sat InsertFault (fun Z => ¬ Stored Z (inserted L z R p value after)) (splitZl fill L z R (p - z.length) value after) := by
  have hz := ready.here
  have hfits := hz.fits
  refine ((splitNode_texts hz.small ready.longBlobLen_lt hp hfits (.inr rfl) ?_).weaken insertFault_of).bind ?_
  · intro heq
    cases after with
    | true =>
      have hlt := hlast rfl
      omega
    | false => rfl
  rintro ⟨kept, taken⟩ ⟨hkept, htaken, -⟩
  rw [clip_eq ready.short]
  refine ((ziplistPush_spec taken value after).weaken .inl).bind ?_
  rintro new ⟨hnew, -⟩
  refine (splitJoin_rule joinPair_any (fun _ _ => trivial) trivial trivial (fun _ _ => trivial) after).mono ?_
  rintro Z ⟨-, textsZ⟩
  refine not_stored_of_lost (T := z.texts.take (if after then p + 1 else p) ++ [value]) hp (textsZ.trans ?_) ?_
  · have hmany (x : Int) (hneg : x < 0) (hlow : -2 ^ 31 ≤ x) : z.texts.drop (uintOfInt x) = [] := by
      rw [← drop_uintOfInt hneg hlow hfits 0, Nat.zero_add]
    rw [hkept, hnew, htaken]
    cases after with
    | true =>
      have hlt := hlast rfl
      simp [hmany (p - z.length + 1) (by omega) (by omega)]
    | false => simp [hmany (p - z.length) (by omega) (by omega)]
  · rw [length_append, length_take]
    cases after with
    | true => exact (Nat.succ_le_succ (Nat.min_le_left ..)).trans (hlast rfl)
    | false => exact (Nat.succ_le_succ (Nat.min_le_left ..)).trans hp

lemma split_swapped (ready : Ready False L z R value) (hp : p + 1 = z.length)
    (wrong : ¬ ((∀ t ∈ z.texts, t = value) ∧ ∃ new, ziplistPush z value true = .ok new ∧ Heals fill L new R)) :
    Sat InsertFault (fun Z => ¬ Stored Z (inserted L z R p value true)) (splitZl fill L z R (-1) value true) := by
  have hz := ready.here
  refine ((splitNode_last hz.small ready.longBlobLen_lt hz.nonempty hz.fits).weaken insertFault_of).bind ?_
  rintro _ rfl
  rw [clip_eq ready.short]
  refine ((ziplistPush_spec z value true).weaken .inl).bind_eq ?_
  rintro new hnew ⟨htexts, -⟩
  by_cases hall : ∀ t ∈ z.texts, t = value
  · have stays : ¬ Heals fill L new R := fun heals => wrong ⟨hall, new, hnew, heals⟩
    exact (joinAround_stays stays).mono fun Z hempty stored => (stored.1 [] hempty).nonempty rfl
  refine (joinAround_rule joinPair_any (fun _ _ => trivial) trivial fun _ _ => trivial).mono fun Z ⟨_, textsZ⟩ => ?_
  intro stored
  have hlast : z.texts.length = p + 1 := by rw [length_texts, hp]
  have heq := textsZ.symm.trans stored.2
  rw [inserted, if_pos rfl, ← hlast, take_length, drop_length, textsOf_append, textsOf_cons, textsOf_cons,
    htexts, append_assoc, append_cancel_left_eq] at heq
  have hnil : Ziplist.texts [] = [] := rfl
  rw [hnil, nil_append, append_cancel_right_eq] at heq
  exact hall ((cons_eq_append z.texts).mp heq)

lemma insertZl_wrong (ready : Ready False L z R value) (hp : p < z.length) (hoffset : OffsetOf offset p z.length)
    (wrong : ¬ InsertsRight fill L z R offset value after) :
    Sat InsertFault (fun Z => ¬ Stored Z (inserted L z R p value after)) (insertZl fill L z R p offset value after) := by
  rw [InsertsRight, not_and, not_and, taker] at wrong
  have wrong := wrong ready.short
  rw [insertZl]
  by_cases hallow : allows fill z value
  · rw [if_pos hallow] at wrong ⊢
    have hlen : 2 ^ 16 ≤ z.length + 1 := by
      by_contra hlt
      refine wrong (fun t ht => ?_) (fun hfull => absurd hallow (by rw [hfull]; exact Bool.false_ne_true))
      cases ht
      omega
    rw [sat_map]
    refine ((ziplistInsert_length ?_ _).weaken .inl).mono fun z' hz' => ?_
    · split <;> omega
    · exact not_stored_of_length (mem_append_right _ (mem_cons_self ..)) (by omega)
  rw [if_neg hallow] at wrong ⊢
  by_cases hhead : after = false ∧ offset = 0
  · obtain ⟨rfl, rfl⟩ := hhead
    rw [if_pos ⟨rfl, rfl⟩] at wrong ⊢
    obtain ⟨t, ht, hlen⟩ : ∃ t, L.head?.filter (allows fill · value) = some t ∧ 2 ^ 16 ≤ t.length + 1 := by
      by_contra hnone
      refine wrong (fun t ht => ?_) (fun _ => .inl (le_refl 0))
      by_contra hlt
      exact hnone ⟨t, ht, by omega⟩
    obtain ⟨hmem, hroom⟩ := Option.filter_eq_some_iff.mp ht
    obtain ⟨L, rfl⟩ : ∃ L', L = t :: L' := head?_eq_some_iff.mp hmem
    rw [headZl, if_pos hroom, sat_map]
    refine ((ziplistPush_length t _ _).weaken .inl).mono fun z' hz' => ?_
    exact not_stored_of_length (mem_append_right _ (mem_cons_self ..)) (by omega)
  · rw [if_neg hhead] at wrong ⊢
    have hsplit := wrong (fun t ht => nomatch ht)
    rw [Classical.not_imp, not_or] at hsplit
    obtain ⟨-, hneg, hlost⟩ := hsplit
    have hback : offset = p - z.length := by
      rw [OffsetOf] at hoffset
      omega
    by_cases hlast : after = true ∧ p + 1 = z.length
    · obtain ⟨rfl, hp'⟩ := hlast
      obtain rfl : offset = -1 := by omega
      exact split_swapped ready hp' fun hand => hlost ⟨rfl, rfl, hand⟩
    · rw [hback]
      refine split_lost fill ready hp fun hafter => ?_
      have hne : p + 1 ≠ z.length := fun heq => hlast ⟨hafter, heq⟩
      omega

lemma insertZl_fault (fill : Int) (L : List Ziplist) (z : Ziplist) (R : List Ziplist) (p : Nat) (offset : Int)
    (value : Bytes) (after : Bool) : Sat InsertFault (fun _ => True) (insertZl fill L z R p offset value after) := by
  have hinsert (z : Ziplist) (p : Nat) : Sat InsertFault (fun _ => True) (ziplistInsert z p (clip value)) :=
    ((ziplistInsert_spec z p _).weaken .inl).mono fun _ _ => trivial
  have hpush (z : Ziplist) (head : Bool) : Sat InsertFault (fun _ => True) (ziplistPush z (clip value) head) := hinsert z _
  have hsplit (L : List Ziplist) (offset : Int) (after : Bool) :
      Sat InsertFault (fun _ => True) (splitZl fill L z R offset value after) := by
    refine Sat.bind (P := fun _ => True) ?_ fun r _ => ?_
    · refine ((ziplistDeleteRange_fault z _ _).weaken .inl).bind fun kept _ => ?_
      exact ((ziplistDeleteRange_fault z _ _).weaken .inl).bind fun taken _ => trivial
    · refine (hpush r.2 after).bind fun new _ => ?_
      exact (splitJoin_rule joinPair_any (fun _ _ => trivial) trivial trivial (fun _ _ => trivial) after).mono fun _ _ => trivial
  rw [insertZl]
  split
  · exact sat_map.mpr (hinsert z _)
  split
  · cases L with
    | nil => exact hsplit ..
    | cons prev L =>
      rw [headZl]
      split
      · exact sat_map.mpr (hpush prev _)
      · exact sat_map.mpr (hpush _ _)
  · exact hsplit ..

end Result

section Insert

variable {lzf : Nat → Bool} {q q₀ q' : Quicklist} {l T : List Bytes} {i p : Nat} {nd : QuicklistNode} {Z : List Ziplist}
  {value : Bytes}

/-- The ziplists before a node, the nearest first. -/
def Quicklist.left (q : Quicklist) (i : Nat) : List Ziplist := ((q.bare.take i).map QuicklistNode.zl).reverse

def Quicklist.right (q : Quicklist) (i : Nat) : List Ziplist := (q.bare.drop (i + 1)).map QuicklistNode.zl

/-- No ziplist comes near `2 ^ 32` bytes when the value is put into it. -/
def Quicklist.RoomyFor (q : Quicklist) (value : Bytes) : Prop :=
  ∀ nd ∈ q.bare, longBlobLen nd.zl + 20 + value.length < 2 ^ 31

/-- An insertion next to the entry is right; never without a node. -/
def Quicklist.InsertsWell (q : Quicklist) (entry : Option QuicklistEntry) (value : Bytes) (after : Bool) : Prop :=
  ∃ e nd, entry = some e ∧ q.bare[e.node]? = some nd ∧
    InsertsRight q.fill (q.left e.node) nd.zl (q.right e.node) e.offset value after

/-- Where the value belongs in the list. -/
def Quicklist.insertIndex (q : Quicklist) (entry : Option QuicklistEntry) (after : Bool) : Nat :=
  match entry with
  | none => 0
  | some e => (before QuicklistNode.texts q.bare e.node).length + e.zi.getD 0 + if after then 1 else 0

lemma textsOf_map (nodes : List QuicklistNode) : textsOf (nodes.map zl) = nodes.flatMap texts := by
  rw [textsOf, flatMap_map]
  rfl

lemma Quicklist.Stores.nodeOf_zl (h : q.Stores l) (hnd : nd ∈ q.bare) : nodeOf nd.zl = nd := by
  have tidy := h.tidy nd hnd
  obtain ⟨nd, -, rfl⟩ := mem_map.mp hnd
  have hcount : nd.zl.length % 2 ^ 16 = nd.count := (Nat.mod_eq_of_lt tidy.fits).trans tidy.count.symm
  have hsz : ziplistBlobLen nd.zl = nd.sz := tidy.sz.symm
  show ({ zl := nd.zl, sz := ziplistBlobLen nd.zl, count := nd.zl.length % 2 ^ 16, encoding := .raw, recompress := false } :
    QuicklistNode) = _
  rw [hcount, hsz]
  rfl

lemma Quicklist.Stores.tiles (h : q.Stores l) : q.Tiles (q.bare.map zl) := by
  refine ⟨?_, h.len⟩
  rw [map_map]
  refine ((map_congr_left fun nd hnd => ?_).trans (map_id _)).symm
  exact h.nodeOf_zl hnd

lemma Quicklist.Stores.sound (h : q.Stores l) (hnd : nd ∈ q.bare) {room : Prop}
    (spare : room → longBlobLen nd.zl < 2 ^ 31) : Sound room nd.zl :=
  ⟨⟨(h.tidy nd hnd).nonempty, (h.tidy nd hnd).small, spare⟩, (h.tidy nd hnd).fits⟩

lemma map_zl_eq (hnd : q.bare[i]? = some nd) :
    q.bare.map zl = (q.left i).reverse ++ nd.zl :: q.right i := by
  obtain ⟨hi, rfl⟩ := List.getElem?_eq_some_iff.mp hnd
  rw [Quicklist.left, reverse_reverse, Quicklist.right, ← map_cons, ← map_append, getElem_cons_drop,
    take_append_drop]

lemma length_left (hnd : q.bare[i]? = some nd) : (q.left i).length = i := by
  have hi := (List.getElem?_eq_some_iff.mp hnd).1
  rw [Quicklist.left, length_reverse, length_map, length_take, Nat.min_eq_left (Nat.le_of_lt hi)]

lemma Quicklist.Stores.ready (h : q.Stores l) (hnd : q.bare[i]? = some nd) (short : value.length < 2 ^ 32) :
    Ready (q.RoomyFor value) (q.left i) nd.zl (q.right i) value := by
  have hmem : ∀ y ∈ (q.left i).reverse ++ nd.zl :: q.right i, ∃ nd ∈ q.bare, nd.zl = y := by
    intro y hy
    rw [← map_zl_eq hnd] at hy
    exact mem_map.mp hy
  have spare : ∀ y ∈ (q.left i).reverse ++ nd.zl :: q.right i, q.RoomyFor value → longBlobLen y + 20 + value.length < 2 ^ 31 := by
    intro y hy roomy
    obtain ⟨nd', hnd', rfl⟩ := hmem y hy
    exact roomy nd' hnd'
  have sound : ∀ y ∈ (q.left i).reverse ++ nd.zl :: q.right i, Sound (q.RoomyFor value) y := by
    intro y hy
    obtain ⟨nd', hnd', rfl⟩ := hmem y hy
    refine h.sound hnd' fun roomy => ?_
    have hlt := roomy nd' hnd'
    omega
  have hleft (y : Ziplist) (hy : y ∈ q.left i) : y ∈ (q.left i).reverse ++ nd.zl :: q.right i :=
    mem_append_left _ (mem_reverse.mpr hy)
  have hhere : nd.zl ∈ (q.left i).reverse ++ nd.zl :: q.right i := mem_append_right _ (mem_cons_self ..)
  exact ⟨fun y hy => sound y (hleft y hy), sound _ hhere,
    fun y hy => sound y (mem_append_right _ (mem_cons_of_mem _ hy)),
    fun roomy y hy => spare y (hleft y hy) roomy, spare _ hhere, short⟩

lemma Quicklist.Tiles.stores_iff (h : q.Tiles Z) (count : q.count = T.length) : q.Stores T ↔ Stored Z T := by
  have htexts : q.bare.flatMap texts = textsOf Z := by
    rw [h.bare, flatMap_map]
    rfl
  constructor
  · intro stores
    refine ⟨fun y hy => ?_, htexts.symm.trans stores.texts⟩
    have hmem : nodeOf y ∈ q.bare := h.bare ▸ mem_map_of_mem hy
    have sound : Sound False (nodeOf y).zl := stores.sound hmem False.elim
    exact sound
  · rintro ⟨sound, texts⟩
    refine ⟨fun nd hnd => ?_, htexts.trans texts, count, h.len⟩
    rw [h.bare] at hnd
    obtain ⟨y, hy, rfl⟩ := mem_map.mp hnd
    have hy := sound y hy
    exact ⟨hy.nonempty, Nat.mod_eq_of_lt hy.fits, rfl, hy.fits, hy.small⟩

lemma insertIdx_inserted (h : q.Stores l) (hnd : q.bare[i]? = some nd) (hp : p < nd.zl.length) (value : Bytes) (after : Bool) :
    l.insertIdx ((before texts q.bare i).length + p + if after then 1 else 0) value =
      inserted (q.left i) nd.zl (q.right i) p value after := by
  have hj : p + (if after then 1 else 0) ≤ nd.texts.length := by
    rw [nd.length_texts]
    split <;> omega
  have hsplit : l = (before texts q.bare i ++ nd.texts.take (p + if after then 1 else 0)) ++
      (nd.texts.drop (p + if after then 1 else 0) ++ behind texts q.bare i) := by
    rw [← h.texts, flatMap_eq hnd, append_assoc, append_assoc, ← append_assoc (nd.texts.take _),
      take_append_drop]
  have hindex : (if after then p + 1 else p) = p + if after then 1 else 0 := by split <;> rfl
  conv_lhs => rw [hsplit]
  rw [insertIdx_at (by rw [length_append, length_take, Nat.min_eq_left hj, Nat.add_assoc]), inserted, hindex,
    Quicklist.left, reverse_reverse, Quicklist.right, textsOf_map, textsOf_map]
  simp only [append_assoc, cons_append]
  rfl

/-- What `_quicklistInsert` may fail with: the overflow of a ziplist, in a list without room, or anything where it is wrong. -/
def Quicklist.InsertFails (q : Quicklist) (entry : Option QuicklistEntry) (value : Bytes) (after : Bool) (f : Fault) : Prop :=
  NoRoom (q.RoomyFor value) f ∨ ¬ q.InsertsWell entry value after ∧ InsertFault f

lemma insert_exact (lzf : Nat → Bool) {e} (h : q.Stores l) (hzi : e.zi = some p)
    (hat : q.At e.node p e.offset) (value : Bytes) (after : Bool) :
    Sat (q.InsertFails (some e) value after)
      (fun q' => q'.Stores (l.insertIdx (q.insertIndex (some e) after) value) ↔ q.InsertsWell (some e) value after)
      (quicklistInsert ⟨lzf, false⟩ q e value after) := by
  obtain ⟨nd, hnd, hp, hoffset⟩ := hat
  have tiles := h.tiles
  rw [map_zl_eq hnd] at tiles
  have hwell : q.InsertsWell (some e) value after ↔
      InsertsRight q.fill (q.left e.node) nd.zl (q.right e.node) e.offset value after := by
    constructor
    · rintro ⟨e', nd', he, hnd', right⟩
      cases he
      cases hnd.symm.trans hnd'
      exact right
    · exact fun right => ⟨e, nd, rfl, hnd, right⟩
  have hindex : q.insertIndex (some e) after =
      (before texts q.bare e.node).length + p + if after then 1 else 0 := by
    rw [Quicklist.insertIndex, hzi]
    rfl
  have hlength : (l.insertIdx (q.insertIndex (some e) after) value).length = l.length + 1 := by
    refine length_insertIdx_of_le_length ?_ _
    rw [hindex, h.length_eq hnd]
    split <;> omega
  have hsim := insert_tiles lzf tiles (length_left hnd) hzi hp (h.tidy nd (mem_of_getElem? hnd)).fits hoffset value after
  have hidx := insertIdx_inserted h hnd hp value after
  rw [← hindex] at hidx
  have hstores (q' : Quicklist) (Z : List Ziplist) (tiles' : q'.Tiles Z) (count : q'.count = q.count + 1) :
      q'.Stores (l.insertIdx (q.insertIndex (some e) after) value) ↔
        Stored Z (inserted (q.left e.node) nd.zl (q.right e.node) p value after) := by
    rw [← hidx]
    exact tiles'.stores_iff (by rw [count, h.count, hlength])
  by_cases short : value.length < 2 ^ 32
  · have ready := h.ready hnd short
    by_cases right : InsertsRight q.fill (q.left e.node) nd.zl (q.right e.node) e.offset value after
    · refine ((hsim.sat (insertZl_right ready hp hoffset right)).weaken .inl).mono ?_
      rintro q' ⟨Z, stored, tiles', count⟩
      exact iff_of_true ((hstores q' Z tiles' count).mpr stored) (hwell.mpr right)
    · have hnot : ¬ q.InsertsWell (some e) value after := fun well => right (hwell.mp well)
      refine ((hsim.sat (insertZl_wrong ready.of hp hoffset right)).weaken fun hf => .inr ⟨hnot, hf⟩).mono ?_
      rintro q' ⟨Z, hwrong, tiles', count⟩
      exact iff_of_false (fun stores => hwrong ((hstores q' Z tiles' count).mp stores)) hnot
  -- the value does not reach the ziplist whole
  have hnot : ¬ q.InsertsWell (some e) value after := fun well => short (hwell.mp well).1
  have hfault := insertZl_fault q.fill (q.left e.node) nd.zl (q.right e.node) p e.offset value after
  refine ((hsim.sat hfault).weaken fun hf => .inr ⟨hnot, hf⟩).mono fun q' _ => ?_
  refine iff_of_false (fun stores => short (stores.length_lt ?_)) hnot
  refine (mem_insertIdx ?_).mpr (.inl rfl)
  rw [hindex, h.length_eq hnd]
  split <;> omega

lemma insert_noNode (lzf : Nat → Bool) (hnodes : q.nodes = []) (value : Bytes) (after : Bool) :
    Sat InsertFault (fun q' => ¬ q'.Stores T) (quicklistInsertEntry ⟨lzf, false⟩ q none value after) := by
  refine ((ziplistPush_spec _ _ _).weaken .inl).bind fun zl _ => ?_
  rw [quicklistInsertNode, if_pos hnodes]
  intro stores
  have hsz := (stores.tidy (quicklistCreateNode zl 0 1) (mem_cons_self ..)).sz
  have hpos : 11 ≤ ziplistBlobLen zl := Nat.le_add_right ..
  have hzero : ziplistBlobLen zl = 0 := hsz.symm
  omega

/-- `quicklistInsertBefore` and `quicklistInsertAfter` put the value next to the entry, with every count and size exact,
exactly where `InsertsWell` holds. They fail only where it does not, or where there is no room. -/
theorem quicklistInsert_inserts_iff (lzf : Nat → Bool) (h : q₀.Stores l) {entry : Option QuicklistEntry}
    (obtains : q₀.Obtains lzf q entry) (value : Bytes) (after : Bool) :
    Sat (q.InsertFails entry value after)
      (fun q' => q'.Stores (l.insertIdx (q.insertIndex entry after) value) ↔ q.InsertsWell entry value after)
      (quicklistInsertEntry ⟨lzf, false⟩ q entry value after) := by
  cases entry with
  | some e =>
    obtain ⟨shape, p, hzi, hat⟩ := obtains.at h
    exact insert_exact lzf (h.congr shape) hzi hat value after
  | none =>
    have hnot : ¬ q.InsertsWell none value after := by
      rintro ⟨e, nd, he, -⟩
      cases he
    cases obtains with
    | noNode hnodes =>
      have hsz := insert_noNode (T := l.insertIdx (q.insertIndex none after) value) lzf hnodes value after
      exact (hsz.weaken fun hf => .inr ⟨hnot, hf⟩).mono fun q' stores => iff_of_false stores hnot

/-- A full node is split between its second and its third number. -/
theorem quicklistInsert_inserts_middle :
    ∃ q e q', quicklistIndex twoNodes 1 = .ok (q, some e) ∧
      quicklistInsertEntry ⟨fun _ => false, false⟩ q (some e) (ll2string 9) true = .ok q' ∧
      q'.Stores [ll2string 1, ll2string 2, ll2string 9, ll2string 3, ll2string 4, ll2string 5, ll2string 6] := by
  have hindex : quicklistIndex twoNodes 1 = .ok (twoNodes, some ⟨0, some 1, 1⟩) := rfl
  have hinsert : quicklistInsertEntry ⟨fun _ => false, false⟩ twoNodes (some ⟨0, some 1, 1⟩) (ll2string 9) true =
      .ok (smallNodes [([1, 2], 15, 2), ([9, 3], 15, 2), ([4, 5, 6], 17, 3)] 7) := by
    decide +kernel
  have hright := (quicklistInsert_inserts_iff _ twoNodes_stores (.index 1 hindex) (ll2string 9) true).of_eq hinsert
  refine ⟨_, _, _, hindex, hinsert, hright.mpr ⟨_, _, rfl, rfl, by decide, fun t ht => ?_, fun _ => .inl (by decide)⟩⟩
  exact nomatch ht

/-- Behind the third number from the end, which is the first of a full node, the value is put at the cost of the last two. -/
theorem quicklistInsert_loses :
    twoNodes.Stores [ll2string 1, ll2string 2, ll2string 3, ll2string 4, ll2string 5, ll2string 6] ∧
      ∃ q e q', quicklistIndex twoNodes (-3) = .ok (q, some e) ∧
        quicklistInsertEntry ⟨fun _ => false, false⟩ q (some e) (ll2string 9) true = .ok q' ∧
        q' = smallNodes [([1, 2, 3], 17, 3), ([4, 9], 15, 2)] 7 ∧
        ¬ q'.Stores [ll2string 1, ll2string 2, ll2string 3, ll2string 4, ll2string 9, ll2string 5, ll2string 6] := by
  refine ⟨twoNodes_stores, twoNodes, ⟨1, some 0, -3⟩, _, rfl, ?_, rfl, ?_⟩
  · decide +kernel
  · intro stores
    have hlen := congrArg List.length stores.texts
    exact absurd hlen (by decide)

end Insert

end JitRedis
