import JitRedis.Quicklist.Iteration

/-!
# Merging the nodes of a quicklist

Apart from compression a quicklist is the list of its ziplists. `_quicklistMergeNodes` joins ziplists around a center: in terms of
the ziplists before the center, the nearest first, and those behind it.
-/

namespace JitRedis

open Fallible Chunks List

variable {lzf : Nat → Bool} {q q' : Quicklist} {fill : Int} {i : Nat} {a b c z : Ziplist} {X Y Z L R : List Ziplist}
  {l : List Bytes}

/-- A node that holds a ziplist, with the size and the count of it. -/
def nodeOf (zl : Ziplist) : QuicklistNode := quicklistCreateNode zl (ziplistBlobLen zl) (ziplistLen zl % 2 ^ 16)

/-- The nodes hold the ziplists. -/
structure Quicklist.Tiles (q : Quicklist) (Z : List Ziplist) : Prop where
  bare : q.bare = Z.map nodeOf
  len : q.len = q.nodes.length

/-- Whether `_quicklistNodeAllowMerge` allows the nodes of two ziplists to be merged. -/
def joins (fill : Int) (a b : Ziplist) : Bool := quicklistNodeAllowMerge (some (nodeOf a)) (some (nodeOf b)) fill

/-- Two neighbours joined, if that is allowed. -/
def joinPair (fill : Int) (a b : Ziplist) : Except Fault (Option Ziplist) :=
  if joins fill a b then (ziplistMerge a b).map fun r => some r.1 else .ok none

/-- The first two ziplists joined, if that is allowed. -/
def joinFirst (fill : Int) : List Ziplist → Except Fault (List Ziplist)
  | a :: b :: Z => (joinPair fill a b).map fun z => z.elim (a :: b :: Z) (· :: Z)
  | Z => .ok Z

/-- The two ziplists nearest to the center joined, if that is allowed. -/
def joinLast (fill : Int) : List Ziplist → Except Fault (List Ziplist)
  | b :: a :: L => (joinPair fill a b).map fun z => z.elim (b :: a :: L) (· :: L)
  | L => .ok L

/-- The center joined with the ziplist before it, if that is allowed. -/
def joinBefore (fill : Int) (c : Ziplist) : List Ziplist → Except Fault (List Ziplist × Ziplist)
  | a :: L => (joinPair fill a c).map fun z => z.elim (a :: L, c) (L, ·)
  | [] => .ok ([], c)

/-- `_quicklistMergeNodes` on the ziplists before the center, the nearest first, the center and the ziplists behind it. -/
def joinAround (fill : Int) (L : List Ziplist) (c : Ziplist) (R : List Ziplist) : Except Fault (List Ziplist) := do
  let L ← joinLast fill L
  let R ← joinFirst fill R
  let (L, target) ← joinBefore fill c L
  let R ← joinFirst fill (target :: R)
  .ok (L.reverse ++ R)

section Simulation

lemma Quicklist.Tiles.getElem? (h : q.Tiles (X ++ z :: Y)) (hX : X.length = i) : q.bare[i]? = some (nodeOf z) := by
  rw [h.bare, map_append, map_cons, getElem?_at (by rwa [length_map])]

lemma Quicklist.Tiles.length_eq (h : q.Tiles Z) : q.nodes.length = Z.length := by
  rw [← length_bare, h.bare, length_map]

lemma Quicklist.Tiles.congr (h : q.Tiles Z) (shape : q.SameShape q') : q'.Tiles Z :=
  ⟨shape.bare.trans h.bare, by rw [shape.len, h.len, shape.length]⟩

/-- The same list with other ziplists in its nodes. -/
structure Quicklist.Retiled (q : Quicklist) (Z : List Ziplist) (q' : Quicklist) : Prop where
  tiles : q'.Tiles Z
  count : q'.count = q.count
  fill : q'.fill = q.fill

lemma Quicklist.Retiled.trans {q₁ Z'} (h : q.Retiled Z q₁) (h' : q₁.Retiled Z' q') : q.Retiled Z' q' :=
  ⟨h'.tiles, h'.count.trans h.count, h'.fill.trans h.fill⟩

lemma Quicklist.Tiles.retiled (h : q.Tiles Z) (shape : q.SameShape q') : q.Retiled Z q' :=
  ⟨h.congr shape, shape.count, shape.fill⟩

lemma keep_erase (hX : X.length = i) (zl : Ziplist) (keepFirst : Bool) :
    (((X ++ a :: b :: Y).map nodeOf).modify (if keepFirst then i else i + 1) fun nd =>
      { nd.setZl zl with count := ziplistLen zl % 2 ^ 16 }).eraseIdx (if keepFirst then i + 1 else i) =
      (X ++ zl :: Y).map nodeOf := by
  have hX' : (X.map nodeOf).length = i := by rwa [length_map]
  have hX'' (nd : QuicklistNode) : (X.map nodeOf ++ [nd]).length = i + 1 := by
    rw [length_append, hX', length_singleton]
  rw [map_append, map_cons, map_cons, map_append, map_cons]
  cases keepFirst with
  | true =>
    rw [if_pos rfl, if_pos rfl, modify_at hX', append_cons, eraseIdx_at (hX'' _), append_assoc]
    rfl
  | false =>
    rw [if_neg Bool.false_ne_true, if_neg Bool.false_ne_true, append_cons, modify_at (hX'' _), append_assoc,
      singleton_append, eraseIdx_at hX']
    rfl

/-- The list with the merged ziplist in the node that is kept, and nothing counted in the other. -/
def Quicklist.afterMerge (q : Quicklist) (i : Nat) (zl : Ziplist) (keepFirst : Bool) : Quicklist :=
  (q.modifyNode (if keepFirst then i else i + 1) fun nd =>
    { nd.setZl zl with count := ziplistLen zl % 2 ^ 16 }).modifyNode (if keepFirst then i + 1 else i) fun nd =>
      { nd with count := 0 }

lemma afterMerge_tiles {env : QuicklistEnv} (h : q.Tiles (X ++ a :: b :: Y)) (hX : X.length = i) (zl : Ziplist)
    (keepFirst : Bool) :
    Sat NoFault (q.Retiled (X ++ zl :: Y))
      (quicklistDelNode env (q.afterMerge i zl keepFirst) (if keepFirst then i + 1 else i)) := by
  have hlen := h.length_eq
  rw [length_append, length_cons, length_cons, hX] at hlen
  have bare : (q.afterMerge i zl keepFirst).bare = (q.bare.modify (if keepFirst then i else i + 1) fun nd =>
      { nd.setZl zl with count := ziplistLen zl % 2 ^ 16 }).modify (if keepFirst then i + 1 else i) fun nd =>
        { nd with count := 0 } := by
    rw [Quicklist.afterMerge, bare_modifyNode (g := fun nd => { nd with count := 0 }) fun _ => rfl]
    exact congrArg (List.modify · _ _) (bare_modifyNode fun _ => rfl)
  have hlen' : (q.afterMerge i zl keepFirst).len = (q.afterMerge i zl keepFirst).nodes.length := by
    rw [Quicklist.afterMerge, length_modifyNode, length_modifyNode]
    exact h.len
  have hlt : (if keepFirst then i + 1 else i) < (q.bare.modify (if keepFirst then i else i + 1) fun nd =>
      { nd.setZl zl with count := ziplistLen zl % 2 ^ 16 }).length := by
    rw [length_modify, length_bare, hlen]
    split <;> omega
  have hnd := congrArg (·[if keepFirst then i + 1 else i]?) bare
  rw [getElem?_modify_eq, getElem?_eq_getElem hlt] at hnd
  refine (delNode_shape hlen' hnd).mono ?_
  rintro q' ⟨bare', count', len', fill'⟩
  refine ⟨⟨?_, len'⟩, count'.trans (ulongSub_eq (Nat.zero_le _)), fill'⟩
  rw [bare', bare, eraseIdx_modify_of_eq, h.bare, keep_erase hX]

lemma ziplistMerge_tiles (lzf : Nat → Bool) (h : q.Tiles (X ++ a :: b :: Y)) (hX : X.length = i) :
    Mirrors (fun r => q.Retiled (X ++ r.1 :: Y)) (ziplistMerge a b) (quicklistZiplistMerge ⟨lzf, false⟩ q i) := by
  have shape : q.SameShape (quicklistDecompressNode (quicklistDecompressNode q (some i)) (some (i + 1))) :=
    sameShape_decompress.trans sameShape_decompress
  have raw : (quicklistDecompressNode (quicklistDecompressNode q (some i)) (some (i + 1))).RawAt i :=
    rawAt_decompress.decompress
  have raw' : (quicklistDecompressNode (quicklistDecompressNode q (some i)) (some (i + 1))).RawAt (i + 1) :=
    rawAt_decompress
  rw [quicklistZiplistMerge]
  generalize quicklistDecompressNode (quicklistDecompressNode q (some i)) (some (i + 1)) = q₁ at shape raw raw' ⊢
  have h₁ := h.retiled shape
  have hb : q₁.Tiles ((X ++ [a]) ++ b :: Y) := by rw [append_assoc]; exact h₁.tiles
  rw [readZl_eq raw (h₁.tiles.getElem? hX), ok_bind, readZl_eq raw' (hb.getElem? (by simp [hX])), ok_bind]
  refine (Mirrors.same _).andThen ?_
  rintro r _ rfl
  refine (afterMerge_tiles h₁.tiles hX r.1 r.2).mirrors fun q₂ h₂ => ?_
  have hlt : i < q₂.nodes.length := by
    rw [h₂.tiles.length_eq, length_append, hX, length_cons]
    omega
  obtain ⟨q', hq', shape'⟩ := (compress_shape lzf h₂.tiles.len.le hlt).returns
  rw [hq']
  exact (h₁.trans h₂).trans (h₂.tiles.retiled shape')

lemma allowMerge_bare (q : Quicklist) (i j : Nat) :
    quicklistNodeAllowMerge q.nodes[i]? q.nodes[j]? fill = quicklistNodeAllowMerge q.bare[i]? q.bare[j]? fill := by
  rw [Quicklist.bare, getElem?_map, getElem?_map]
  cases q.nodes[i]? with
  | none => rfl
  | some nd => cases q.nodes[j]? <;> rfl

lemma tryMerge_pair (lzf : Nat → Bool) (h : q.Tiles (X ++ a :: b :: Y)) (hX : X.length = i) :
    Mirrors (fun z r => r.2 = z.isSome ∧ q.Retiled (X ++ z.elim (a :: b :: Y) (· :: Y)) r.1)
      (joinPair q.fill a b) (quicklistTryMerge ⟨lzf, false⟩ q (some i)) := by
  have hb : q.Tiles ((X ++ [a]) ++ b :: Y) := by rwa [append_assoc]
  rw [quicklistTryMerge, allowMerge_bare, h.getElem? hX, hb.getElem? (by simp [hX]), joinPair, joins]
  by_cases hjoins : quicklistNodeAllowMerge (some (nodeOf a)) (some (nodeOf b)) q.fill
  · rw [if_pos hjoins, if_pos hjoins]
    have merged : Mirrors (fun r p => p.2 = true ∧ q.Retiled (X ++ r.1 :: Y) p.1) (ziplistMerge a b)
        (quicklistZiplistMerge ⟨lzf, false⟩ q i >>= fun q => .ok (q, true)) :=
      (ziplistMerge_tiles lzf h hX).andThen fun r q' h' => ⟨rfl, h'⟩
    exact merged.map _ fun _ _ h' => h'
  · rw [if_neg hjoins, if_neg hjoins]
    exact ⟨rfl, h.retiled (.refl q)⟩

lemma tryMerge_last (lzf : Nat → Bool) (h : q.Tiles Z) (hZ : Z.length ≤ i + 1) :
    quicklistTryMerge ⟨lzf, false⟩ q (some i) = .ok (q, false) := by
  have hnone : q.nodes[i + 1]? = none := getElem?_eq_none (h.length_eq.trans_le hZ)
  have hnot : quicklistNodeAllowMerge q.nodes[i]? none q.fill = false := by
    cases q.nodes[i]? <;> rfl
  rw [quicklistTryMerge, hnone, hnot]
  rfl

lemma tryMerge_before (lzf : Nat → Bool) (h : q.Tiles (L.reverse ++ Z)) :
    Mirrors (fun L' r => (if r.2 then L.length - 1 else L.length) = L'.length ∧ q.Retiled (L'.reverse ++ Z) r.1)
      (joinLast q.fill L) (quicklistTryMerge ⟨lzf, false⟩ q (if 2 ≤ L.length then some (L.length - 2) else none)) := by
  match L, h with
  | [], h => exact ⟨rfl, h.retiled (.refl q)⟩
  | [b], h => exact ⟨rfl, h.retiled (.refl q)⟩
  | b :: a :: L, h =>
    have hsplit : q.Tiles (L.reverse ++ a :: b :: Z) := by simpa using h
    rw [if_pos (by simp), joinLast]
    refine (tryMerge_pair lzf hsplit (i := (b :: a :: L).length - 2) (by simp)).map _ ?_
    rintro z ⟨q', merged⟩ ⟨rfl, h'⟩
    refine ⟨?_, ?_⟩
    · cases z <;> rfl
    · cases z <;> simpa using h'

lemma tryMerge_behind (lzf : Nat → Bool) (h : q.Tiles (X ++ R)) (hX : X.length = i) :
    Mirrors (fun R' r => q.Retiled (X ++ R') r.1) (joinFirst q.fill R)
      (quicklistTryMerge ⟨lzf, false⟩ q (some i)) := by
  match R, h with
  | [], h =>
    rw [tryMerge_last lzf h (by simp [hX])]
    exact h.retiled (.refl q)
  | [a], h =>
    rw [tryMerge_last lzf h (by simp [hX])]
    exact h.retiled (.refl q)
  | a :: b :: R, h => exact (tryMerge_pair lzf h hX).map _ fun _ _ ⟨_, h'⟩ => h'

lemma tryMerge_center (lzf : Nat → Bool) (h : q.Tiles (L.reverse ++ c :: R)) :
    Mirrors (fun p r => (if r.2 then L.length - 1 else L.length) = p.1.length ∧ q.Retiled (p.1.reverse ++ p.2 :: R) r.1)
      (joinBefore q.fill c L)
      (quicklistTryMerge ⟨lzf, false⟩ q (if 1 ≤ L.length then some (L.length - 1) else none)) := by
  cases L with
  | nil => exact ⟨rfl, h.retiled (.refl q)⟩
  | cons a L =>
    have hsplit : q.Tiles (L.reverse ++ a :: c :: R) := by simpa using h
    rw [if_pos (by simp), joinBefore]
    refine (tryMerge_pair lzf hsplit (i := (a :: L).length - 1) (by simp)).map _ ?_
    rintro z ⟨q', merged⟩ ⟨rfl, h'⟩
    cases z with
    | none => exact ⟨rfl, by simpa using h'⟩
    | some z => exact ⟨rfl, h'⟩

lemma mergeNodes_tiles (lzf : Nat → Bool) (h : q.Tiles (L.reverse ++ c :: R)) (hL : L.length = i) :
    Mirrors q.Retiled (joinAround q.fill L c R) (quicklistMergeNodes ⟨lzf, false⟩ q i) := by
  subst hL
  rw [quicklistMergeNodes, joinAround]
  refine (tryMerge_before lzf h).bind ?_
  rintro L₁ ⟨q₁, merged₁⟩ ⟨hlen₁, h₁⟩
  dsimp only at hlen₁ h₁ ⊢
  have h₁' : q₁.Tiles ((L₁.reverse ++ [c]) ++ R) := by rw [append_assoc]; exact h₁.tiles
  rw [hlen₁, ← h₁.fill]
  refine (tryMerge_behind lzf h₁' (by simp)).bind ?_
  rintro R₂ ⟨q₂, merged₂⟩ h₂
  rw [append_assoc, singleton_append] at h₂
  have h₂ := h₁.trans h₂
  rw [h₁.fill, ← h₂.fill]
  refine (tryMerge_center lzf h₂.tiles).bind ?_
  rintro ⟨L₃, target⟩ ⟨q₃, merged₃⟩ ⟨hlen₃, h₃⟩
  have h₃ := h₂.trans h₃
  rw [hlen₃, h₂.fill, ← h₃.fill]
  refine (tryMerge_behind lzf h₃.tiles (by simp)).bind ?_
  exact fun R₄ r h₄ => h₃.trans h₄

end Simulation

section Joining

variable {F : Fault → Prop} {P : Ziplist → Prop} {room : Prop}

/-- Joining two ziplists fails in one way, keeps a property of ziplists, and concatenates what they hold. -/
def JoinRule (fill : Int) (F : Fault → Prop) (P : Ziplist → Prop) : Prop :=
  ∀ a b, P a → P b → Sat F (fun z => ∀ y, z = some y → P y ∧ y.texts = a.texts ++ b.texts) (joinPair fill a b)

def textsOf (Z : List Ziplist) : List Bytes := Z.flatMap Ziplist.texts

@[simp] lemma textsOf_nil : textsOf [] = [] := rfl

@[simp] lemma textsOf_cons : textsOf (z :: Z) = z.texts ++ textsOf Z := flatMap_cons

@[simp] lemma textsOf_append : textsOf (X ++ Y) = textsOf X ++ textsOf Y := flatMap_append

lemma joinFirst_rule (rule : JoinRule fill F P) (hR : ∀ z ∈ R, P z) :
    Sat F (fun R' => (∀ z ∈ R', P z) ∧ textsOf R' = textsOf R) (joinFirst fill R) := by
  match R, hR with
  | [], hR => exact ⟨hR, rfl⟩
  | [a], hR => exact ⟨hR, rfl⟩
  | a :: b :: R, hR =>
    rw [joinFirst, sat_map]
    refine (rule a b (hR a (by simp)) (hR b (by simp))).mono ?_
    rintro (_ | y) hy
    · exact ⟨hR, rfl⟩
    · obtain ⟨hP, htexts⟩ := hy y rfl
      simp only [forall_mem_cons] at hR
      refine ⟨forall_mem_cons.mpr ⟨hP, hR.2.2⟩, ?_⟩
      simp [htexts]

lemma joinLast_rule (rule : JoinRule fill F P) (hL : ∀ z ∈ L, P z) :
    Sat F (fun L' => (∀ z ∈ L', P z) ∧ textsOf L'.reverse = textsOf L.reverse) (joinLast fill L) := by
  match L, hL with
  | [], hL => exact ⟨hL, rfl⟩
  | [a], hL => exact ⟨hL, rfl⟩
  | b :: a :: L, hL =>
    rw [joinLast, sat_map]
    refine (rule a b (hL a (by simp)) (hL b (by simp))).mono ?_
    rintro (_ | y) hy
    · exact ⟨hL, rfl⟩
    · obtain ⟨hP, htexts⟩ := hy y rfl
      simp only [forall_mem_cons] at hL
      refine ⟨forall_mem_cons.mpr ⟨hP, hL.2.2⟩, ?_⟩
      simp [htexts]

lemma joinBefore_rule (rule : JoinRule fill F P) (hL : ∀ z ∈ L, P z) (hc : P c) :
    Sat F (fun r => (∀ z ∈ r.1, P z) ∧ P r.2 ∧ textsOf r.1.reverse ++ r.2.texts = textsOf L.reverse ++ c.texts)
      (joinBefore fill c L) := by
  cases L with
  | nil => exact ⟨hL, hc, rfl⟩
  | cons a L =>
    rw [joinBefore, sat_map]
    refine (rule a c (hL a (by simp)) hc).mono ?_
    rintro (_ | y) hy
    · exact ⟨hL, hc, rfl⟩
    · obtain ⟨hP, htexts⟩ := hy y rfl
      rw [forall_mem_cons] at hL
      refine ⟨hL.2, hP, ?_⟩
      simp [htexts]

lemma joinAround_rule (rule : JoinRule fill F P) (hL : ∀ z ∈ L, P z) (hc : P c) (hR : ∀ z ∈ R, P z) :
    Sat F (fun Z => (∀ z ∈ Z, P z) ∧ textsOf Z = textsOf (L.reverse ++ c :: R)) (joinAround fill L c R) := by
  rw [joinAround]
  refine (joinLast_rule rule hL).bind fun L₁ ⟨hL₁, textsL₁⟩ => ?_
  refine (joinFirst_rule rule hR).bind fun R₁ ⟨hR₁, textsR₁⟩ => ?_
  refine (joinBefore_rule rule hL₁ hc).bind fun r ⟨hL₂, htarget, textsL₂⟩ => ?_
  refine (joinFirst_rule rule (R := r.2 :: R₁) (forall_mem_cons.mpr ⟨htarget, hR₁⟩)).bind fun R₂ ⟨hR₂, textsR₂⟩ => ?_
  refine ⟨forall_mem_append.mpr ⟨fun z hz => hL₂ z (mem_reverse.mp hz), hR₂⟩, ?_⟩
  · calc textsOf (r.1.reverse ++ R₂) = textsOf r.1.reverse ++ r.2.texts ++ textsOf R₁ := by
          rw [textsOf_append, textsR₂, textsOf_cons, append_assoc]
      _ = textsOf (L.reverse ++ c :: R) := by
          rw [textsL₂, textsL₁, textsR₁, textsOf_append, textsOf_cons, append_assoc]

lemma rawlen_cascadeUpdate (rawlen : Nat) (zl : Ziplist) :
    (zl.map ZlEntry.rawlen).sum ≤ ((cascadeUpdate rawlen zl).map ZlEntry.rawlen).sum := by
  induction zl generalizing rawlen with
  | nil => exact le_rfl
  | cons next rest ih =>
    rw [cascadeUpdate]
    split
    · rename_i hgrow
      have hle := ih (ZlEntry.rawlen { next with big := true })
      have hnext : next.rawlen ≤ ZlEntry.rawlen { next with big := true } := by
        rw [ZlEntry.rawlen, ZlEntry.rawlen, hgrow.2]
        simp
      simp only [map_cons, sum_cons]
      omega
    · exact le_rfl

def concatZl (a b : Ziplist) : Ziplist :=
  match a.getLast? with
  | none => b
  | some tail => a ++ cascadeUpdate tail.rawlen b

lemma concatZl_nil : concatZl [] b = b := rfl

lemma concatZl_cases (a b : Ziplist) : a = [] ∧ concatZl a b = b ∨ ∃ rawlen, concatZl a b = a ++ cascadeUpdate rawlen b := by
  rw [concatZl]
  cases hlast : a.getLast? with
  | none => exact .inl ⟨getLast?_eq_none_iff.mp hlast, rfl⟩
  | some tail => exact .inr ⟨tail.rawlen, rfl⟩

lemma concatZl_spec (a b : Ziplist) : (concatZl a b).texts = a.texts ++ b.texts ∧
    longBlobLen (concatZl a b) + 11 = longBlobLen a + longBlobLen b ∧
    ziplistBlobLen a + ziplistBlobLen b ≤ ziplistBlobLen (concatZl a b) + 11 := by
  obtain ⟨rfl, hb⟩ | ⟨rawlen, hab⟩ := concatZl_cases a b
  · rw [hb]
    refine ⟨rfl, ?_, ?_⟩
    · rw [longBlobLen, longBlobLen, map_nil, sum_nil]
      omega
    · rw [ziplistBlobLen, ziplistBlobLen, map_nil, sum_nil]
      omega
  have hraw := rawlen_cascadeUpdate rawlen b
  rw [hab]
  refine ⟨?_, ?_, ?_⟩
  · rw [Ziplist.texts, map_append]
    exact congrArg _ (texts_cascadeUpdate rawlen b)
  · simp only [longBlobLen, map_append, longLen_cascadeUpdate, sum_append]
    omega
  · simp only [ziplistBlobLen, map_append, sum_append]
    omega

lemma ziplistMerge_eq (a b : Ziplist) : (ziplistMerge a b).map (·.1) =
    if b = [] then .error .badAccess else ziplistResize (concatZl a b) := by
  rw [ziplistMerge]
  split
  · rfl
  · show Except.map _ (ziplistResize (concatZl a b) >>= _) = ziplistResize (concatZl a b)
    cases ziplistResize (concatZl a b) <;> rfl

lemma joinPair_eq (fill : Int) (a b : Ziplist) : joinPair fill a b =
    if joins fill a b then (if b = [] then .error .badAccess else (ziplistResize (concatZl a b)).map some) else .ok none := by
  have hmap : (ziplistMerge a b).map (fun r => some r.1) = ((ziplistMerge a b).map (·.1)).map some := by
    cases ziplistMerge a b <;> rfl
  rw [joinPair, hmap, ziplistMerge_eq]
  split
  · split <;> rfl
  · rfl

/-- A ziplist that is one, and has room if there is any. -/
structure Sturdy (room : Prop) (z : Ziplist) : Prop where
  nonempty : z ≠ []
  small : ziplistBlobLen z < 2 ^ 32
  spare : room → longBlobLen z < 2 ^ 31

/-- A ziplist that a node can also count. -/
structure Sound (room : Prop) (z : Ziplist) : Prop extends Sturdy room z where
  fits : z.length < 2 ^ 16

lemma longBlobLen_le (z : Ziplist) : longBlobLen z ≤ 3 * ziplistBlobLen z := by
  have hlen : ∀ e ∈ z, e.longLen ≤ 3 * e.rawlen := by
    intro e _
    have hlensize : 1 ≤ e.value.lensize := by
      cases e.value with
      | str s =>
        rw [ZlValue.lensize]
        split
        · exact le_rfl
        · split <;> omega
      | int v => exact le_rfl
    rw [ZlEntry.rawlen, ZlEntry.longLen]
    split <;> omega
  have hsum := sum_le_sum hlen
  rw [sum_map_mul_left] at hsum
  rw [longBlobLen, ziplistBlobLen]
  omega

lemma sum_le_of_joins (hjoins : joins fill a b) (nowrap : ziplistBlobLen a + ziplistBlobLen b < 2 ^ 32 + 11) :
    ziplistBlobLen a + ziplistBlobLen b ≤ 65547 := by
  have hle : (ziplistBlobLen a + ziplistBlobLen b + 2 ^ 32 - 11) % 2 ^ 32 ≤ 65536 := allowsSize_le hjoins
  omega

lemma joinPair_sturdy (fill : Int) (ha : Sturdy room a) (hb : Sturdy room b) :
    Sat (NoRoom room) (fun z => ∀ y, z = some y → Sound room y ∧ y.texts = a.texts ++ b.texts) (joinPair fill a b) := by
  obtain ⟨htexts, hlong, hblob⟩ := concatZl_spec a b
  rw [joinPair_eq, if_neg hb.nonempty]
  split
  · rename_i hjoins
    rw [sat_map, ziplistResize]
    split
    · rename_i hbig
      refine ⟨rfl, fun hroom => ?_⟩
      have hle := blobLen_le_longBlobLen (concatZl a b)
      have hspare := ha.spare hroom
      have hspare' := hb.spare hroom
      omega
    rename_i hsmall
    intro y hy
    cases hy
    have hsum := sum_le_of_joins hjoins (by omega)
    have hlength : (concatZl a b).length = a.length + b.length := by
      rw [← length_texts, htexts, length_append, length_texts, length_texts]
    have ha2 := two_mul_length_le_blobLen a
    have hb2 := two_mul_length_le_blobLen b
    have ha3 := longBlobLen_le a
    have hb3 := longBlobLen_le b
    have hpos := length_pos_of_ne_nil hb.nonempty
    refine ⟨⟨⟨?_, Nat.lt_of_not_le hsmall, fun _ => by omega⟩, by omega⟩, htexts⟩
    exact ne_nil_of_length_pos (by omega)
  · intro y hy
    cases hy

lemma joinPair_sound : JoinRule fill (NoRoom room) (Sound room) :=
  fun _ _ ha hb => joinPair_sturdy fill ha.toSturdy hb.toSturdy

lemma joinPair_any : JoinRule fill (fun f => f = .overflow ∨ f = .badAccess) (fun _ => True) := by
  intro a b _ _
  rw [joinPair_eq]
  split
  · split
    · exact .inr rfl
    rw [sat_map]
    refine ((ziplistResize_spec _).weaken .inl).mono ?_
    rintro zl ⟨rfl, -⟩ y hy
    cases hy
    exact ⟨trivial, (concatZl_spec a b).1⟩
  · exact fun y hy => nomatch hy

/-- The ziplist before the center when the center is joined with it. -/
def nearest (fill : Int) : List Ziplist → Option Ziplist
  | [] => none
  | [a] => some a
  | b :: a :: _ => some (if joins fill a b then concatZl a b else b)

/-- The ziplist behind the center when the center is joined with it, of which the first one is given. -/
def following (fill : Int) (n : Ziplist) : List Ziplist → Ziplist
  | [] => n
  | b :: _ => if joins fill n b then concatZl n b else n

/-- An empty center is joined with the ziplist behind it, and not with the one before it. -/
def Heals (fill : Int) (L : List Ziplist) (n : Ziplist) (R : List Ziplist) : Prop :=
  (∀ z, nearest fill L = some z → joins fill z [] = false) ∧ joins fill [] (following fill n R) = true

lemma joinLast_nearest (fill : Int) (L : List Ziplist) :
    Sat (fun _ => True) (fun L' => L'.head? = nearest fill L) (joinLast fill L) := by
  match L with
  | [] => rfl
  | [a] => rfl
  | b :: a :: L =>
    rw [joinLast, joinPair_eq, nearest]
    split
    · split
      · trivial
      · rw [sat_map, sat_map]
        exact ((ziplistResize_spec _).weaken fun _ => trivial).mono fun z hz => congrArg some hz.1
    · rfl

lemma joinFirst_following (fill : Int) (n : Ziplist) (R : List Ziplist) :
    Sat (fun _ => True) (fun R' => ∃ R'', R' = following fill n R :: R'' ∧ R'' ⊆ R) (joinFirst fill (n :: R)) := by
  cases R with
  | nil => exact ⟨[], rfl, List.Subset.refl _⟩
  | cons b R =>
    rw [joinFirst, joinPair_eq, following]
    split
    · split
      · trivial
      · rw [sat_map, sat_map]
        refine ((ziplistResize_spec _).weaken fun _ => trivial).mono ?_
        rintro z ⟨rfl, -⟩
        exact ⟨R, rfl, subset_cons_self ..⟩
    · exact ⟨b :: R, rfl, List.Subset.refl _⟩

lemma joinBefore_empty {L₁ : List Ziplist} (head : L₁.head? = nearest fill L)
    (hnot : ∀ z, nearest fill L = some z → joins fill z [] = false) : joinBefore fill [] L₁ = .ok (L₁, []) := by
  cases L₁ with
  | nil => rfl
  | cons z L₁ =>
    rw [joinBefore, joinPair_eq, hnot z head.symm]
    rfl

lemma joinFirst_sturdy (hn : Sturdy room a) (hR : ∀ z ∈ R, Sound room z) :
    Sat (NoRoom room) (fun R' => (∀ z ∈ R', Sturdy room z) ∧ textsOf R' = textsOf (a :: R)) (joinFirst fill (a :: R)) := by
  have rule : JoinRule fill (NoRoom room) (Sturdy room) := fun a b ha hb =>
    (joinPair_sturdy fill ha hb).mono fun z hz y hy => ⟨(hz y hy).1.toSturdy, (hz y hy).2⟩
  refine joinFirst_rule rule (forall_mem_cons.mpr ⟨hn, fun z hz => (hR z hz).toSturdy⟩)

lemma joinAround_heals (hL : ∀ z ∈ L, Sound room z) (hn : Sturdy room a) (hR : ∀ z ∈ R, Sound room z)
    (heals : Heals fill L a R) :
    Sat (NoRoom room) (fun Z => (∀ z ∈ Z, Sound room z) ∧ textsOf Z = textsOf (L.reverse ++ a :: R))
      (joinAround fill L [] (a :: R)) := by
  rw [joinAround]
  refine (joinLast_rule joinPair_sound hL).bind_eq fun L₁ hL₁ ⟨soundL, textsL⟩ => ?_
  refine (joinFirst_sturdy hn hR).bind_eq fun R₁ hR₁ ⟨sturdyR, textsR⟩ => ?_
  have headL := (joinLast_nearest fill L).of_eq hL₁
  obtain ⟨R₂, rfl, hsub⟩ := (joinFirst_following fill a R).of_eq hR₁
  have hf := sturdyR _ (mem_cons_self ..)
  have hfits : (following fill a R).length < 2 ^ 16 := by
    have hsum := sum_le_of_joins heals.2 (by
      have hsmall := hf.small
      have hempty : ziplistBlobLen [] = 11 := rfl
      omega)
    have hlen := two_mul_length_le_blobLen (following fill a R)
    omega
  have hfirst : joinFirst fill ([] :: following fill a R :: R₂) = .ok (following fill a R :: R₂) := by
    rw [joinFirst, joinPair_eq, if_pos heals.2, if_neg hf.nonempty, concatZl_nil, ziplistResize,
      if_neg (Nat.not_le.mpr hf.small)]
    rfl
  rw [joinBefore_empty headL heals.1, ok_bind]
  dsimp only
  rw [hfirst]
  refine ⟨forall_mem_append.mpr ⟨fun z hz => soundL z (mem_reverse.mp hz), ?_⟩, ?_⟩
  · exact forall_mem_cons.mpr ⟨⟨hf, hfits⟩, fun z hz => hR z (hsub hz)⟩
  · rw [textsOf_append, textsL, textsR, textsOf_append]

lemma joinAround_stays (stays : ¬ Heals fill L a R) :
    Sat (fun f => f = .overflow ∨ f = .badAccess) (fun Z => [] ∈ Z) (joinAround fill L [] (a :: R)) := by
  rw [joinAround]
  refine (joinLast_rule joinPair_any fun _ _ => trivial).bind_eq fun L₁ hL₁ _ => ?_
  refine (joinFirst_rule joinPair_any (R := a :: R) fun _ _ => trivial).bind_eq fun R₁ hR₁ _ => ?_
  have headL := (joinLast_nearest fill L).of_eq hL₁
  obtain ⟨R₂, rfl, -⟩ := (joinFirst_following fill a R).of_eq hR₁
  by_cases hbefore : ∃ z, nearest fill L = some z ∧ joins fill z [] = true
  · obtain ⟨z, hz, hjoins⟩ := hbefore
    obtain ⟨L₂, rfl⟩ : ∃ L₂, L₁ = z :: L₂ := head?_eq_some_iff.mp (headL.trans hz)
    rw [joinBefore, joinPair_eq, if_pos hjoins, if_pos rfl]
    exact .inr rfl
  have hnot : ∀ z, nearest fill L = some z → joins fill z [] = false := by
    intro z hz
    exact Bool.eq_false_iff.mpr fun hjoins => hbefore ⟨z, hz, hjoins⟩
  have hbehind : joins fill [] (following fill a R) = false :=
    Bool.eq_false_iff.mpr fun hjoins => stays ⟨hnot, hjoins⟩
  rw [joinBefore_empty headL hnot, ok_bind]
  dsimp only
  rw [joinFirst, joinPair_eq, hbehind]
  exact mem_append_right _ (mem_cons_self ..)

end Joining

end JitRedis
