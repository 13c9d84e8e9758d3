import JitRedis.Lib.Chunks
import JitRedis.Quicklist.EndsRun

/-!
# Quicklists are sequences of strings

Pushing, popping, reading, replacing and appending do on a quicklist what they do on a list of strings,
and every operation restores the cached counts and sizes. Compression is out of the picture: `bare`
drops it from the nodes, and the invariant `Quicklist.Ends` keeps the ziplists readable.
-/

namespace JitRedis

open Fallible Chunks List QuicklistNode Quicklist

variable {lzf : Nat → Bool} {q : Quicklist} {i : Nat} {l : List Bytes} {nd : QuicklistNode}

def QuicklistNode.texts (nd : QuicklistNode) : List Bytes := nd.zl.texts

@[simp] lemma QuicklistNode.length_texts (nd : QuicklistNode) : nd.texts.length = nd.zl.length :=
  JitRedis.length_texts nd.zl

/-- A node that is not empty and whose cached count and size are right. -/
structure QuicklistNode.Tidy (nd : QuicklistNode) : Prop where
  nonempty : nd.zl ≠ []
  count : nd.count = nd.zl.length
  sz : nd.sz = ziplistBlobLen nd.zl
  fits : nd.zl.length < 2 ^ 16
  small : ziplistBlobLen nd.zl < 2 ^ 32

/-- The nodes store the list of strings, and every cached count and size is right. -/
structure Quicklist.Stores (q : Quicklist) (l : List Bytes) : Prop where
  tidy : ∀ nd ∈ q.bare, nd.Tidy
  texts : q.bare.flatMap QuicklistNode.texts = l
  count : q.count = l.length
  len : q.len = q.nodes.length

/-- The quicklist stores the list of strings, and its bookkeeping is right. -/
structure Quicklist.Holds (q : Quicklist) (l : List Bytes) : Prop extends q.Ends where
  tidy : ∀ nd ∈ q.bare, nd.Tidy
  texts : q.bare.flatMap QuicklistNode.texts = l
  count : q.count = l.length
  fill : q.fill < 2 ^ 15

lemma Quicklist.Holds.stores (h : q.Holds l) : q.Stores l := ⟨h.tidy, h.texts, h.count, h.len⟩

lemma two_mul_length_le_blobLen (zl : Ziplist) : 11 + 2 * zl.length ≤ ziplistBlobLen zl := by
  have two : ∀ n ∈ zl.map ZlEntry.rawlen, 2 ≤ n := by
    intro n hn
    obtain ⟨e, -, rfl⟩ := mem_map.mp hn
    have h1 : 1 ≤ if e.big then 5 else 1 := by split <;> omega
    have h2 : 1 ≤ e.value.lensize := by
      cases e.value with
      | str s => rw [ZlValue.lensize]; split <;> [omega; split <;> omega]
      | int v => exact le_rfl
    rw [ZlEntry.rawlen]
    omega
  have := card_nsmul_le_sum _ 2 two
  rw [length_map, smul_eq_mul] at this
  rw [ziplistBlobLen]
  omega

variable {sz p : Nat} {q' : Quicklist} {v : Bytes} {zl : Ziplist} {idx : Int}

lemma allowsSize_le {fill : Int} {countFits : Bool} (h : allowsSize fill sz countFits) : sz ≤ 65536 := by
  rw [allowsSize] at h
  split at h
  · rename_i hmeets
    rw [sizeMeetsOptimizationRequirement] at hmeets
    split at hmeets
    · cases hmeets
    split at hmeets
    · cases hmeets
    rename_i level hlevel
    have hmem := mem_of_getElem? hlevel
    have hle := of_decide_eq_true hmeets
    simp only [mem_cons, not_mem_nil, or_false] at hmem
    omega
  · split at h
    · cases h
    · rename_i hlimit
      rw [sizeSafetyLimit] at hlimit
      omega

lemma room_of_allowInsert {fill : Int} (tidy : nd.Tidy) (nowrap : nd.sz + sz + 10 < 2 ^ 32)
    (allow : quicklistNodeAllowInsert (some nd) fill sz) : nd.zl.length + 1 < 2 ^ 16 := by
  have hlen := two_mul_length_le_blobLen nd.zl
  have hsz := tidy.sz
  have small : (if sz < 254 then 1 else 5) + (if sz < 64 then 1 else if sz < 16384 then 2 else 5) ≤ 10 := by
    split <;> split <;> (try split) <;> omega
  have hle := allowsSize_le allow
  omega

lemma readZl_eq (raw : q.RawAt i) (h : q.bare[i]? = some nd) : q.readZl i = .ok nd.zl := by
  rw [Quicklist.bare, getElem?_map, Option.map_eq_some_iff] at h
  obtain ⟨nd', hnd, rfl⟩ := h
  rw [Quicklist.readZl, hnd]
  simp only [raw nd' hnd, reduceCtorEq, if_false]
  rfl

lemma allowInsert_bare {fill : Int} :
    quicklistNodeAllowInsert q.nodes[i]? fill sz = quicklistNodeAllowInsert q.bare[i]? fill sz := by
  rw [Quicklist.bare, getElem?_map]
  cases q.nodes[i]? <;> rfl

lemma exists_endNode (hne : q.nodes ≠ []) (head : Bool) : ∃ nd, q.bare[q.endNode head]? = some nd := by
  have := length_pos_of_ne_nil hne
  have hlt : q.endNode head < q.bare.length := by
    cases head <;> simp [endNode, this]
  exact ⟨_, getElem?_eq_getElem hlt⟩

lemma Quicklist.Stores.nodes_eq_nil (h : q.Stores l) (hl : l = []) : q.nodes = [] := by
  cases hn : q.nodes with
  | nil => rfl
  | cons nd rest =>
    have hmem : nd.bare ∈ q.bare := by simp [bare, hn]
    have htexts : nd.bare.texts = [] := flatMap_eq_nil_iff.mp (h.texts.trans hl) _ hmem
    exact absurd (map_eq_nil_iff.mp htexts) (h.tidy _ hmem).nonempty

lemma Quicklist.Stores.eq_nil (h : q.Stores l) (hn : q.nodes = []) : l = [] := by
  rw [← h.texts, bare, hn]
  rfl

lemma Quicklist.Stores.congr (h : q.Stores l) (shape : q.SameShape q') : q'.Stores l :=
  ⟨shape.bare ▸ h.tidy, shape.bare ▸ h.texts, shape.count ▸ h.count, by rw [shape.len, h.len, shape.length]⟩

lemma Quicklist.Stores.length_eq (h : q.Stores l) (hnd : q.bare[i]? = some nd) :
    l.length = (before QuicklistNode.texts q.bare i).length + nd.zl.length + (behind QuicklistNode.texts q.bare i).length := by
  rw [← h.texts, flatMap_eq hnd, length_append, length_append, nd.length_texts]

lemma Quicklist.Stores.modify (h : q.Stores l) (hi : q.bare[i]? = some nd) {f} (bare : q'.bare = q.bare.modify i f)
    (tidy : (f nd).Tidy) {l'}
    (texts : l' = before QuicklistNode.texts q.bare i ++ (f nd).texts ++ behind QuicklistNode.texts q.bare i)
    (count : q'.count = l'.length) (len : q'.len = q'.nodes.length) : q'.Stores l' := by
  refine ⟨fun nd' hnd' => ?_, ?_, count, len⟩
  · rcases mem_modify_cases hi (bare ▸ hnd') with rfl | old
    · exact tidy
    · exact h.tidy nd' old
  · rw [bare, flatMap_modify hi, texts]

lemma Quicklist.Stores.insert (h : q.Stores l) (pos : Nat) (nd : QuicklistNode)
    (bare : q'.bare = q.bare.insertIdx pos nd) (hpos : pos ≤ q.bare.length) (tidy : nd.Tidy)
    {l'} (texts : l' = (q.bare.take pos).flatMap QuicklistNode.texts ++ nd.texts ++
      (q.bare.drop pos).flatMap QuicklistNode.texts)
    (count : q'.count = l'.length) (len : q'.len = q'.nodes.length) : q'.Stores l' := by
  refine ⟨fun nd' hnd' => ?_, ?_, count, len⟩
  · rw [bare, mem_insertIdx hpos] at hnd'
    rcases hnd' with rfl | hmem
    · exact tidy
    · exact h.tidy nd' hmem
  · rw [bare, flatMap_insertIdx hpos, texts]

/-- A list made from `q` that stores the strings, with the same fill factor. -/
def Quicklist.Yields (q : Quicklist) (l : List Bytes) (q' : Quicklist) : Prop := q'.Stores l ∧ q'.fill = q.fill

lemma exists_node (hnd : q.bare[i]? = some nd) : ∃ nd₀, q.nodes[i]? = some nd₀ ∧ nd₀.bare = nd := by
  rwa [Quicklist.bare, getElem?_map, Option.map_eq_some_iff] at hnd

lemma compressDepth_shape {env node}
    (big : q.compress * 2 ≤ q.len → q.compress * 2 ≤ q.nodes.length + 1) :
    Sat NoFault (fun q' => q.SameShape q') (quicklistCompressDepth env q node) := by
  by_cases hskip : q.compress = 0 ∨ q.len < q.compress * 2
  · rw [quicklistCompressDepth, if_pos hskip]
    exact .refl q
  · exact (compressDepth_spec (fun h => absurd h hskip) big).mono fun _ h => h.2

lemma delNode_shape {env} (len : q.len = q.nodes.length) (hnd : q.bare[i]? = some nd) :
    Sat NoFault (fun q' => q'.bare = q.bare.eraseIdx i ∧ q'.count = ulongSub q.count nd.count ∧
      q'.len = q'.nodes.length ∧ q'.fill = q.fill) (quicklistDelNode env q i) := by
  obtain ⟨nd, hnode, rfl⟩ := exists_node hnd
  have hi := (List.getElem?_eq_some_iff.mp hnode).1
  rw [quicklistDelNode, hnode]
  refine (compressDepth_shape ?_).bind fun q' shape => ⟨?_, ?_, ?_, shape.fill⟩
  · intro hlen
    dsimp only at hlen ⊢
    rw [length_eraseIdx_of_lt hi]
    omega
  · exact shape.bare.trans (eraseIdx_map ..).symm
  · dsimp only
    rw [shape.count]
    rfl
  · have hlen := shape.length
    rw [length_eraseIdx_of_lt hi] at hlen
    rw [shape.len, hlen, len]

lemma compress_shape (lzf : Nat → Bool) (len : q.len ≤ q.nodes.length) (hi : i < q.nodes.length) :
    Sat NoFault (fun q' => q.SameShape q') (quicklistCompress ⟨lzf, false⟩ q i) := by
  rw [quicklistCompress, getElem?_eq_getElem hi]
  dsimp only
  split
  · exact sameShape_compressNode
  · exact compressDepth_shape fun hlen => by omega

lemma insertNode_shape (lzf : Nat → Bool) (after : Bool) (new : QuicklistNode) (len : q.len = q.nodes.length)
    (hi : i < q.nodes.length) :
    Sat NoFault (fun q' => q'.bare = q.bare.insertIdx (if after then i + 1 else i) new.bare ∧
        q'.len = q'.nodes.length ∧ q'.count = q.count ∧ q'.fill = q.fill)
      (quicklistInsertNode ⟨lzf, false⟩ q (some i) new after) := by
  have hlen : (q.nodes.insertIdx (if after then i + 1 else i) new).length = q.nodes.length + 1 := by
    refine length_insertIdx_of_le_length ?_ _
    split <;> omega
  rw [quicklistInsertNode]
  refine (compress_shape lzf ?_ ?_).bind fun q' shape => ⟨?_, ?_, shape.count, shape.fill⟩
  · dsimp only
    rw [hlen, len]
    omega
  · dsimp only
    rw [hlen]
    split <;> omega
  · exact shape.bare.trans (map_insertIdx ..)
  · have hlength := shape.length
    have hlen' := shape.len
    rw [hlen', hlength, hlen, len]

/-- The position of a node that is added at an end. -/
def Quicklist.newNode (q : Quicklist) (head : Bool) : Nat := if head then 0 else q.nodes.length

lemma insertNode_end (len : q.len = q.nodes.length) (new : QuicklistNode) (head : Bool) :
    Sat NoFault (fun q' => q'.bare = q.bare.insertIdx (q.newNode head) new.bare ∧ q'.len = q'.nodes.length ∧
        q'.count = q.count ∧ q'.fill = q.fill)
      (quicklistInsertNode ⟨lzf, false⟩ q (q.endRef head) new (!head)) := by
  by_cases he : q.nodes = []
  · rw [endRef, if_pos he, quicklistInsertNode, if_pos he]
    refine ⟨?_, ?_, rfl, rfl⟩
    · cases head <;> simp [Quicklist.bare, Quicklist.newNode, he]
    · simp [len, he]
  have hlen := length_pos_of_ne_nil he
  rw [endRef, if_neg he]
  have hi : q.endNode head < q.nodes.length := by
    cases head <;> simp [endNode, hlen]
  have hpos : (if (!head) = true then q.endNode head + 1 else q.endNode head) = q.newNode head := by
    cases head with
    | true => rfl
    | false => exact Nat.sub_add_cancel hlen
  have := insertNode_shape lzf (!head) new len hi
  rwa [hpos] at this

lemma newNode_le (head : Bool) : q.newNode head ≤ q.bare.length := by
  rw [Quicklist.newNode, length_bare]
  split <;> omega

lemma Quicklist.Stores.texts_newNode (h : q.Stores l) (head : Bool) (t : List Bytes) :
    (q.bare.take (q.newNode head)).flatMap QuicklistNode.texts ++ t ++
      (q.bare.drop (q.newNode head)).flatMap QuicklistNode.texts = if head then t ++ l else l ++ t := by
  cases head with
  | true => simp [newNode, h.texts]
  | false =>
    have : q.bare.length = q.newNode false := length_bare
    rw [← this, take_length, drop_length, h.texts]
    simp

lemma Quicklist.Stores.texts_endNode (h : q.Stores l) (head : Bool) {nd}
    (hnd : q.bare[q.endNode head]? = some nd) (v : Bytes) :
    before QuicklistNode.texts q.bare (q.endNode head) ++
        (if head then v :: nd.texts else nd.texts ++ [v]) ++
        behind QuicklistNode.texts q.bare (q.endNode head) =
      if head then v :: l else l ++ [v] := by
  have hl := flatMap_eq (f := QuicklistNode.texts) hnd
  rw [h.texts] at hl
  cases head with
  | true => simp [hl, endNode]
  | false =>
    have : behind QuicklistNode.texts q.bare (q.endNode false) = [] := by
      rw [endNode, ← length_bare]
      exact behind_last
    simp [hl, this]

lemma clip_eq (h : v.length < 2 ^ 32) : clip v = v := by
  rw [clip, Nat.mod_eq_of_lt h, take_length]

lemma QuicklistNode.Tidy.edit (tidy : nd.Tidy) {k : Int} (hne : zl ≠ [])
    (hc : (zl.length : Int) = nd.zl.length + k) (hlt : zl.length < 2 ^ 16)
    (hs : ziplistBlobLen zl < 2 ^ 32) : ((nd.setZl zl).addCount k).Tidy := by
  refine ⟨hne, ?_, rfl, hlt, hs⟩
  have hcount := tidy.count
  show (((nd.count : Int) + k) % 2 ^ 16).toNat = zl.length
  omega

lemma length_pushed {head : Bool} {zl' : Ziplist}
    (ht : zl'.texts = if head then v :: zl.texts else zl.texts ++ [v]) : zl'.length = zl.length + 1 := by
  rw [← length_texts, ht]
  cases head <;> simp

lemma Quicklist.Stores.pushed (h : q.Stores l) {head : Bool}
    (hnd : q.bare[q.endNode head]? = some nd) (room : nd.zl.length + 1 < 2 ^ 16)
    (ht : zl.texts = if head then v :: nd.texts else nd.texts ++ [v]) (hs : ziplistBlobLen zl < 2 ^ 32)
    (hq' : q' = q.modifyNode (q.endNode head) (·.setZl zl)) :
    q.Yields (if head then v :: l else l ++ [v])
      { q'.modifyNode (q'.endNode head) (·.addCount 1) with count := q'.count + 1 } := by
  subst hq'
  have hend : (q.modifyNode (q.endNode head) (·.setZl zl)).endNode head = q.endNode head := by
    rw [endNode, length_modifyNode]
    rfl
  have hlen := length_pushed ht
  rw [hend]
  refine ⟨h.modify (f := fun nd => (nd.setZl zl).addCount 1) hnd ?_ ?_ ?_ ?_ ?_, rfl⟩
  · refine (bare_modifyNode (g := (·.addCount 1)) fun _ => rfl).trans ?_
    rw [bare_modifyNode (g := (·.setZl zl)) fun _ => rfl, modify_modify_eq]
    rfl
  · refine (h.tidy nd (mem_of_getElem? hnd)).edit ?_ (by omega) (by omega) hs
    rintro rfl
    cases hlen
  · rw [← h.texts_endNode head hnd v, ← ht]
    rfl
  · cases head <;> simp [h.count, modifyNode]
  · exact h.len.trans (by rw [length_modifyNode, length_modifyNode])

lemma Quicklist.Stores.pushedNew (h : q.Stores l) {head : Bool}
    (ht : zl.texts = [v]) (hs : ziplistBlobLen zl < 2 ^ 32)
    (bare : q'.bare = q.bare.insertIdx (q.newNode head) (quicklistCreateNode zl (ziplistBlobLen zl) 0))
    (len : q'.len = q'.nodes.length) (count : q'.count = q.count) (fill : q'.fill = q.fill) :
    q.Yields (if head then v :: l else l ++ [v])
      { q'.modifyNode (q'.endNode head) (·.addCount 1) with count := q'.count + 1 } := by
  have hlen : q'.nodes.length = q.nodes.length + 1 := by
    rw [← length_bare, bare, length_insertIdx_of_le_length (newNode_le head), length_bare]
  have hend : q'.endNode head = q.newNode head := by
    rw [endNode, newNode, hlen]
    rfl
  have one : zl.length = 1 := by
    rw [← length_texts, ht]
    rfl
  rw [hend]
  refine ⟨h.insert (q.newNode head) (quicklistCreateNode zl (ziplistBlobLen zl) 1) ?_ (newNode_le head) ?_ ?_ ?_ ?_, fill⟩
  · refine (bare_modifyNode (g := (·.addCount 1)) fun _ => rfl).trans ?_
    rw [bare, modify_insertIdx (newNode_le head)]
    rfl
  · refine ⟨?_, one.symm, rfl, ?_, hs⟩
    · rintro rfl
      cases one
    · exact one.trans_lt (by norm_num)
  · rw [h.texts_newNode head]
    show _ = if head then zl.texts ++ l else l ++ zl.texts
    rw [ht]
    cases head <;> rfl
  · cases head <;> simp [h.count, count]
  · exact len.trans length_modifyNode.symm

lemma push_yields (ends : q.Ends) (h : q.Stores l) {head : Bool} (hv : v.length < 2 ^ 32)
    (nowrap : ∀ nd, q.bare[q.endNode head]? = some nd → nd.sz + v.length + 10 < 2 ^ 32) :
    Sat (· = .overflow) (q.Yields (if head then v :: l else l ++ [v])) (quicklistPush ⟨lzf, false⟩ q v head) := by
  rw [quicklistPush, quicklistPushNode, allowInsert_bare, clip_eq hv]
  by_cases allow : quicklistNodeAllowInsert q.bare[q.endNode head]? q.fill v.length = true
  · rw [if_pos allow]
    cases hnd : q.bare[q.endNode head]? with
    | none =>
      rw [hnd] at allow
      cases allow
    | some nd =>
      have tidy := h.tidy nd (mem_of_getElem? hnd)
      have room := room_of_allowInsert tidy (nowrap nd hnd) (hnd ▸ allow)
      rw [readZl_eq (ends.rawAt_endNode head) hnd]
      refine Sat.bind (P := fun q' => ∃ zl : Ziplist, q' = q.modifyNode (q.endNode head) (·.setZl zl) ∧
        zl.texts = (if head then v :: nd.texts else nd.texts ++ [v]) ∧ ziplistBlobLen zl < 2 ^ 32) ?_ ?_
      · exact (ziplistPush_spec nd.zl v head).bind fun zl hzl => ⟨zl, rfl, hzl⟩
      · rintro q' ⟨zl, hq', ht, hs⟩
        exact h.pushed hnd room ht hs hq'
  · rw [if_neg allow]
    refine Sat.bind (P := fun q' => ∃ zl : Ziplist, (zl.texts = [v] ∧ ziplistBlobLen zl < 2 ^ 32) ∧
      q'.bare = q.bare.insertIdx (q.newNode head) (quicklistCreateNode zl (ziplistBlobLen zl) 0) ∧
      q'.len = q'.nodes.length ∧ q'.count = q.count ∧ q'.fill = q.fill) ?_ ?_
    · refine (ziplistPush_spec ziplistNew v head).bind ?_
      rintro zl ⟨ht, hs⟩
      have ht' : zl.texts = [v] := by
        rw [ht]
        cases head <;> rfl
      exact (insertNode_end h.len _ head).total.mono fun q' hq' => ⟨zl, ⟨ht', hs⟩, hq'⟩
    · rintro q' ⟨zl, ⟨ht, hs⟩, bare, len, count, fill⟩
      exact h.pushedNew ht hs bare len count fill

lemma appendZiplist_yields (h : q.Stores l) (hne : zl ≠ []) (hlt : zl.length < 2 ^ 16)
    (hs : ziplistBlobLen zl < 2 ^ 32) :
    Sat NoFault (q.Yields (l ++ zl.texts)) (quicklistAppendZiplist ⟨lzf, false⟩ q zl) := by
  have hc : ziplistLen zl % 2 ^ 16 = zl.length := Nat.mod_eq_of_lt hlt
  refine (insertNode_end h.len _ false).bind ?_
  rintro q' ⟨bare, len, count, fill⟩
  refine ⟨h.insert (q.newNode false) (quicklistCreateNode zl (ziplistBlobLen zl) (ziplistLen zl % 2 ^ 16))
    ?_ (newNode_le false) ⟨hne, hc, rfl, hlt, hs⟩ (h.texts_newNode false zl.texts).symm ?_ len, fill⟩
  · exact bare
  · show q'.count + ziplistLen zl % 2 ^ 16 = (l ++ zl.texts).length
    rw [count, hc, h.count, length_append, length_texts]

lemma ulongSub_eq {a b : Nat} (h : b ≤ a) : ulongSub a b = a - b := if_pos h

lemma Quicklist.Stores.erase (h : q.Stores l) (hnd : q.bare[i]? = some nd) (bare : q'.bare = q.bare.eraseIdx i)
    (count : q'.count = q.count - nd.zl.length) (len : q'.len = q'.nodes.length) :
    q'.Stores (l.take (before QuicklistNode.texts q.bare i).length ++
      l.drop ((before QuicklistNode.texts q.bare i).length + nd.zl.length)) := by
  have hrange := take_drop_flatMap (p := 0) (n := nd.zl.length) (f := QuicklistNode.texts) hnd (by simp)
  have hall : nd.texts.drop nd.zl.length = [] := drop_eq_nil_of_le (by simp)
  rw [h.texts, Nat.zero_add, Nat.add_zero, take_zero, hall, append_nil, append_nil] at hrange
  have hlen := congrArg length (h.texts.symm.trans (flatMap_eq hnd))
  rw [hrange]
  refine ⟨fun nd' h' => h.tidy nd' (mem_of_mem_eraseIdx (bare ▸ h')), ?_, ?_, len⟩
  · rw [bare, flatMap_eraseIdx]
  · rw [count, h.count, hlen]
    simp only [length_append, nd.length_texts]
    omega

lemma Quicklist.Stores.shrink (h : q.Stores l) (hnd : q.bare[i]? = some nd) {del : Nat} (hdel : p + del ≤ nd.zl.length)
    {zl : Ziplist} (htexts : zl.texts = nd.texts.take p ++ nd.texts.drop (p + del)) (hne : zl ≠ [])
    (hsmall : ziplistBlobLen zl < 2 ^ 32) (bare : q'.bare = q.bare.modify i fun nd => (nd.setZl zl).addCount (-del))
    (count : q'.count = q.count - del) (len : q'.len = q'.nodes.length) :
    q'.Stores (l.take ((before QuicklistNode.texts q.bare i).length + p) ++
      l.drop ((before QuicklistNode.texts q.bare i).length + p + del)) := by
  have tidy := h.tidy nd (mem_of_getElem? hnd)
  have hfits := tidy.fits
  have hrange := take_drop_flatMap (p := p) (n := del) (f := QuicklistNode.texts) hnd (by simpa using hdel)
  have hzl : zl.length = nd.zl.length - del := by
    rw [← length_texts, htexts, length_append, length_take, length_drop, nd.length_texts]
    omega
  have hlen := congrArg length (h.texts.symm.trans (flatMap_eq hnd))
  rw [h.texts] at hrange
  rw [hrange]
  refine h.modify hnd bare (tidy.edit hne (by omega) (by omega) hsmall) ?_ ?_ len
  · rw [← htexts]
    rfl
  · rw [count, h.count]
    simp only [length_append, length_take, length_drop, nd.length_texts] at hlen ⊢
    omega

lemma delIndex_stores (lzf : Nat → Bool) (h : q.Stores l) (raw : q.RawAt i) (hnd : q.bare[i]? = some nd)
    (hp : p < nd.zl.length) :
    Sat (fun f => f = .overflow ∧ ziplistDelete nd.zl p 1 = .error f)
      (fun r => q.Yields (l.eraseIdx ((before QuicklistNode.texts q.bare i).length + p)) r.1 ∧
        ∃ zl, ziplistDelete nd.zl p 1 = .ok zl ∧ zl.length + 1 = nd.zl.length ∧
          r.2 = decide (zl = []) ∧ r.1.bare = if zl = [] then q.bare.eraseIdx i else
            q.bare.modify i fun nd => (nd.setZl zl).addCount (-(1 : Nat)))
      (quicklistDelIndex ⟨lzf, false⟩ q i p) := by
  have tidy := h.tidy nd (mem_of_getElem? hnd)
  have hcount := tidy.count
  have hfits := tidy.fits
  have hlen := h.length_eq hnd
  have hq := h.count
  have hspec := ziplistDelete_spec nd.zl p 1 tidy.small
  rw [quicklistDelIndex, readZl_eq raw hnd, ok_bind]
  cases hdel : ziplistDelete nd.zl p 1 with
  | error f =>
    rw [hdel] at hspec
    exact ⟨hspec, rfl⟩
  | ok zl =>
    rw [hdel] at hspec
    obtain ⟨htexts, hsmall⟩ := hspec
    have hzl : zl.length + 1 = nd.zl.length := by
      rw [← length_texts zl, htexts, length_append, length_take, length_drop, length_texts]
      omega
    rw [ok_bind]
    extract_lets q₁
    have bare₁ : q₁.bare = q.bare.modify i fun nd => { nd with zl }.addCount (-1) := bare_modifyNode fun _ => rfl
    have hnd₁ : q₁.bare[i]? = some ({ nd with zl }.addCount (-1)) := by
      rw [bare₁, getElem?_modify_eq, hnd]
      rfl
    obtain ⟨nd₀, hnd₀, hbare⟩ := exists_node hnd₁
    have hcount₀ : nd₀.count = zl.length := by
      have hc : nd₀.count = (((nd.count : Int) + -1) % 2 ^ 16).toNat := congrArg QuicklistNode.count hbare
      omega
    have herase (l' : List Bytes) (k : Nat) : l'.eraseIdx k = l'.take k ++ l'.drop (k + 1) :=
      eraseIdx_eq_take_drop_succ ..
    rw [hnd₀, Option.any_some, hcount₀, herase]
    by_cases hz : zl = []
    · subst hz
      have hone : nd.zl.length = 1 := hzl.symm
      obtain rfl : p = 0 := by omega
      rw [if_pos (by rfl)]
      have len₁ : q₁.len = q₁.nodes.length := h.len.trans length_modifyNode.symm
      refine (delNode_shape len₁ hnd₁).total.bind ?_
      rintro q₂ ⟨bare₂, count₂, len₂, fill₂⟩
      rw [bare₁, eraseIdx_modify_of_eq] at bare₂
      have hzero : ({ nd with zl := [] }.addCount (-1) : QuicklistNode).count = 0 := by
        show (((nd.count : Int) + -1) % 2 ^ 16).toNat = 0
        omega
      rw [hzero, ulongSub_eq (Nat.zero_le _)] at count₂
      refine ⟨⟨?_, fill₂⟩, [], rfl, hone.symm, rfl, (if_pos rfl).symm ▸ bare₂⟩
      have count₃ : ulongSub q₂.count 1 = q.count - nd.zl.length := by
        rw [count₂, hone]
        exact ulongSub_eq (by show 1 ≤ q.count; omega)
      have stores : Quicklist.Stores { q₂ with count := ulongSub q₂.count 1 } _ := h.erase hnd bare₂ count₃ len₂
      rwa [hone] at stores
    · have hzpos := length_pos_of_ne_nil hz
      rw [if_neg (by simpa using Nat.ne_of_gt hzpos)]
      have bare₂ : (q₁.modifyNode i (·.setZl zl)).bare =
          q.bare.modify i fun nd => (nd.setZl zl).addCount (-(1 : Nat)) := by
        refine (bare_modifyNode (g := (·.setZl zl)) fun _ => rfl).trans ?_
        rw [bare₁, modify_modify_eq]
        rfl
      refine ⟨⟨?_, rfl⟩, zl, rfl, hzl, (decide_eq_false hz).symm, (if_neg hz).symm ▸ bare₂⟩
      refine h.shrink hnd (by omega) htexts hz hsmall bare₂ ?_ ?_
      · exact ulongSub_eq (by show 1 ≤ q.count; omega)
      · exact h.len.trans (by rw [length_modifyNode, length_modifyNode])

section

variable (h : q.Stores l)
include h

lemma Quicklist.Stores.endEntry (head : Bool) (hnd : q.bare[q.endNode head]? = some nd) :
    ∃ p, ziplistIndex nd.zl (if head then 0 else -1) = some p ∧ p < nd.zl.length ∧
      (before QuicklistNode.texts q.bare (q.endNode head)).length + p =
        if head then 0 else l.length - 1 := by
  have hzl := length_pos_of_ne_nil (h.tidy nd (mem_of_getElem? hnd)).nonempty
  cases head with
  | true => exact ⟨0, if_pos hzl, hzl, rfl⟩
  | false =>
    refine ⟨nd.zl.length - 1, if_pos hzl, Nat.sub_lt hzl Nat.one_pos, ?_⟩
    have hall := congrArg length (h.texts.symm.trans (flatMap_eq hnd))
    have hlast : behind QuicklistNode.texts q.bare (q.endNode false) = [] := by
      rw [endNode, ← length_bare]
      exact behind_last
    rw [hlast, append_nil, length_append, nd.length_texts] at hall
    simp only [Bool.false_eq_true, if_false]
    omega

lemma Quicklist.Stores.text_entry (hnd : q.bare[i]? = some nd)
    (hp : p < nd.zl.length) : (nd.zl[p]?.map fun e => e.value.text) =
      l[(before QuicklistNode.texts q.bare i).length + p]? := by
  rw [← h.texts, getElem?_flatMap hnd (by rwa [nd.length_texts])]
  exact getElem?_map.symm

lemma popCustom_yields (ends : q.Ends) (head : Bool) :
    Sat (· = .overflow) (fun r => q.Yields (if head then l.tail else l.dropLast) r.1 ∧
      r.2 = if head then l.head? else l.getLast?) (quicklistPopCustom ⟨lzf, false⟩ q head) := by
  rw [quicklistPopCustom]
  by_cases hl : l = []
  · have none : q.count = 0 ∨ q.nodes = [] := .inr (h.nodes_eq_nil hl)
    rw [if_pos none]
    subst hl
    cases head <;> exact ⟨⟨h, rfl⟩, rfl⟩
  have hne : q.nodes ≠ [] := fun hn => hl (h.eq_nil hn)
  have some : ¬ (q.count = 0 ∨ q.nodes = []) := by
    rw [h.count, length_eq_zero_iff]
    exact fun hor => hor.elim hl hne
  obtain ⟨nd, hnd⟩ := exists_endNode hne head
  obtain ⟨p, hindex, hp, hk⟩ := h.endEntry head hnd
  have hvalue := h.text_entry hnd hp
  rw [if_neg some, readZl_eq (ends.rawAt_endNode head) hnd]
  refine Sat.bind (P := fun zl => zl = nd.zl) rfl ?_
  rintro _ rfl
  rw [hindex]
  refine ((delIndex_stores lzf h (ends.rawAt_endNode head) hnd hp).weaken And.left).bind ?_
  rintro ⟨q', gone⟩ ⟨⟨h', fill⟩, -⟩
  rw [hk] at h' hvalue
  cases head with
  | true => exact ⟨⟨by simpa using h', fill⟩, hvalue.trans head?_eq_getElem?.symm⟩
  | false =>
    refine ⟨⟨?_, fill⟩, hvalue.trans getLast?_eq_getElem?.symm⟩
    rwa [dropLast_eq_eraseIdx (Nat.sub_add_cancel (length_pos_of_ne_nil hl))]

end

/-- The position that an index selects in a sequence; a negative one counts from the end. -/
def listIndex (n : Nat) (idx : Int) : Option Nat :=
  if idx < 0 then (if (-idx).toNat ≤ n then some (n - (-idx).toNat) else none)
  else if idx.toNat < n then some idx.toNat else none

lemma findNode_spec {nodes} (tidy : ∀ nd ∈ nodes, nd.count = nd.zl.length)
    {index : Nat} (accum pos : Nat) (le : accum ≤ index)
    (lt : index < accum + (nodes.flatMap texts).length) :
    ∃ i nd, nodes[i]? = some nd ∧
      findNode index nodes accum pos =
        some (pos + i, accum + (before texts nodes i).length) ∧
      accum + (before texts nodes i).length ≤ index ∧
      index < accum + (before texts nodes i).length + nd.zl.length := by
  induction nodes generalizing accum pos with
  | nil => simp at lt; omega
  | cons nd rest ih =>
    have hc := tidy nd (mem_cons_self ..)
    rw [findNode]
    by_cases here : index < accum + nd.count
    · rw [if_pos here]
      exact ⟨0, nd, rfl, rfl, le, hc ▸ here⟩
    rw [if_neg here]
    rw [flatMap_cons, length_append, nd.length_texts] at lt
    obtain ⟨i, nd', hi, hfind, hle, hlt⟩ := ih (fun n hn => tidy n (mem_cons_of_mem _ hn))
      (accum + nd.count) (pos + 1) (by omega) (by omega)
    have hb : (before texts (nd :: rest) (i + 1)).length =
        nd.count + (before texts rest i).length := by
      simp [before, hc]
    refine ⟨i + 1, nd', hi, ?_, by omega, by omega⟩
    rw [hfind, hb]
    congr 2 <;> omega

lemma findNode_map_bare {nodes} {index accum pos : Nat} :
    findNode index (nodes.map bare) accum pos = findNode index nodes accum pos := by
  induction nodes generalizing accum pos with
  | nil => rfl
  | cons nd rest ih =>
    rw [map_cons, findNode, ih]
    rfl

lemma Quicklist.Stores.locate_some (h : q.Stores l) {k : Nat}
    (hk : listIndex l.length idx = some k) :
    ∃ i nd offset p, q.locate idx = some (i, offset) ∧ q.bare[i]? = some nd ∧
      ziplistIndex nd.zl offset = some p ∧ p < nd.zl.length ∧
      (before QuicklistNode.texts q.bare i).length + p = k ∧ (offset < 0 ↔ idx < 0) := by
  have counts : ∀ nd ∈ q.bare, nd.count = nd.zl.length := fun nd hnd => (h.tidy nd hnd).count
  rw [listIndex] at hk
  rw [locate]
  by_cases neg : idx < 0
  · -- From the tail: the search runs over the reversed nodes.
    rw [if_pos neg] at hk ⊢
    split at hk
    · rename_i hle
      cases hk
      set index := (-idx - 1).toNat with hindex
      have hlt : index < l.length := by omega
      have hlen : (q.bare.reverse.flatMap QuicklistNode.texts).length = l.length := by
        rw [← h.texts, length_flatMap, length_flatMap, map_reverse, sum_reverse]
      obtain ⟨j, nd, hj, hfind, hle', hlt'⟩ := findNode_spec
        (fun nd hnd => counts nd (mem_reverse.mp hnd)) 0 0 (Nat.zero_le index) (by omega)
      have hjlt : j < q.bare.length := by
        have := (List.getElem?_eq_some_iff.mp hj).1
        rwa [length_reverse] at this
      rw [getElem?_reverse hjlt] at hj
      rw [length_before_reverse hjlt] at hfind hle' hlt'
      have hall := congrArg length (h.texts.symm.trans (flatMap_eq hj))
      rw [length_append, length_append, nd.length_texts] at hall
      set i := q.bare.length - 1 - j with hi
      set rest := (behind QuicklistNode.texts q.bare i).length with hrest
      have hfind' : findNode index q.nodes.reverse 0 0 = some (j, rest) := by
        rw [← findNode_map_bare, map_reverse]
        exact hfind.trans (by simp)
      refine ⟨i, nd, -index - 1 + rest, nd.zl.length - 1 - (index - rest), ?_, hj, ?_, by omega, by omega, by omega⟩
      · simp only [hfind', if_neg (Nat.not_le.mpr (h.count ▸ hlt)), Option.map_some, hi, length_bare]
      · rw [ziplistIndex, if_pos (by omega)]
        have hback : (-(-(index : Int) - 1 + rest) - 1).toNat = index - rest := by omega
        simp only [hback]
        rw [if_pos (by omega)]
    · cases hk
  · rw [if_neg neg] at hk ⊢
    split at hk
    · rename_i hlt
      cases hk
      obtain ⟨i, nd, hi, hfind, hle', hlt'⟩ := findNode_spec counts 0 0 (Nat.zero_le idx.toNat)
        (by rw [h.texts]; omega)
      rw [bare, findNode_map_bare] at hfind
      set first := (before QuicklistNode.texts q.bare i).length with hfirst
      refine ⟨i, nd, idx.toNat - first, idx.toNat - first, ?_, hi, ?_, by omega, by omega, by omega⟩
      · simp only [hfind, if_neg (Nat.not_le.mpr (h.count ▸ hlt)), Option.map_some, Nat.zero_add]
        rfl
      · rw [ziplistIndex, if_neg (by omega)]
        have hoff : ((idx.toNat : Int) - first).toNat = idx.toNat - first := by omega
        rw [hoff, if_pos (by omega)]
    · cases hk

lemma Quicklist.Stores.locate_none (h : q.Stores l) (hk : listIndex l.length idx = none) :
    q.locate idx = none := by
  rw [listIndex] at hk
  rw [locate]
  have hc := h.count
  split at hk <;> rename_i neg
  · rw [if_pos neg]
    split at hk
    · cases hk
    · exact if_pos (by omega)
  · rw [if_neg neg]
    split at hk
    · cases hk
    · exact if_pos (by omega)

lemma Quicklist.Stores.index_some (h : q.Stores l) {start s} (hs : listIndex l.length start = some s) :
    ∃ i nd offset p, q.locate start = some (i, offset) ∧ q.bare[i]? = some nd ∧
      ziplistIndex nd.zl offset = some p ∧ p < nd.zl.length ∧
      (before QuicklistNode.texts q.bare i).length + p = s ∧ (offset < 0 ↔ start < 0) ∧
      quicklistIndex q start = .ok (quicklistDecompressNodeForUse q i, some ⟨i, some p, offset⟩) := by
  obtain ⟨i, nd, offset, p, hloc, hnd, hindex, hp, hpos, hsign⟩ := h.locate_some hs
  refine ⟨i, nd, offset, p, hloc, hnd, hindex, hp, hpos, hsign, ?_⟩
  have shape : q.SameShape (quicklistDecompressNodeForUse q i) := sameShape_decompressForUse
  rw [quicklistIndex, hloc]
  simp only [readZl_eq rawAt_decompressForUse (shape.bare ▸ hnd), ← hindex]
  rfl

lemma replaceAtIndex_yields (h : q.Stores l) (hv : v.length < 2 ^ 32) :
    Sat (· = .overflow) (fun r => match listIndex l.length idx with
      | none => q.Yields l r.1 ∧ r.2 = false
      | some k => q.Yields (l.set k v) r.1 ∧ r.2 = true)
      (quicklistReplaceAtIndex ⟨lzf, false⟩ q idx v) := by
  rw [quicklistReplaceAtIndex]
  cases hk : listIndex l.length idx with
  | none =>
    rw [quicklistIndex, h.locate_none hk]
    exact ⟨⟨h, rfl⟩, rfl⟩
  | some k =>
    obtain ⟨i, nd, offset, p, -, hnd, -, hp, hpos, -, hindex⟩ := h.index_some hk
    have shape : q.SameShape (quicklistDecompressNodeForUse q i) := sameShape_decompressForUse
    have h' := h.congr shape
    rw [← shape.bare] at hnd hpos
    have tidy := h'.tidy nd (mem_of_getElem? hnd)
    rw [hindex]
    refine Sat.bind (P := fun zl => zl = nd.zl) (by rw [readZl_eq rawAt_decompressForUse hnd]; rfl) ?_
    rintro _ rfl
    refine (ziplistDelete_spec nd.zl p 1 tidy.small).bind ?_
    rintro zl ⟨ht, hs⟩
    refine (ziplistInsert_spec zl p _).bind ?_
    rintro zl' ⟨ht', hs'⟩
    have texts : zl'.texts = nd.texts.set p v := by
      have hlen : (nd.zl.texts.take p).length = p := by
        rw [length_take, length_texts]
        omega
      rw [ht', ht, take_left' hlen, drop_left' hlen, clip_eq hv,
        set_eq_take_append_cons_drop, if_pos (by rwa [nd.length_texts])]
      rfl
    have hlen : zl'.length = nd.zl.length := by
      rw [← length_texts, texts, length_set, nd.length_texts]
    have hi : i < (quicklistDecompressNodeForUse q i).nodes.length := by
      rw [← length_bare]
      exact (List.getElem?_eq_some_iff.mp hnd).1
    have stored : ((quicklistDecompressNodeForUse q i).modifyNode i (·.setZl zl')).Stores (l.set k v) := by
      refine h'.modify (f := (·.setZl zl')) hnd (bare_modifyNode fun _ => rfl) ?_ ?_ ?_
        (h'.len.trans length_modifyNode.symm)
      · have hne : zl' ≠ [] := ne_nil_of_length_pos (by omega)
        exact ⟨hne, tidy.count.trans hlen.symm, rfl, hlen.trans_lt tidy.fits, hs'⟩
      · conv_lhs => rw [← h'.texts, ← hpos]
        rw [set_flatMap hnd (by rwa [nd.length_texts]), ← texts]
        rfl
      · rw [length_set]
        exact h'.count
    refine (compress_shape lzf stored.len.le (by rwa [length_modifyNode])).total.bind fun q'' shape' => ?_
    exact ⟨⟨stored.congr shape', shape'.fill.trans shape.fill⟩, rfl⟩

inductive ListOp where
  | push (value : Bytes) (head : Bool)
  | pop (head : Bool)
  | index (idx : Int)
  | replace (idx : Int) (data : Bytes)
  | appendZiplist (zl : Ziplist)
  deriving DecidableEq, Repr

def ListOp.toQuicklistOp : ListOp → QuicklistOp
  | .push value head => .push value head
  | .pop head => .pop head
  | .index idx => .index idx
  | .replace idx data => .replace idx data
  | .appendZiplist zl => .appendZiplist zl

def listStep (l : List Bytes) : ListOp → List Bytes × QuicklistReply
  | .push value head => (if head then value :: l else l ++ [value], .done)
  | .pop head => (if head then l.tail else l.dropLast, .value (if head then l.head? else l.getLast?))
  | .index idx => (l, .value ((listIndex l.length idx).bind fun k => l[k]?))
  | .replace idx data =>
    match listIndex l.length idx with
    | none => (l, .flag false)
    | some k => (l.set k data, .flag true)
  | .appendZiplist zl => (l ++ zl.texts, .done)

/-- The arguments of an operation are within the widths of the fields that will hold them: lengths of
values in 32 bits, also when `_quicklistNodeAllowInsert` adds them to the size of the end node, and the
number of entries of an appended ziplist in 16 bits. -/
def ListOp.Fits (q : Quicklist) : ListOp → Prop
  | .push value head => value.length < 2 ^ 32 ∧
      (q.nodes[q.endNode head]?.all fun nd => nd.sz + value.length + 10 < 2 ^ 32)
  | .replace _ data => data.length < 2 ^ 32
  | .appendZiplist zl => zl ≠ [] ∧ zl.length < 2 ^ 16 ∧ ziplistBlobLen zl < 2 ^ 32
  | _ => True

/-- The operation fits, makes no ziplist of `2 ^ 32` bytes, and compresses no node that must stay raw. -/
def ListOp.Safe (lzf : Nat → Bool) (q : Quicklist) (op : ListOp) : Prop :=
  op.Fits q ∧ op.toQuicklistOp.Calm lzf q ∧ quicklistStep ⟨lzf, true⟩ q op.toQuicklistOp ≠ .error .overflow

instance (q : Quicklist) : (op : ListOp) → Decidable (op.Fits q)
  | .push .. => inferInstanceAs (Decidable (_ ∧ _))
  | .replace .. => inferInstanceAs (Decidable (_ < _))
  | .appendZiplist .. => inferInstanceAs (Decidable (_ ∧ _ ∧ _))
  | .pop _ => inferInstanceAs (Decidable True)
  | .index _ => inferInstanceAs (Decidable True)

instance (lzf : Nat → Bool) (q : Quicklist) (op : ListOp) : Decidable (op.Safe lzf q) :=
  inferInstanceAs (Decidable (_ ∧ _ ∧ _))

lemma quicklistStep_yields (lzf : Nat → Bool) (ends : q.Ends) (h : q.Stores l) {op : ListOp} (fits : op.Fits q) :
    Sat (· = .overflow) (fun r => q.Yields (listStep l op).1 r.1 ∧ r.2 = (listStep l op).2)
      (quicklistStep ⟨lzf, false⟩ q op.toQuicklistOp) := by
  cases op with
  | push value head =>
    obtain ⟨hv, nowrap⟩ := fits
    refine (push_yields ends h hv fun nd hnd => ?_).bind fun _ h' => ⟨h', rfl⟩
    obtain ⟨nd, hnode, rfl⟩ := exists_node hnd
    rw [hnode] at nowrap
    exact of_decide_eq_true nowrap
  | pop head =>
    refine (popCustom_yields h ends head).bind ?_
    rintro ⟨q', v⟩ ⟨h', hv⟩
    exact ⟨h', congrArg QuicklistReply.value hv⟩
  | index idx =>
    cases hk : listIndex l.length idx with
    | none =>
      rw [ListOp.toQuicklistOp, quicklistStep, quicklistIndex, h.locate_none hk, listStep, hk]
      exact ⟨⟨h, rfl⟩, rfl⟩
    | some k =>
      obtain ⟨i, nd, offset, p, -, hnd, -, hp, hpos, -, hindex⟩ := h.index_some hk
      have shape : q.SameShape (quicklistDecompressNodeForUse q i) := sameShape_decompressForUse
      rw [← shape.bare] at hnd hpos
      rw [ListOp.toQuicklistOp, quicklistStep, hindex, listStep, hk]
      refine Sat.bind (P := fun v => v = l[k]?) ?_ ?_
      · rw [Quicklist.get, readZl_eq rawAt_decompressForUse hnd, ← hpos]
        exact (h.congr shape).text_entry hnd hp
      · rintro _ rfl
        exact ⟨⟨h.congr shape, shape.fill⟩, rfl⟩
  | replace idx data =>
    refine (replaceAtIndex_yields h fits).bind ?_
    rintro ⟨q', ok⟩ hr
    rw [listStep]
    cases hk : listIndex l.length idx with
    | none | some k =>
      rw [hk] at hr
      exact ⟨hr.1, congrArg QuicklistReply.flag hr.2⟩
  | appendZiplist zl =>
    obtain ⟨hne, hlt, hs⟩ := fits
    exact (appendZiplist_yields h hne hlt hs).total.bind fun _ h' => ⟨h', rfl⟩

lemma quicklistSetFill_lt (fill : Int) : quicklistSetFill fill < 2 ^ 15 := by
  have := Int.bmod_lt (x := if 2 ^ 15 < fill then 2 ^ 15 else if fill < -5 then -5 else fill)
    (m := 2 ^ 16) (by norm_num)
  rw [quicklistSetFill]
  omega

def mixedRun : List ListOp :=
  [.push (bulky 97) false, .push (bulky 98) false, .push (bulky 99) false, .index (-2), .replace 1 [52, 50],
    .appendZiplist [⟨false, .int 7⟩], .pop true, .pop false]

end JitRedis
