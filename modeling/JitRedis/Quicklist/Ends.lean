import JitRedis.Quicklist.Editing

/-!
# The end nodes of a quicklist stay uncompressed

The invariant `Quicklist.Ends` says that head and tail are raw, and that a list too short to have
compressed nodes has none. It survives every operation of a monitored run, that is, as long as no node
is compressed through its sticky `recompress` bit while it is an end node or the list is short.
-/

namespace JitRedis

open Fallible List Option

variable {lzf : Nat → Bool} {q : Quicklist} {i j : Nat}

/-- The node at a position, if any, is raw. -/
def Quicklist.RawAt (q : Quicklist) (i : Nat) : Prop :=
  ∀ nd, q.nodes[i]? = some nd → nd.encoding = .raw

/-- The ends are raw, and so is everything in a list that is short or does not allow compression. -/
structure Quicklist.EndsRaw (q : Quicklist) : Prop where
  head : q.RawAt 0
  tail : q.RawAt (q.nodes.length - 1)
  short : q.nodes.length < q.compress * 2 → ∀ i, q.RawAt i
  off : q.compress = 0 → ∀ (i : Nat) nd, q.nodes[i]? = some nd →
    nd.encoding = .raw ∧ nd.recompress = false

/-- The invariant of a quicklist between operations. -/
structure Quicklist.Ends (q : Quicklist) : Prop extends q.EndsRaw where
  len : q.len = q.nodes.length

/-- A change of a node that neither compresses it nor marks a raw node for recompression. -/
def Gentle (f : QuicklistNode → QuicklistNode) : Prop :=
  ∀ nd, nd.encoding = .raw → (f nd).encoding = .raw ∧ (nd.recompress = false → (f nd).recompress = false)

variable {f : QuicklistNode → QuicklistNode} {node : Option Nat} {env : QuicklistEnv}

lemma getElem?_modifyNode :
    (q.modifyNode i f).nodes[j]? = if i = j then q.nodes[j]?.map f else q.nodes[j]? := by
  rw [Quicklist.modifyNode, getElem?_modify]
  split <;> cases q.nodes[j]? <;> rfl

@[simp] lemma length_modifyNode :
    (q.modifyNode i f).nodes.length = q.nodes.length := by
  simp [Quicklist.modifyNode]

lemma Quicklist.RawAt.modify (g : Gentle f) (h : q.RawAt j) :
    (q.modifyNode i f).RawAt j := by
  intro nd hnd
  rw [getElem?_modifyNode] at hnd
  split at hnd
  · obtain ⟨nd', hnd', rfl⟩ := map_eq_some_iff.mp hnd
    exact (g nd' (h nd' hnd')).1
  · exact h nd hnd

lemma Quicklist.EndsRaw.modify (g : Gentle f) (h : q.EndsRaw) :
    (q.modifyNode i f).EndsRaw where
  head := h.head.modify g
  tail := by
    rw [length_modifyNode]
    exact h.tail.modify g
  short hs j := by
    rw [length_modifyNode] at hs
    exact (h.short hs j).modify g
  off hc j nd hnd := by
    rw [getElem?_modifyNode] at hnd
    split at hnd
    · obtain ⟨nd', hnd', rfl⟩ := map_eq_some_iff.mp hnd
      obtain ⟨h1, h2⟩ := h.off hc j nd' hnd'
      exact ⟨(g nd' h1).1, (g nd' h1).2 h2⟩
    · exact h.off hc j nd hnd

lemma Quicklist.Ends.modify (g : Gentle f) (h : q.Ends) :
    (q.modifyNode i f).Ends :=
  { h.toEndsRaw.modify g with
    len := by
      rw [length_modifyNode]
      exact h.len }

lemma Quicklist.Ends.setCount (h : q.Ends) (n : Nat) : ({ q with count := n } : Quicklist).Ends :=
  ⟨⟨h.head, h.tail, h.short, h.off⟩, h.len⟩

lemma Quicklist.EndsRaw.congr {q' : Quicklist} (h : q.EndsRaw) (hn : q'.nodes = q.nodes)
    (hc : q'.compress = q.compress) : q'.EndsRaw := by
  obtain ⟨h1, h2, h3, h4⟩ := h
  constructor
  · rwa [Quicklist.RawAt, hn]
  · rwa [Quicklist.RawAt, hn]
  · simpa only [Quicklist.RawAt, hn, hc] using h3
  · simpa only [hn, hc] using h4

lemma gentle_of_eq (h1 : ∀ nd, (f nd).encoding = nd.encoding)
    (h2 : ∀ nd, (f nd).recompress = nd.recompress) : Gentle f := by
  intro nd hnd
  rw [h1, h2]
  exact ⟨hnd, id⟩

lemma gentle_decompress : Gentle fun nd => { nd with encoding := .raw } :=
  fun _ _ => ⟨rfl, id⟩

lemma gentle_decompressForUse : Gentle fun nd =>
    if nd.encoding = .lzf then { nd with encoding := .raw, recompress := true } else nd := by
  intro nd hnd
  simp [hnd]

lemma rawAt_decompressForUse : (quicklistDecompressNodeForUse q i).RawAt i := by
  intro nd hnd
  rw [quicklistDecompressNodeForUse, getElem?_modifyNode, if_pos rfl] at hnd
  obtain ⟨nd', -, rfl⟩ := map_eq_some_iff.mp hnd
  split
  · rfl
  · rename_i h
    cases he : nd'.encoding with
    | raw => rfl
    | lzf => exact absurd he h

lemma Quicklist.RawAt.decompress (h : q.RawAt j) :
    (quicklistDecompressNode q node).RawAt j := by
  cases node with
  | none => exact h
  | some i => exact h.modify gentle_decompress

lemma rawAt_decompress : (quicklistDecompressNode q (some i)).RawAt i := by
  intro nd hnd
  rw [quicklistDecompressNode, getElem?_modifyNode, if_pos rfl] at hnd
  obtain ⟨nd', -, rfl⟩ := map_eq_some_iff.mp hnd
  rfl

/-- A node apart from its compression. -/
def QuicklistNode.bare (nd : QuicklistNode) : QuicklistNode :=
  { nd with encoding := .raw, recompress := false }

/-- The nodes of a list apart from their compression. -/
def Quicklist.bare (q : Quicklist) : List QuicklistNode := q.nodes.map QuicklistNode.bare

@[simp] lemma length_bare : q.bare.length = q.nodes.length := length_map _

lemma lt_of_bare {nd} (hnd : q.bare[i]? = some nd) : i < q.nodes.length := by
  have hlt := (List.getElem?_eq_some_iff.mp hnd).1
  rwa [length_bare] at hlt

lemma bare_modifyNode {g} (h : ∀ nd, (f nd).bare = g nd.bare) :
    (q.modifyNode i f).bare = q.bare.modify i g := by
  apply ext_getElem?
  intro j
  simp only [Quicklist.bare, Quicklist.modifyNode, getElem?_map, getElem?_modify]
  split <;> cases q.nodes[j]? <;> simp [h]

/-- Compressing and decompressing change nothing else in the list. -/
structure Quicklist.SameShape (q q' : Quicklist) : Prop where
  bare : q'.bare = q.bare
  count : q'.count = q.count
  len : q'.len = q.len
  fill : q'.fill = q.fill
  compress : q'.compress = q.compress

lemma Quicklist.SameShape.length {q'} (h : q.SameShape q') :
    q'.nodes.length = q.nodes.length := by
  rw [← length_bare, h.bare, length_bare]

lemma Quicklist.SameShape.refl (q : Quicklist) : q.SameShape q := ⟨rfl, rfl, rfl, rfl, rfl⟩

lemma Quicklist.SameShape.trans {q₁ q₂ q₃ : Quicklist} (h : q₁.SameShape q₂) (h' : q₂.SameShape q₃) :
    q₁.SameShape q₃ :=
  ⟨h'.bare.trans h.bare, h'.count.trans h.count, h'.len.trans h.len, h'.fill.trans h.fill,
    h'.compress.trans h.compress⟩

lemma sameShape_modifyNode (h : ∀ nd, (f nd).bare = nd.bare) :
    q.SameShape (q.modifyNode i f) :=
  ⟨(bare_modifyNode (g := id) h).trans (modify_id ..), rfl, rfl, rfl, rfl⟩

lemma sameShape_decompress : q.SameShape (quicklistDecompressNode q node) := by
  cases node with
  | none => exact .refl q
  | some i => exact sameShape_modifyNode fun _ => rfl

lemma sameShape_decompressForUse : q.SameShape (quicklistDecompressNodeForUse q i) := by
  refine sameShape_modifyNode fun nd => ?_
  split <;> rfl

lemma compressNode_cases (env : QuicklistEnv) (q : Quicklist) (node : Option Nat) :
    (quicklistCompressNode env q node).nodes = q.nodes ∧
        q.SameShape (quicklistCompressNode env q node) ∨
      ∃ i, node = some i ∧ (q.nodes[i]?.any fun nd => nd.encoding = .raw ∧ minCompressBytes ≤ nd.sz) ∧
        env.lzf q.tries ∧ quicklistCompressNode env q node =
          { q.modifyNode i fun nd => { nd with encoding := .lzf, recompress := false } with
            tries := q.tries + 1 } := by
  cases node with
  | none => exact .inl ⟨rfl, .refl q⟩
  | some i =>
    rw [quicklistCompressNode]
    cases hnd : q.nodes[i]? with
    | none => exact .inl ⟨rfl, .refl q⟩
    | some nd =>
      simp only
      split
      · rename_i hbig
        split
        · rename_i hl
          exact .inr ⟨i, rfl, by simpa [hnd] using hbig, hl, rfl⟩
        · exact .inl ⟨rfl, rfl, rfl, rfl, rfl, rfl⟩
      · exact .inl ⟨rfl, .refl q⟩

lemma sameShape_compressNode :
    q.SameShape (quicklistCompressNode env q node) := by
  rcases compressNode_cases env q node with ⟨-, h⟩ | ⟨i, -, -, -, h⟩
  · exact h
  · rw [h]
    obtain ⟨hb, hc, hl, hf, hd⟩ := sameShape_modifyNode (q := q) (i := i)
      (f := fun nd => { nd with encoding := .lzf, recompress := false }) fun _ => rfl
    exact ⟨hb, hc, hl, hf, hd⟩

lemma Quicklist.RawAt.compressNode (h : q.RawAt j)
    (ne : node ≠ some j) : (quicklistCompressNode env q node).RawAt j := by
  intro nd hnd
  rcases compressNode_cases env q node with ⟨hn, -⟩ | ⟨i, hi, -, -, he⟩
  · rw [hn] at hnd
    exact h nd hnd
  have hij : i ≠ j := fun e => ne (by rw [hi, e])
  rw [he] at hnd
  rw [getElem?_modifyNode, if_neg hij] at hnd
  exact h nd hnd

/-- After `k` of its `c` turns the loop goes on to decompress the first and the last `c` nodes, or all of them. -/
lemma compressLoop_spec {n c k turns : Nat} {inDepth : Bool}
    (hn : q.nodes.length = n) (hc : k + turns = c) (big : c * 2 ≤ n + 1) (hk : k < n)
    (last : turns = 0 → c * 2 ≤ n) (done : ∀ j, j < k ∨ n ≤ j + k → q.RawAt j)
    (seen : 0 < k → inDepth = false → node ≠ some 0 ∧ node ≠ some (n - 1)) :
    Sat NoFault (fun p => q.SameShape p.1 ∧ match p.2 with
      | none => ∀ j, p.1.RawAt j
      | some (forward, reverse, inDepth) =>
        forward = some c ∧ reverse = some (n - 1 - c) ∧ c * 2 ≤ n ∧
          (∀ j, j < c ∨ n ≤ j + c → p.1.RawAt j) ∧
          (0 < c → inDepth = false → node ≠ some 0 ∧ node ≠ some (n - 1)))
      (compressLoop node turns q (some k) (some (n - 1 - k)) inDepth) := by
  induction turns generalizing q k inDepth with
  | zero =>
    obtain rfl : k = c := by omega
    exact ⟨.refl q, rfl, rfl, last rfl, done, seen⟩
  | succ turns ih =>
    rw [compressLoop]
    set q' := quicklistDecompressNode (quicklistDecompressNode q (some k)) (some (n - 1 - k)) with hq'
    have shape : q.SameShape q' := sameShape_decompress.trans sameShape_decompress
    have done' : ∀ j, j < k + 1 ∨ n ≤ j + (k + 1) → q'.RawAt j := by
      intro j hj
      by_cases h1 : j = k
      · subst h1
        exact rawAt_decompress.decompress
      · by_cases h2 : j = n - 1 - k
        · subst h2
          exact rawAt_decompress
        · exact (done j (by omega)).decompress.decompress
    split_ifs with meet
    · simp only [some.injEq] at meet
      exact ⟨shape, fun j => done' j (by omega)⟩
    simp only [some.injEq] at meet
    have hn' : q'.nodes.length = n := shape.length.trans hn
    have hnext : q'.next k = some (k + 1) := by
      rw [Quicklist.next, hn', if_pos (by omega)]
    have hprev : Quicklist.prev (n - 1 - k) = some (n - 1 - (k + 1)) := by
      rw [Quicklist.prev, if_neg (by omega)]
      congr 1
    simp only [hnext, hprev]
    refine (ih hn' (by omega) (by omega) (fun _ => by omega) done' ?_).mono ?_
    · intro _ hd
      simp only [Bool.or_eq_false_iff, beq_eq_false_iff_ne, ne_eq] at hd
      obtain ⟨⟨hd0, hd1⟩, hd2⟩ := hd
      by_cases h0 : k = 0
      · subst h0
        exact ⟨fun h => hd1 h.symm, fun h => hd2 h.symm⟩
      · exact seen (by omega) hd0
    · rintro ⟨q'', r⟩ ⟨sh, h⟩
      exact ⟨shape.trans sh, h⟩

/-- `__quicklistCompress` leaves the ends raw, when the list has the nodes that `len` lets it expect. -/
lemma compressDepth_spec
    (skip : q.compress = 0 ∨ q.len < q.compress * 2 → q.EndsRaw)
    (big : q.compress * 2 ≤ q.len → q.compress * 2 ≤ q.nodes.length + 1) :
    Sat NoFault (fun q' => q'.EndsRaw ∧ q.SameShape q') (quicklistCompressDepth env q node) := by
  rw [quicklistCompressDepth]
  split
  · rename_i h
    exact ⟨skip h, .refl q⟩
  rename_i h
  rw [not_or, Nat.not_lt] at h
  have hbig := big h.2
  have hne : q.nodes ≠ [] := by
    intro he
    rw [he] at hbig
    simp only [length_nil] at hbig
    omega
  have hpos := length_pos_of_ne_nil hne
  simp only [hne, if_false]
  refine Sat.bind (compressLoop_spec rfl (Nat.zero_add _) hbig hpos (by omega) ?_ (by omega)) ?_
  · intro j hj nd hnd
    have := (List.getElem?_eq_some_iff.mp hnd).1
    omega
  · rintro ⟨q', _ | ⟨forward, reverse, inDepth⟩⟩ ⟨shape, all⟩
    · exact ⟨⟨all _, all _, fun _ => all, fun hc => absurd (shape.compress ▸ hc) h.1⟩, shape⟩
    obtain ⟨rfl, rfl, hlen, raw, out⟩ := all
    -- The node itself is compressed outside the depth only.
    have mid : ∃ q₁, (if inDepth then q' else quicklistCompressNode env q' node) = q₁ ∧
        q.SameShape q₁ ∧ q₁.RawAt 0 ∧ q₁.RawAt (q.nodes.length - 1) := by
      cases inDepth with
      | true => exact ⟨q', rfl, shape, raw 0 (by omega), raw _ (by omega)⟩
      | false =>
        obtain ⟨out0, out1⟩ := out (by omega) rfl
        exact ⟨_, rfl, shape.trans sameShape_compressNode,
          (raw 0 (by omega)).compressNode out0, (raw _ (by omega)).compressNode out1⟩
    obtain ⟨q₁, hq₁, shape₁, raw0, raw1⟩ := mid
    have ends : ∀ q₂ : Quicklist, q.SameShape q₂ → q₂.RawAt 0 → q₂.RawAt (q.nodes.length - 1) →
        q₂.EndsRaw := by
      intro q₂ sh r0 r1
      refine ⟨r0, by rwa [sh.length], fun hs => ?_, fun hc => absurd (sh.compress ▸ hc) h.1⟩
      rw [sh.length, sh.compress] at hs
      omega
    simp only [hq₁]
    split_ifs with hdeep
    · rw [shape₁.compress] at hdeep
      refine ⟨ends _ (shape₁.trans (sameShape_compressNode.trans sameShape_compressNode)) ?_ ?_,
        shape₁.trans (sameShape_compressNode.trans sameShape_compressNode)⟩
      · refine (raw0.compressNode ?_).compressNode ?_ <;> simp only [ne_eq, some.injEq] <;>
          omega
      · refine (raw1.compressNode ?_).compressNode ?_ <;> simp only [ne_eq, some.injEq] <;>
          omega
    · exact ⟨ends _ shape₁ raw0 raw1, shape₁⟩

lemma recompress_spec (ends : q.EndsRaw) {nd : QuicklistNode} (hnd : q.nodes[i]? = some nd)
    (hr : nd.recompress = true) :
    Sat (· = .monitor) (fun q' => q'.EndsRaw ∧ q.SameShape q') (quicklistRecompress ⟨lzf, true⟩ q i) := by
  rw [quicklistRecompress]
  split_ifs with calm
  · rfl
  refine ⟨?_, sameShape_compressNode⟩
  have hc : q.compress ≠ 0 := by
    intro hc
    rw [(ends.off hc i nd hnd).2] at hr
    cases hr
  rcases compressNode_cases ⟨lzf, true⟩ q (some i) with ⟨hn, shape⟩ | ⟨j, hj, fits, hl, -⟩
  · exact ends.congr hn shape.compress
  cases hj
  have inner : ¬ (i = 0 ∨ i + 1 = q.nodes.length ∨ q.nodes.length < q.compress * 2) :=
    fun hend => calm ⟨rfl, hend, fits, hl⟩
  have hlt := (List.getElem?_eq_some_iff.mp hnd).1
  have shape : q.SameShape (quicklistCompressNode ⟨lzf, true⟩ q (some i)) := sameShape_compressNode
  refine ⟨ends.head.compressNode ?_, ?_, fun hs => ?_, fun h0 => absurd (shape.compress ▸ h0) hc⟩
  · simp only [ne_eq, some.injEq]
    omega
  · rw [shape.length]
    refine ends.tail.compressNode ?_
    simp only [ne_eq, some.injEq]
    omega
  · rw [shape.length, shape.compress] at hs
    omega

/-- The faults that a monitored operation may end in: it never reads a compressed ziplist. -/
abbrev EndsFault (f : Fault) : Prop := (f = .overflow ∨ f = .badAccess) ∨ f = .monitor

lemma recompressOnly_spec (ends : q.Ends) :
    Sat EndsFault (fun q' => q'.Ends ∧ q.SameShape q') (quicklistRecompressOnly ⟨lzf, true⟩ q i) := by
  rw [quicklistRecompressOnly]
  split
  · exact .inl (.inr rfl)
  rename_i nd hnd
  split_ifs with hr
  · refine ((recompress_spec ends.toEndsRaw hnd hr).weaken .inr).mono ?_
    rintro q' ⟨ends', shape⟩
    refine ⟨⟨ends', ?_⟩, shape⟩
    rw [shape.len, shape.length, ends.len]
  · exact ⟨ends, .refl q⟩

lemma compress_spec (ends : q.EndsRaw) (len : q.len ≤ q.nodes.length) (hi : i < q.nodes.length) :
    Sat (· = .monitor) (fun q' => q'.EndsRaw ∧ q.SameShape q') (quicklistCompress ⟨lzf, true⟩ q i) := by
  have hnd := getElem?_eq_getElem hi
  rw [quicklistCompress, hnd]
  simp only
  split_ifs with hr
  · exact recompress_spec ends hnd hr
  · exact (compressDepth_spec (fun _ => ends) (by omega)).total

lemma Quicklist.Ends.compress_any (ends : q.Ends) :
    Sat EndsFault (fun q' => q'.Ends ∧ q.SameShape q') (quicklistCompress ⟨lzf, true⟩ q i) := by
  by_cases hi : i < q.nodes.length
  · refine ((compress_spec ends.toEndsRaw ends.len.le hi).weaken .inr).mono ?_
    rintro q' ⟨ends', shape⟩
    refine ⟨⟨ends', ?_⟩, shape⟩
    rw [shape.len, shape.length, ends.len]
  · rw [quicklistCompress, getElem?_eq_none (Nat.not_lt.mp hi)]
    exact .inl (.inr rfl)

lemma Quicklist.EndsRaw.insertIdx (ends : q.EndsRaw) {new} (raw : new.encoding = .raw)
    (fresh : new.recompress = false) {pos : Nat} (hpos : pos ≤ q.nodes.length) :
    ({ q with nodes := q.nodes.insertIdx pos new } : Quicklist).EndsRaw := by
  have old : ∀ {nd}, nd ∈ q.nodes.insertIdx pos new → nd = new ∨ nd ∈ q.nodes :=
    fun h => (mem_insertIdx hpos).mp h
  have len : (q.nodes.insertIdx pos new).length = q.nodes.length + 1 :=
    length_insertIdx_of_le_length hpos new
  constructor
  · intro nd hnd
    by_cases h0 : pos = 0
    · subst h0
      simp only [insertIdx_zero, getElem?_cons_zero, some.injEq] at hnd
      rw [← hnd, raw]
    · simp only [getElem?_insertIdx_of_lt (Nat.pos_of_ne_zero h0)] at hnd
      exact ends.head nd hnd
  · intro nd hnd
    simp only [len, Nat.add_sub_cancel] at hnd
    obtain hlt | heq := Nat.lt_or_eq_of_le hpos
    · rw [getElem?_insertIdx_of_gt hlt] at hnd
      exact ends.tail nd hnd
    · subst heq
      rw [getElem?_insertIdx_self, if_pos le_rfl, some.injEq] at hnd
      rw [← hnd, raw]
  · intro hs j nd hnd
    simp only [len] at hs
    rcases old (mem_of_getElem? hnd) with rfl | h
    · exact raw
    · obtain ⟨k, hk⟩ := mem_iff_getElem?.mp h
      exact ends.short (by omega) k nd hk
  · intro hc j nd hnd
    rcases old (mem_of_getElem? hnd) with rfl | h
    · exact ⟨raw, fresh⟩
    · obtain ⟨k, hk⟩ := mem_iff_getElem?.mp h
      exact ends.off hc k nd hk

lemma insertNode_first (lzf : Nat → Bool) (after : Bool) (ends : q.Ends) {new}
    (raw : new.encoding = .raw) (fresh : new.recompress = false) (he : q.nodes = []) :
    Sat NoFault Quicklist.Ends (quicklistInsertNode ⟨lzf, true⟩ q none new after) := by
  have one : ∀ (j : Nat) nd, [new][j]? = some nd → nd.encoding = .raw ∧ nd.recompress = false := by
    intro j nd hnd
    obtain rfl : nd = new := by simpa using mem_of_getElem? hnd
    exact ⟨raw, fresh⟩
  rw [quicklistInsertNode, if_pos he]
  refine ⟨⟨fun nd h => (one _ nd h).1, fun nd h => (one _ nd h).1, fun _ j nd h => (one _ nd h).1,
    fun _ => one⟩, ?_⟩
  rw [ends.len, he]
  rfl

lemma insertNode_at (lzf : Nat → Bool) (after : Bool) (ends : q.Ends) {new : QuicklistNode}
    (raw : new.encoding = .raw) (fresh : new.recompress = false) (hi : i < q.nodes.length) :
    Sat (· = .monitor) Quicklist.Ends (quicklistInsertNode ⟨lzf, true⟩ q (some i) new after) := by
  have hpos : (if after then i + 1 else i) ≤ q.nodes.length := by
    split <;> omega
  have len := length_insertIdx_of_le_length hpos new
  rw [quicklistInsertNode]
  refine (compress_spec (ends.insertIdx raw fresh hpos) ?_ ?_).bind ?_
  · simp only [len, ends.len]
    omega
  · simp only [len]
    split <;> omega
  · rintro q' ⟨ends', shape⟩
    refine ⟨ends'.congr rfl rfl, ?_⟩
    simp only [shape.len, shape.length, len, ends.len]

lemma insertNode_spec (ends : q.Ends) {old new} {after : Bool}
    (raw : new.encoding = .raw) (fresh : new.recompress = false) :
    Sat EndsFault Quicklist.Ends (quicklistInsertNode ⟨lzf, true⟩ q old new after) := by
  cases old with
  | none =>
    by_cases he : q.nodes = []
    · exact (insertNode_first lzf after ends raw fresh he).total
    · rw [quicklistInsertNode, if_neg he]
      exact .inl (.inr rfl)
  | some i =>
    by_cases hi : i < q.nodes.length
    · exact (insertNode_at lzf after ends raw fresh hi).weaken .inr
    -- The position is none of the list, and neither is that of the old node after linking.
    have len : (q.nodes.insertIdx (if after then i + 1 else i) new).length ≤
        if after then i else i + 1 := by
      rw [length_insertIdx]
      cases after <;> simp <;> split <;> omega
    rw [quicklistInsertNode, quicklistCompress]
    simp only [getElem?_eq_none len]
    exact .inl (.inr rfl)

lemma delNode_at (ends : q.Ends) {nd : QuicklistNode} (hnd : q.nodes[i]? = some nd) :
    Sat NoFault (fun q' => q'.Ends ∧ q'.nodes.length + 1 = q.nodes.length) (quicklistDelNode ⟨lzf, true⟩ q i) := by
  have hi := (List.getElem?_eq_some_iff.mp hnd).1
  have len : (q.nodes.eraseIdx i).length + 1 = q.nodes.length := by
    rw [length_eraseIdx_of_lt hi]
    omega
  have old : ∀ {j : Nat} {nd}, (q.nodes.eraseIdx i)[j]? = some nd → ∃ k : Nat, q.nodes[k]? = some nd :=
    fun h => mem_iff_getElem?.mp (mem_of_mem_eraseIdx (mem_of_getElem? h))
  rw [quicklistDelNode, hnd]
  refine (compressDepth_spec ?_ ?_).bind ?_
  · -- Nothing is decompressed when nothing can be compressed in the list before.
    intro hskip
    have all : ∀ (k : Nat) nd, q.nodes[k]? = some nd → nd.encoding = .raw := by
      intro k nd hk
      rcases hskip with hc | hc
      · exact (ends.off hc k nd hk).1
      · exact ends.short (ends.len ▸ hc) k nd hk
    have raw : ∀ j, ({ q with nodes := q.nodes.eraseIdx i } : Quicklist).RawAt j := by
      intro j nd hj
      obtain ⟨k, hk⟩ := old hj
      exact all k nd hk
    refine ⟨raw _, raw _, fun _ => raw, fun hc j nd hj => ?_⟩
    obtain ⟨k, hk⟩ := old hj
    exact ends.off hc k nd hk
  · intro hlen
    have := ends.len
    simp only at hlen ⊢
    omega
  · rintro q' ⟨ends', shape⟩
    refine ⟨⟨ends'.congr rfl rfl, ?_⟩, ?_⟩
    · simp only [shape.len, shape.length, ends.len]
      omega
    · rwa [shape.length]

lemma delNode_spec (ends : q.Ends) :
    Sat EndsFault (fun q' => q'.Ends ∧ q'.nodes.length + 1 = q.nodes.length)
      (quicklistDelNode ⟨lzf, true⟩ q i) := by
  cases hnd : q.nodes[i]? with
  | none =>
    rw [quicklistDelNode, hnd]
    exact .inl (.inr rfl)
  | some nd => exact (delNode_at ends hnd).total

end JitRedis
