import JitRedis.Rax.Insertion

/-!
# Removing keys from a radix tree

`raxRemove` clears the key, frees the nodes that nothing needs any more, and recompresses the chain of
nodes around the place. Each part leaves the other entries alone, and frees and adds the nodes that it
counts. The recompression does so only as long as its first scan is not cut short by the limit on the size
of a node: the second scan copies the whole chain all the same.
-/

namespace JitRedis

open Fallible Buckets List RaxNode

variable {V : Type} {ts : List (RaxFrame V)} {h n : RaxNode V}

/-- A node in its place: the entries and the number of nodes of the tree. -/
structure Tree (ts : List (RaxFrame V)) (n : RaxNode V) (E : List (Bytes × Option V)) (N : Nat) : Prop where
  placed : Placed ts n
  entries : (n.entries.map (under (pathOf ts)) ++ entriesAround ts).Perm E
  count : n.count + countAround ts = N

lemma RaxFrame.Wf.removeChild {f : RaxFrame V} (hf : f.Wf) (hl : f.isLink = false) : (raxRemoveChild f).Wf := by
  cases hf with
  | @branch key left c right sorted wf =>
    refine .branch ?_ wf fun he => ?_
    · rw [map_append]
      rw [pairwise_append, pairwise_cons] at sorted
      rw [pairwise_append]
      exact ⟨sorted.1, sorted.2.1.2, fun a ha b hb => sorted.2.2 a ha b (mem_cons_of_mem _ hb)⟩
    · obtain ⟨rfl, rfl⟩ := append_eq_nil_iff.mp he
      simpa [isLink] using hl
  | @compr key s two max =>
    refine .branch (by simp) (by simp) fun _ => ?_
    simpa [isLink] using hl

lemma removeChild_of_isLink {f : RaxFrame V} (hl : f.isLink = true) : raxRemoveChild f = raxNewLeaf := by
  cases f with
  | branch key left c right =>
    simp only [RaxFrame.isLink, Bool.and_eq_true, Option.isNone_iff_eq_none, List.isEmpty_iff] at hl
    obtain ⟨⟨rfl, rfl⟩, rfl⟩ := hl
    rfl
  | compr key s =>
    simp only [RaxFrame.isLink, Option.isNone_iff_eq_none] at hl
    subst hl
    rfl

lemma entries_removeChild (f : RaxFrame V) : (raxRemoveChild f).entries = f.entries := by
  cases f with
  | branch key left c right => rw [raxRemoveChild, entries, edgesEntries_append, RaxFrame.entries]
  | compr key s => simp [raxRemoveChild, entries, edgesEntries, RaxFrame.entries]

lemma count_removeChild (f : RaxFrame V) : (raxRemoveChild f).count = f.count := by
  cases f with
  | branch key left c right => rw [raxRemoveChild, RaxNode.count, edgesCount_append, RaxFrame.count]
  | compr key s => rfl

lemma cleanupLoop_spec {f : RaxFrame V} (hf : f.Wf) (hts : ∀ g ∈ ts, g.Wf) (freed : Nat) :
    ∃ ts' new k, cleanupLoop f ts freed = (ts', new, freed + k) ∧
      ∃ N, Tree ts' new (entriesAround (f :: ts)) N ∧ N + k = countAround (f :: ts) + 1 := by
  induction ts generalizing f freed with
  | nil =>
    refine ⟨[], raxRemoveChild f, 1, rfl, _, ⟨⟨by simp, ?_⟩, ?_, rfl⟩, ?_⟩
    · cases hl : f.isLink with
      | true => exact .inr ⟨rfl, removeChild_of_isLink hl⟩
      | false => exact .inl (hf.removeChild hl)
    · simp [entries_removeChild, entriesAround, pathOf]
    · rw [count_removeChild]
      rfl
  | cons g ts ih =>
    rw [cleanupLoop]
    cases hl : f.isLink with
    | true =>
      obtain ⟨hg, hts'⟩ := forall_mem_cons.mp hts
      obtain ⟨ts', new, k, hloop, N, tree, hN⟩ := ih hg hts' (freed + 1)
      have hfe : f.entries = [] := by
        rw [← entries_removeChild, removeChild_of_isLink hl]
        rfl
      have hfc : f.count = 1 := by
        rw [← count_removeChild, removeChild_of_isLink hl]
        rfl
      refine ⟨ts', new, k + 1, ?_, N, ?_, ?_⟩
      · rw [show freed + (k + 1) = freed + 1 + k by omega, ← hloop]
        rfl
      · have : entriesAround (f :: g :: ts) = entriesAround (g :: ts) := by
          rw [entriesAround, hfe]
          rfl
        rwa [this]
      · rw [countAround, hfc]
        omega
    | false =>
      refine ⟨g :: ts, raxRemoveChild f, 1, rfl, _, ⟨⟨hts, .inl (hf.removeChild hl)⟩, ?_, rfl⟩, ?_⟩
      · rw [entries_removeChild]
        exact .refl _
      · rw [count_removeChild]
        rfl

lemma link_of_size {ts} (hp : Placed ts n) (hs : n.size = 1) (hk : n.key = none) :
    n.Wf ∧ n.link.isSome := by
  cases n with
  | branch key edges =>
    cases hk
    obtain ⟨⟨c, child⟩, rfl⟩ := length_eq_one_iff.mp hs
    exact ⟨hp.2.resolve_right (fun hr => by cases hr.2), rfl⟩
  | compr key s child =>
    cases hk
    exact ⟨hp.2.resolve_right (fun hr => by cases hr.2), rfl⟩

lemma unlinkNode_spec (hp : Placed ts h) {old} (hk : h.key = some old) :
    ∃ ts' new freed try', unlinkNode ts (h.setKey none) = (ts', new, freed, try') ∧
      (∃ N, Tree ts' new ((h.setKey none).entries.map (under (pathOf ts)) ++ entriesAround ts) N ∧
        N + freed = h.count + countAround ts) ∧
      (try' = true → new.Wf ∧ new.link.isSome) := by
  have hwf : h.Wf := hp.2.resolve_right fun hr => by rw [hr.2] at hk; cases hk
  have hkn : (h.setKey none).key = none := by cases h <;> rfl
  unfold unlinkNode
  by_cases hz : (h.setKey none).size = 0
  · rw [if_pos hz]
    have hleaf : h.setKey none = raxNewLeaf := by
      cases hwf with
      | branch sorted wf leaf =>
        rw [setKey, eq_nil_of_length_eq_zero hz]
        rfl
      | compr two max wf =>
        rw [setKey, size] at hz
        omega
    have hcount : h.count = 1 := by
      rw [← count_setKey h none, hleaf]
      rfl
    cases ts with
    | nil =>
      refine ⟨[], _, 0, false, rfl, ⟨_, ⟨⟨by simp, .inr ⟨rfl, hleaf⟩⟩, .refl _, rfl⟩, ?_⟩, by simp⟩
      rw [count_setKey]
      rfl
    | cons f ts =>
      obtain ⟨hf, hts⟩ := forall_mem_cons.mp hp.1
      obtain ⟨ts', new, k, hloop, N, tree, hN⟩ := cleanupLoop_spec hf hts 0
      simp only [hloop]
      refine ⟨ts', new, _, _, rfl, ⟨N, ?_, by omega⟩, fun htry => ?_⟩
      · rw [hleaf]
        exact tree
      · simp only [Bool.and_eq_true, decide_eq_true_eq, Option.isNone_iff_eq_none] at htry
        exact link_of_size tree.placed htry.1 htry.2
  · rw [if_neg hz]
    have hwf' : (h.setKey none).Wf := by
      cases hwf with
      | branch sorted wf leaf => exact .branch sorted wf fun he => absurd (by rw [he]; rfl) hz
      | compr two max wf => exact .compr two max wf
    refine ⟨ts, _, 0, _, rfl, ⟨_, ⟨⟨hp.1, .inl hwf'⟩, .refl _, rfl⟩, ?_⟩, fun htry => ?_⟩
    · rw [count_setKey]
      rfl
    · exact link_of_size ⟨hp.1, .inl hwf'⟩ (of_decide_eq_true htry) hkn

lemma seekStart_spec (hts : ∀ f ∈ ts, f.Wf) (wf : n.Wf) (hl : n.link.isSome) :
    ∃ ts' start, seekStart ts n = (ts', start) ∧ (∀ f ∈ ts', f.Wf) ∧ start.Wf ∧ start.link.isSome ∧
      plug ts' start = plug ts n := by
  induction ts generalizing n with
  | nil => exact ⟨[], n, rfl, hts, wf, hl, rfl⟩
  | cons f ts ih =>
    obtain ⟨hf, hts'⟩ := forall_mem_cons.mp hts
    rw [seekStart]
    cases hlink : f.isLink with
    | false => exact ⟨f :: ts, n, rfl, hts, wf, hl, rfl⟩
    | true =>
      refine ih hts' (hf.plug wf) ?_
      cases f with
      | branch key left c right =>
        simp only [RaxFrame.isLink, Bool.and_eq_true, Option.isNone_iff_eq_none, List.isEmpty_iff] at hlink
        obtain ⟨⟨rfl, rfl⟩, rfl⟩ := hlink
        rfl
      | compr key s =>
        simp only [RaxFrame.isLink, Option.isNone_iff_eq_none] at hlink
        subst hlink
        rfl

/-- The copy of a chain has the entries behind it, and every node that is freed gave at least a byte. -/
lemma chainCopy_spec (n : RaxNode V) :
    n.entries = (chainCopy n).2.1.entries.map (under (chainCopy n).1) ∧
      n.count = (chainCopy n).2.1.count + (chainCopy n).2.2 ∧
      (n.Wf → (chainCopy n).2.1.Wf ∧ (chainCopy n).2.2 ≤ (chainCopy n).1.length) := by
  induction n using chainCopy.induct with
  | case1 s child t next freed hcopy ih =>
    rw [hcopy] at ih
    obtain ⟨he, hc, hw⟩ := ih
    rw [chainCopy, hcopy]
    refine ⟨?_, ?_, ?_⟩
    · simp only [entries, he, ownEntry_none, nil_append, map_under_under]
    · rw [RaxNode.count, hc]
      rfl
    · rintro (_ | ⟨two, max, wf⟩)
      refine ⟨(hw wf).1, ?_⟩
      have := (hw wf).2
      simp only [length_append] at this ⊢
      omega
  | case2 c child t next freed hcopy ih =>
    rw [hcopy] at ih
    obtain ⟨he, hc, hw⟩ := ih
    rw [chainCopy, hcopy]
    refine ⟨?_, ?_, ?_⟩
    · simp only [entries, edgesEntries, he, ownEntry_none, nil_append, append_nil,
        map_under_under, cons_append]
    · rw [RaxNode.count, edgesCount, edgesCount, hc]
      rfl
    · rintro (⟨sorted, wf, leaf⟩ | _)
      have hchild := wf (c, child) (mem_cons_self ..)
      exact ⟨(hw hchild).1, Nat.succ_le_succ (hw hchild).2⟩
  | case3 n h1 h2 =>
    rw [chainCopy]
    · exact ⟨by simp, rfl, fun wf => ⟨wf, Nat.zero_le _⟩⟩
    · exact h1
    · exact h2

lemma chainCount_eq (n : RaxNode V) {comprsize nodes size' nodes' : Nat}
    (h : chainCount n comprsize nodes = (size', nodes', false)) :
    size' = comprsize + (chainCopy n).1.length ∧ nodes' = nodes + (chainCopy n).2.2 ∧
      (comprsize ≤ raxNodeMaxSize → size' ≤ raxNodeMaxSize) := by
  induction n using chainCopy.induct generalizing comprsize nodes with
  | case1 s child t next freed hcopy ih =>
    rw [chainCount] at h
    split at h
    · cases h
    rename_i hle
    obtain ⟨hs, hn, hmax⟩ := ih h
    rw [hcopy] at hs hn
    rw [chainCopy, hcopy]
    simp only [length_append] at hs hn ⊢
    exact ⟨by omega, by omega, fun _ => hmax (Nat.not_lt.mp hle)⟩
  | case2 c child t next freed hcopy ih =>
    rw [chainCount] at h
    split at h
    · cases h
    rename_i hle
    obtain ⟨hs, hn, hmax⟩ := ih h
    rw [hcopy] at hs hn
    rw [chainCopy, hcopy]
    simp only [length_cons] at hs hn ⊢
    exact ⟨by omega, by omega, fun _ => hmax (Nat.not_lt.mp hle)⟩
  | case3 n h1 h2 =>
    rw [chainCount] at h
    · cases h
      rw [chainCopy]
      · exact ⟨rfl, rfl, id⟩
      · exact h1
      · exact h2
    · exact h1
    · exact h2

/-- The limit on node sizes stops the scan, so that the nodes counted are not the nodes copied. -/
def RaxNode.capped (start : RaxNode V) : Bool :=
  match start.link with
  | none => false
  | some (s, child) => (chainCount child s.length 1).2.2 && decide (1 < (chainCount child s.length 1).2.1)

lemma chainCopy_link {start child : RaxNode V} {s : Bytes} (hl : start.link = some (s, child)) :
    chainCopy start = (s ++ (chainCopy child).1, (chainCopy child).2.1, (chainCopy child).2.2 + 1) := by
  unfold link at hl
  split at hl
  · cases hl
    rw [chainCopy]
  · cases hl
    rfl
  · cases hl

lemma length_link {start child : RaxNode V} {s : Bytes} (wf : start.Wf) (hl : start.link = some (s, child)) :
    0 < s.length ∧ s.length ≤ raxNodeMaxSize := by
  unfold link at hl
  split at hl
  · cases hl
    cases wf with
    | compr two max _ => exact ⟨by omega, max⟩
  · cases hl
    exact ⟨Nat.one_pos, show 1 ≤ raxNodeMaxSize by decide⟩
  · cases hl

lemma recompressChain_spec {start : RaxNode V} (wf : start.Wf) (capped : start.capped = false) :
    Sat NoFault (fun r => r.1.Wf ∧ r.1.entries = start.entries ∧ r.1.count + r.2.2 = start.count + r.2.1)
      (recompressChain start) := by
  cases hl : start.link with
  | none =>
    rw [recompressChain, hl]
    exact ⟨wf, rfl, rfl⟩
  | some r =>
    obtain ⟨s, child⟩ := r
    rw [RaxNode.capped, hl] at capped
    rw [recompressChain, hl]
    rcases hcount : chainCount child s.length 1 with ⟨comprsize, nodes, cut⟩
    simp only [hcount] at capped ⊢
    by_cases hnodes : 1 < nodes
    · obtain rfl : cut = false := by simpa [hnodes] using capped
      have hcopy := chainCopy_link hl
      obtain ⟨he, hc, hw⟩ := chainCopy_spec start
      obtain ⟨pos, max⟩ := length_link wf hl
      obtain ⟨hsize, hn, hmax⟩ := chainCount_eq child hcount
      have hlen : (chainCopy start).1.length = comprsize := by
        rw [hcopy, hsize, length_append]
      have hfreed : nodes = (chainCopy start).2.2 := by
        rw [hcopy, hn]
        exact Nat.add_comm ..
      obtain ⟨hnext, hbytes⟩ := hw wf
      simp only [if_pos hnodes]
      rw [if_neg (by omega), ← hlen, take_length]
      refine ⟨.compr (by omega) (hlen ▸ hmax max) hnext, ?_, ?_⟩
      · rw [entries, he]
        rfl
      · show (chainCopy start).2.1.count + 1 + (chainCopy start).2.2 = start.count + 1
        rw [hc]
        exact Nat.add_right_comm ..
    · simp only [if_neg hnodes]
      exact ⟨wf, rfl, rfl⟩

variable {rax : Rax V} {m : Bytes → Option (Option V)}

/-- The node from which `raxRemove` recompresses when it removes the key, if it does. -/
def Rax.recompressStart (rax : Rax V) (s : Bytes) : Option (RaxNode V) :=
  let w := raxLowWalk rax s
  if w.Exact ∧ w.stop.key.isSome then
    let (ts, h, _, trycompress) := unlinkNode w.stack (w.stop.setKey none)
    if trycompress then some (seekStart ts h).2 else none
  else
    none

lemma Rax.Holds.remove (hm : rax.Holds m) {s : Bytes} {old E}
    (hE : rax.head.entries.Perm ((s, old) :: E)) {rax' : Rax V} (perm : rax'.head.entries.Perm E)
    (wf : rax'.head.Wf ∨ rax'.head = raxNewLeaf) (numele : rax'.numele = rax.numele - 1)
    (numnodes : rax'.numnodes = rax'.head.count) : rax'.Holds (Function.update m s none) where
  represents := ((hm.represents.perm hE).tail).perm perm.symm
  wf := wf
  numele := by
    rw [numele, hm.numele, hE.length_eq, perm.length_eq]
    rfl
  numnodes := numnodes

lemma Placed.wf_plug (hp : Placed ts n) : (plug ts n).Wf ∨ plug ts n = raxNewLeaf := by
  cases hp.2 with
  | inl hwf => exact .inl (JitRedis.wf_plug hp.1 hwf)
  | inr hr =>
    rw [hr.1, hr.2]
    exact .inr rfl

lemma raxRemove_spec (hm : rax.Holds m) (s : Bytes) 
    (capped : ∀ start ∈ rax.recompressStart s, start.capped = false) :
    Sat NoFault (fun r => match m s with
      | none => r.1.Holds m ∧ r.2 = (false, none)
      | some old => r.1.Holds (Function.update m s none) ∧ r.2 = (true, some old)) (raxRemove rax s) := by
  obtain ⟨left, hr⟩ := hm.walk s
  rw [raxRemove]
  rw [Rax.recompressStart] at capped
  generalize raxLowWalk rax s = w at hr capped ⊢
  by_cases hl : left = []
  · subst hl
    have hexact := hr.exact_iff.mpr rfl
    simp only [hexact, if_true]
    cases hk : w.stop.key with
    | none =>
      rw [hm.notFound hr fun _ => hk]
      exact ⟨hm, rfl⟩
    | some old =>
      rw [hm.found hr hk]
      obtain ⟨ts, h, freed, try', hunlink, ⟨N, tree, hN⟩, hlink⟩ := unlinkNode_spec hr.placed hk
      have hE : rax.head.entries.Perm ((s, old) ::
          ((w.stop.setKey none).entries.map (under (pathOf w.stack)) ++ entriesAround w.stack)) := by
        rw [← hr.plug]
        refine (entries_plug ..).trans ?_
        rw [entries_of_key hk, map_cons, under_nil_left, cons_append, ← hr.path, append_nil]
      have hnodes : rax.numnodes = N + freed := by
        rw [hm.numnodes, ← hr.plug, count_plug, hN]
      simp only [hunlink]
      cases try' with
      | false =>
        refine ⟨hm.remove hE ((entries_plug ..).trans tree.entries) tree.placed.wf_plug rfl ?_, rfl⟩
        show rax.numnodes - freed = (plug ts h).count
        rw [count_plug, tree.count]
        omega
      | true =>
        obtain ⟨hwf, hsome⟩ := hlink rfl
        obtain ⟨ts', start, hseek, hts', hstart, -, hplug⟩ := seekStart_spec tree.placed.1 hwf hsome
        have hcap : start.capped = false := by
          refine capped start ?_
          simp only [hexact, hk, Option.isSome_some, and_self, if_true, hunlink, hseek]
          rfl
        simp only [if_true, hseek]
        refine (recompressChain_spec hstart hcap).bind ?_
        rintro ⟨new, added, freed'⟩ ⟨hnew, hentries, hcount⟩
        have hsame : (plug ts' new).entries.Perm (plug ts h).entries := by
          rw [← hplug]
          refine (entries_plug ..).trans ?_
          rw [hentries]
          exact (entries_plug ..).symm
        refine ⟨hm.remove hE (hsame.trans ((entries_plug ..).trans tree.entries)) (.inl (wf_plug hts' hnew)) rfl
          ?_, rfl⟩
        have hc := count_plug ts' start
        rw [hplug, count_plug, tree.count] at hc
        simp only at hcount
        show rax.numnodes - freed + added - freed' = (plug ts' new).count
        rw [count_plug]
        omega
  · have hexact := hr.exact_iff.not.mpr hl
    rw [hm.notFound hr fun h => absurd h hl]
    simp only [hexact, if_false]
    exact ⟨hm, rfl⟩

end JitRedis
