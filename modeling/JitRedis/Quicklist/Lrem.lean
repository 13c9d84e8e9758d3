import JitRedis.Lib.Walk
import JitRedis.Quicklist.Iteration

/-!
# `LREM`

`lremCommand` of `src/t_list.c` iterates over a list from one end, compares every element and deletes those that are equal,
until as many are gone as it was asked for.
-/

namespace JitRedis

open Fallible Chunks Walk List QuicklistNode Quicklist

def ziplistCompare (zl : Ziplist) (p : Nat) (s : Bytes) : Bool :=
  match zl[p]? with
  | none => false
  | some e =>
    match e.value with
    | .str t => decide (t = s)
    | .int v => decide (zipTryEncoding s = some v)

/-- `quicklistCompare`; the length is passed as an `int`. -/
def quicklistCompare (zl : Ziplist) (p : Option Nat) (s : Bytes) : Except Fault Bool :=
  match p with
  | none => .error .badAccess
  | some p => .ok (ziplistCompare zl p (clip s))

/-- `-x` of a `long`. -/
def longNeg (x : Int) : Int := Int.bmod (-x) (2 ^ 64)

/-- The loop of `lremCommand`; `turns` bounds the number of elements. Also the elements that `listTypeNext` has returned. -/
def lremLoop (env : QuicklistEnv) (obj : Bytes) (toremove : Int) :
    Nat → Quicklist → QuicklistIter → Nat → Except Fault (Quicklist × Nat × List Bytes)
  | 0, _, _, _ => .error .diverged
  | turns + 1, q, it, removed => do
    match ← quicklistNext env (q.nodes.length + 1) q it with
    | (q, _, none) => .ok (q, removed, [])
    | (q, it, some entry) => do
      let value ← q.get entry
      let zl ← q.readZl entry.node
      let equal ← quicklistCompare zl entry.zi obj
      if equal then do
        let (q, it) ← quicklistDelEntry env q it entry
        if toremove ≠ 0 ∧ (removed + 1 : Nat) = toremove then .ok (q, removed + 1, value.toList)
        else do
          let (q, removed, returned) ← lremLoop env obj toremove turns q it (removed + 1)
          .ok (q, removed, value.toList ++ returned)
      else do
        let (q, removed, returned) ← lremLoop env obj toremove turns q it removed
        .ok (q, removed, value.toList ++ returned)

/-- `lremCommand` on the list of a key: the list if it is left, the reply, and the elements looked at. -/
def lremCommand (env : QuicklistEnv) (subject : Quicklist) (count : Int) (obj : Bytes) :
    Except Fault (Option Quicklist × Nat × List Bytes) := do
  let toremove := if count < 0 then longNeg count else count
  let (q, li) ← quicklistGetIteratorAtIdx subject (decide (0 ≤ count)) (if count < 0 then -1 else 0)
  let (q, removed, returned) ← match li with
    | none => .ok (q, 0, [])
    | some it => lremLoop env obj toremove (q.count + 1) q it 0
  .ok (if q.count = 0 then none else some q, removed, returned)

section Purge

variable {s a : Bytes} {forward : Bool} {m p : Nat} {zl zl' : Ziplist} {zls pre post : List Ziplist} {T U : List Bytes}

/-- The entry of a ziplist that is equal to a string, the first one in the direction of the search. -/
def firstMatch (s : Bytes) (forward : Bool) (zl : Ziplist) : Option Nat :=
  if forward then zl.texts.findIdx? (· = s) else (zl.texts.reverse.findIdx? (· = s)).map (zl.length - 1 - ·)

/-- Delete up to `m` entries that are equal to a string from a ziplist, one by one. -/
def purge (s : Bytes) (forward : Bool) : Nat → Ziplist → Except Fault Ziplist
  | 0, zl => .ok zl
  | m + 1, zl =>
    match firstMatch s forward zl with
    | none => .ok zl
    | some p => do
      let zl ← ziplistDelete zl p 1
      purge s forward m zl

/-- The first `m` equal entries can be deleted without a ziplist that grows to `2 ^ 32` bytes on the way. -/
def purgeable (s : Bytes) (forward : Bool) : Nat → List Ziplist → Bool
  | _, [] => true
  | m, zl :: rest => (purge s forward m zl).isOk && purgeable s forward (m - zl.texts.count s) rest

lemma findIdx?_of_notMem (ha : s ∉ T) : T.findIdx? (· = s) = none := by
  rw [findIdx?_eq_none_iff]
  intro t ht
  exact decide_eq_false fun heq => ha (heq ▸ ht)

lemma findIdx?_first (ha : s ∉ T) : (T ++ s :: U).findIdx? (· = s) = some T.length := by
  rw [findIdx?_append, findIdx?_of_notMem ha, findIdx?_cons]
  simp

lemma firstMatch_some (htexts : zl.texts = T ++ s :: U) (hpassed : s ∉ if forward then T else U) :
    firstMatch s forward zl = some T.length := by
  rw [firstMatch, htexts]
  cases forward with
  | true => exact findIdx?_first hpassed
  | false =>
    have hlen : zl.length = T.length + (U.length + 1) := by
      rw [← length_texts, htexts, length_append, length_cons]
    rw [if_neg Bool.false_ne_true] at hpassed ⊢
    rw [reverse_append, reverse_cons, append_assoc, singleton_append,
      findIdx?_first (by rwa [mem_reverse]), Option.map_some, length_reverse]
    congr 1
    omega

lemma firstMatch_none (ha : s ∉ zl.texts) : firstMatch s forward zl = none := by
  rw [firstMatch]
  split
  · exact findIdx?_of_notMem ha
  · rw [findIdx?_of_notMem (by rwa [mem_reverse]), Option.map_none]

lemma purge_of_notMem (ha : s ∉ zl.texts) : purge s forward m zl = .ok zl := by
  cases m with
  | zero => rfl
  | succ m => rw [purge, firstMatch_none ha]

lemma purgeable_append (hpre : ∀ zl ∈ pre, s ∉ zl.texts) :
    purgeable s forward m (pre ++ post) = purgeable s forward m post := by
  induction pre with
  | nil => rfl
  | cons zl pre ih =>
    rw [forall_mem_cons] at hpre
    rw [cons_append, purgeable, purge_of_notMem hpre.1, count_eq_zero_of_not_mem hpre.1, Nat.sub_zero, ih hpre.2]
    rfl

lemma purgeable_of_notMem (hzls : ∀ zl ∈ zls, s ∉ zl.texts) : purgeable s forward m zls = true := by
  rw [← append_nil zls, purgeable_append hzls]
  rfl

lemma purgeable_zero : purgeable s forward 0 zls = true := by
  induction zls with
  | nil => rfl
  | cons zl zls ih =>
    rw [purgeable, Nat.zero_sub, ih]
    rfl

/-- What is left of a ziplist: nothing of an empty one. -/
def remnant (zl : Ziplist) : List Ziplist := if zl = [] then [] else [zl]

lemma purgeable_remnant :
    purgeable s forward m (remnant zl ++ post) = purgeable s forward m (zl :: post) := by
  rw [remnant]
  split
  · rename_i hz
    have hnil : ∀ zl ∈ ([[]] : List Ziplist), s ∉ zl.texts := by simp [Ziplist.texts]
    rw [hz]
    exact (purgeable_append hnil).symm
  · rfl

lemma purgeable_match (hpre : ∀ zl ∈ pre, s ∉ zl.texts) (htexts : zl.texts = T ++ s :: U)
    (hpassed : s ∉ if forward then T else U) (hdel : ziplistDelete zl T.length 1 = .ok zl') (htexts' : zl'.texts = T ++ U) :
    purgeable s forward (m + 1) (pre ++ zl :: post) = purgeable s forward m (pre ++ (remnant zl' ++ post)) := by
  have hcount : zl.texts.count s = zl'.texts.count s + 1 := by
    rw [htexts, htexts', count_append, count_append, count_cons_self]
    omega
  rw [purgeable_append hpre, purgeable_append hpre, purgeable_remnant, purgeable, purgeable, purge,
    firstMatch_some htexts hpassed]
  dsimp only
  rw [hdel, ok_bind, hcount, Nat.add_sub_add_right]

lemma purgeable_fails {f : Fault} (hpre : ∀ zl ∈ pre, s ∉ zl.texts) (htexts : zl.texts = T ++ s :: U)
    (hpassed : s ∉ if forward then T else U) (hdel : ziplistDelete zl T.length 1 = .error f) :
    purgeable s forward (m + 1) (pre ++ zl :: post) = false := by
  rw [purgeable_append hpre, purgeable, purge, firstMatch_some htexts hpassed]
  dsimp only
  rw [hdel]
  rfl

end Purge

section Loop

variable {lzf : Nat → Bool} {q q' : Quicklist} {it : QuicklistIter} {i p k m removed : Nat} {l P A B T D X Y : List Bytes}
  {nd : QuicklistNode} {zl : Ziplist} {e : ZlEntry} {a s obj : Bytes} {forward : Bool} {toremove : Int}

def ZlValue.Encoded : ZlValue → Prop
  | .str _ => True
  | .int v => -2 ^ 63 ≤ v ∧ v < 2 ^ 63

instance : DecidablePred ZlValue.Encoded
  | .str _ => inferInstanceAs (Decidable True)
  | .int _ => inferInstanceAs (Decidable (_ ∧ _))

/-- Every integer in the list has 64 bits. -/
def Quicklist.Encoded (q : Quicklist) : Prop := ∀ nd ∈ q.bare, ∀ e ∈ nd.zl, e.value.Encoded

instance (q : Quicklist) : Decidable q.Encoded :=
  inferInstanceAs (Decidable (∀ nd ∈ q.bare, ∀ e ∈ nd.zl, e.value.Encoded))

lemma ziplistCompare_eq (he : zl[p]? = some e) (encoded : e.value.Encoded) (s : Bytes) :
    ziplistCompare zl p s = decide (e.value.text = s) := by
  rw [ziplistCompare, he]
  dsimp only
  cases hv : e.value with
  | str t => rfl
  | int v =>
    rw [hv] at encoded
    refine decide_eq_decide.mpr ⟨fun h => ?_, fun h => ?_⟩
    · rw [zipTryEncoding] at h
      split at h
      · cases h
      · exact ll2string_of_string2ll h
    · have hlen := length_ll2string_le v
      have hback := string2ll_ll2string encoded.1 encoded.2
      subst h
      have hne : (ZlValue.int v).text.length ≠ 0 := by
        intro hnil
        have hnil' : ll2string v = [] := length_eq_zero_iff.mp hnil
        rw [hnil'] at hback
        cases hback
      rw [zipTryEncoding, if_neg (not_or.mpr ⟨by rw [ZlValue.text]; omega, hne⟩)]
      exact hback

/-- The ziplists of a list in the order in which an iterator visits them. -/
def Quicklist.visit (q : Quicklist) (forward : Bool) : List Ziplist :=
  (if forward then q.bare else q.bare.reverse).map QuicklistNode.zl

lemma notMem_visit (h : q.Stores l) (hs : s ∉ l) : ∀ zl ∈ q.visit forward, s ∉ zl.texts := by
  intro zl hzl hmem
  obtain ⟨nd, hnd, rfl⟩ := mem_map.mp hzl
  have hnd' : nd ∈ q.bare := by
    split at hnd
    · exact hnd
    · exact mem_reverse.mp hnd
  exact hs (h.texts ▸ mem_flatMap.mpr ⟨nd, hnd', hmem⟩)

lemma remnant_reverse : (remnant zl).reverse = remnant zl := by
  rw [remnant]
  split <;> rfl

lemma visit_split (forward : Bool) (hnd : q.bare[i]? = some nd) : ∃ pre post, q.visit forward = pre ++ nd.zl :: post ∧
    (∀ zl ∈ pre, ∀ t ∈ zl.texts, t ∈ if forward then before texts q.bare i else
      behind texts q.bare i) ∧
    ∀ (q' : Quicklist) (zl : Ziplist), (q'.bare = if zl = [] then q.bare.eraseIdx i else
      q.bare.modify i fun nd => (nd.setZl zl).addCount (-(1 : Nat))) → q'.visit forward = pre ++ (remnant zl ++ post) := by
  obtain ⟨hi, rfl⟩ := List.getElem?_eq_some_iff.mp hnd
  have hsplit : q.bare = q.bare.take i ++ q.bare[i] :: q.bare.drop (i + 1) := by
    rw [getElem_cons_drop, take_append_drop]
  have hafter (q' : Quicklist) (zl : Ziplist) (bare : q'.bare = if zl = [] then q.bare.eraseIdx i else
      q.bare.modify i fun nd => (nd.setZl zl).addCount (-(1 : Nat))) :
      q'.bare.map QuicklistNode.zl =
        (q.bare.take i).map QuicklistNode.zl ++ (remnant zl ++ (q.bare.drop (i + 1)).map QuicklistNode.zl) := by
    rw [bare, remnant]
    split
    · rw [eraseIdx_eq_take_drop_succ, map_append, nil_append]
    · rw [modify_eq_take_cons_drop hi, map_append]
      rfl

  cases forward with
  | true =>
    refine ⟨(q.bare.take i).map zl, (q.bare.drop (i + 1)).map zl, ?_, ?_, hafter⟩
    · rw [visit, if_pos rfl]
      conv_lhs => rw [hsplit]
      rw [map_append, map_cons]
    · intro zl hzl t ht
      obtain ⟨nd, hnd, rfl⟩ := mem_map.mp hzl
      exact mem_flatMap.mpr ⟨nd, hnd, ht⟩
  | false =>
    refine ⟨((q.bare.drop (i + 1)).map zl).reverse, ((q.bare.take i).map zl).reverse, ?_, ?_, ?_⟩
    · rw [visit, if_neg Bool.false_ne_true, map_reverse]
      conv_lhs => rw [hsplit]
      rw [map_append, map_cons, reverse_append, reverse_cons, append_assoc, singleton_append]
    · intro zl hzl t ht
      obtain ⟨nd, hnd, rfl⟩ := mem_map.mp (mem_reverse.mp hzl)
      exact mem_flatMap.mpr ⟨nd, hnd, ht⟩
    · intro q' zl bare
      rw [visit, if_neg Bool.false_ne_true, map_reverse, hafter q' zl bare, reverse_append,
        reverse_append, remnant_reverse, append_assoc]

lemma split_chunk (h : X ++ a :: Y = B ++ T ++ D) (hX : X.length = B.length + p) (hp : p < T.length) :
    X = B ++ T.take p ∧ T = T.take p ++ a :: T.drop (p + 1) ∧ Y = T.drop (p + 1) ++ D := by
  have hT : T = T.take p ++ T[p] :: T.drop (p + 1) := by rw [getElem_cons_drop, take_append_drop]
  have hlen : X.length = (B ++ T.take p).length := by
    rw [hX, length_append, length_take, Nat.min_eq_left (Nat.le_of_lt hp)]
  rw [hT, append_assoc, append_assoc, ← append_assoc B] at h
  obtain ⟨hX', hrest⟩ := append_inj h hlen
  obtain ⟨ha, hY⟩ := cons.inj hrest
  exact ⟨hX', by rw [ha]; exact hT, hY⟩

/-- Where the next element of a walk is: the strings around it, and those that were passed in the node. -/
lemma walk_node (h : q.Stores (joined forward P (a :: A))) (hnd : q.bare[i]? = some nd) (hp : p < nd.zl.length)
    (hplace : (before texts q.bare i).length + p = place forward P A) :
    nd.zl.texts = nd.zl.texts.take p ++ a :: nd.zl.texts.drop (p + 1) ∧
      ∀ t, t ∉ P → (t ∉ if forward then nd.zl.texts.take p else nd.zl.texts.drop (p + 1)) ∧
        t ∉ if forward then before texts q.bare i else behind texts q.bare i := by
  have htexts := h.texts
  rw [flatMap_eq hnd] at htexts
  have hp' : p < nd.zl.texts.length := by rwa [length_texts]
  cases forward with
  | true =>
    obtain ⟨hP, hT, -⟩ := split_chunk (T := nd.zl.texts) htexts.symm hplace.symm hp'
    refine ⟨hT, fun t ht => ?_⟩
    rw [hP, mem_append, not_or] at ht
    exact ht.symm
  | false =>
    have hsplit : A.reverse ++ a :: P = joined false P (a :: A) := by simp [joined]
    obtain ⟨-, hT, hP⟩ := split_chunk (T := nd.zl.texts) (hsplit.trans htexts.symm)
      ((length_reverse ..).trans hplace.symm) hp'
    refine ⟨hT, fun t ht => ?_⟩
    rw [hP, mem_append, not_or] at ht
    exact ht

lemma nextEntry_walk_nil : nextEntry forward (joined forward P []).length (place forward P ([] : List Bytes)) = none := by
  rw [nextEntry, length_joined, place]
  cases forward <;> simp

lemma nextEntry_walk_cons :
    nextEntry forward (joined forward P (a :: A)).length (place forward P (a :: A)) = some (place forward P A) := by
  rw [nextEntry, length_joined, place, place]
  cases forward <;> simp

/-- How many occurrences the loop has left to remove: `m`, which is all of them unless a positive number was asked for. -/
structure Budget (toremove : Int) (removed m : Nat) (s : Bytes) (A : List Bytes) : Prop where
  some : 0 < toremove → toremove = removed + m ∧ 0 < m
  all : toremove ≤ 0 → A.count s ≤ m

def LoopRemoves (toremove : Int) (s : Bytes) (forward : Bool) (P A : List Bytes) (m removed : Nat)
    (r : Quicklist × Nat × List Bytes) : Prop :=
  r.1.Stores (joined forward P (removeFirst s m A)) ∧ r.2.1 = removed + min m (A.count s) ∧ r.2.2 <+: A ∧
    (toremove = 0 ∨ (r.2.1 : Int) ≠ toremove → r.2.2 = A)

lemma Budget.pass (budget : Budget toremove removed m s (a :: A)) (ha : a ≠ s) : Budget toremove removed m s A := by
  refine ⟨budget.some, fun h => ?_⟩
  have hall := budget.all h
  rwa [count_cons_of_ne ha] at hall

lemma Budget.pos (budget : Budget toremove removed m s (s :: A)) : 0 < m := by
  rcases lt_or_ge 0 toremove with h | h
  · exact (budget.some h).2
  · have hall := budget.all h
    rw [count_cons_self] at hall
    omega

lemma Budget.remove (budget : Budget toremove removed (m + 1) s (s :: A))
    (more : ¬ (toremove ≠ 0 ∧ ((removed + 1 : Nat) : Int) = toremove)) : Budget toremove (removed + 1) m s A := by
  refine ⟨fun h => ?_, fun h => ?_⟩
  · obtain ⟨heq, -⟩ := budget.some h
    rw [not_and] at more
    have hne := more (by omega)
    exact ⟨by omega, by omega⟩
  · have hall := budget.all h
    rw [count_cons_self] at hall
    omega

lemma next_walk (lzf : Nat → Bool) (h : q.Stores (joined it.forward P (a :: A)))
    (cursor : q.Cursor it (place it.forward P (a :: A))) (encoded : q.Encoded) (obj : Bytes) :
    ∃ q' i nd p, quicklistNext ⟨lzf, false⟩ (q.nodes.length + 1) q it =
        .ok (q', it.returned i nd.zl.length p, some ⟨i, some p, entryOffset it.forward nd.zl.length p⟩) ∧
      q.SameShape q' ∧ q'.RawAt i ∧ q'.bare[i]? = some nd ∧ p < nd.zl.length ∧
      (before texts q'.bare i).length + p = place it.forward P A ∧
      q'.get ⟨i, some p, entryOffset it.forward nd.zl.length p⟩ = .ok (some a) ∧
      quicklistCompare nd.zl (some p) obj = .ok (decide (a = clip obj)) := by
  have returns := quicklistNext_spec lzf h cursor
  rw [Quicklist.Returns, nextEntry_walk_cons] at returns
  obtain ⟨q', i, nd, p, hnext, shape, raw, hnd, hp, hplace⟩ := returns
  have hread := getElem?_flatMap (f := texts) hnd (by rwa [nd.length_texts])
  rw [hplace, (h.congr shape).texts, getElem?_joined] at hread
  obtain ⟨e, he, htext⟩ : ∃ e, nd.zl[p]? = some e ∧ e.value.text = a := by
    rw [texts, Ziplist.texts, getElem?_map] at hread
    exact Option.map_eq_some_iff.mp hread.symm
  have hvalue := encoded nd (shape.bare ▸ mem_of_getElem? hnd) e (mem_of_getElem? he)
  refine ⟨q', i, nd, p, hnext, shape, raw, hnd, hp, hplace, ?_, ?_⟩
  · rw [Quicklist.get, readZl_eq raw hnd, ok_bind, Option.bind_some, he, Option.map_some, htext]
  · rw [quicklistCompare, ziplistCompare_eq he hvalue, htext]

lemma Quicklist.Encoded.delete (encoded : q.Encoded) (hnd : q.bare[i]? = some nd) (hdel : ziplistDelete nd.zl p 1 = .ok zl)
    (bare : q'.bare = if zl = [] then q.bare.eraseIdx i else
      q.bare.modify i fun nd => (nd.setZl zl).addCount (-(1 : Nat))) : q'.Encoded := by
  intro nd' hnd'
  rw [bare] at hnd'
  split at hnd'
  · exact encoded nd' (mem_of_mem_eraseIdx hnd')
  rcases mem_modify_cases hnd hnd' with rfl | hold
  · intro e he
    obtain ⟨e₀, he₀, hvalue⟩ := ziplistDelete_values hdel e he
    exact hvalue ▸ encoded nd (mem_of_getElem? hnd) e₀ he₀
  · exact encoded nd' hold

lemma delEntry_walk (lzf : Nat → Bool) (h : q.Stores (joined it.forward P (s :: A))) (raw : q.RawAt i)
    (hnd : q.bare[i]? = some nd) (hp : p < nd.zl.length) (encoded : q.Encoded) (hP : s ∉ P)
    (hplace : (before texts q.bare i).length + p = place it.forward P A) (m : Nat) :
    Sat (fun f => f = .overflow ∧ purgeable s it.forward (m + 1) (q.visit it.forward) = false)
      (fun r => r.1.Stores (joined it.forward P A) ∧ r.1.Cursor r.2 (place it.forward P A) ∧ r.2.forward = it.forward ∧
        r.1.Encoded ∧ purgeable s it.forward (m + 1) (q.visit it.forward) = purgeable s it.forward m (r.1.visit it.forward))
      (quicklistDelEntry ⟨lzf, false⟩ q (it.returned i nd.zl.length p) ⟨i, some p, entryOffset it.forward nd.zl.length p⟩) := by
  obtain ⟨htexts, hpassed⟩ := walk_node h hnd hp hplace
  obtain ⟨hzl, hbefore⟩ := hpassed s hP
  obtain ⟨pre, post, hsplit, hpre, hafter⟩ := visit_split it.forward hnd
  have hpre' : ∀ zl ∈ pre, s ∉ zl.texts := fun zl hzl' hmem => hbefore (hpre zl hzl' _ hmem)
  have hlen : (nd.zl.texts.take p).length = p := by
    rw [length_take, length_texts, Nat.min_eq_left (Nat.le_of_lt hp)]
  have hspec := ziplistDelete_spec nd.zl p 1 (h.tidy nd (mem_of_getElem? hnd)).small
  rw [hsplit]
  refine ((delEntry_stores lzf h raw hnd hp it).weaken ?_).mono ?_
  · rintro f ⟨rfl, hdel⟩
    exact ⟨rfl, purgeable_fails hpre' htexts hzl (hlen.symm ▸ hdel)⟩
  · rintro ⟨q', it'⟩ ⟨stores, cursor, hforward, zl, hdel, bare⟩
    have htexts' := (hspec.of_eq hdel).1
    rw [hplace] at stores cursor
    rw [eraseIdx_joined] at stores
    refine ⟨stores, cursor, hforward, encoded.delete hnd hdel bare, ?_⟩
    rw [purgeable_match hpre' htexts hzl (hlen.symm ▸ hdel) htexts', hafter q' zl bare]

lemma lremLoop_spec (lzf : Nat → Bool) (obj : Bytes) (hf : it.forward = forward) (h : q.Stores (joined forward P A))
    (cursor : q.Cursor it (place forward P A)) (encoded : q.Encoded) (hP : clip obj ∉ P)
    (budget : Budget toremove removed m (clip obj) A) :
    Sat (fun f => f = .overflow ∧ purgeable (clip obj) forward m (q.visit forward) = false)
      (fun r => purgeable (clip obj) forward m (q.visit forward) = true ∧
        LoopRemoves toremove (clip obj) forward P A m removed r)
      (lremLoop ⟨lzf, false⟩ obj toremove (A.length + 1) q it removed) := by
  induction A generalizing q it P m removed with
  | nil =>
    subst hf
    have returns := quicklistNext_spec lzf h cursor
    rw [Quicklist.Returns, nextEntry_walk_nil] at returns
    obtain ⟨q', it', hnext, shape⟩ := returns
    have hobj : clip obj ∉ joined it.forward P [] := by
      rw [mem_joined, not_or]
      exact ⟨hP, not_mem_nil⟩
    rw [lremLoop, hnext]
    refine ⟨purgeable_of_notMem (notMem_visit h hobj), ?_, ?_, prefix_rfl, fun _ => rfl⟩
    · rw [removeFirst_of_notMem not_mem_nil]
      exact h.congr shape
    · rw [count_nil, Nat.min_zero, Nat.add_zero]
  | cons a A ih =>
    subst hf
    obtain ⟨q', i, nd, p, hnext, shape, raw, hnd, hp, hplace, hget, hcompare⟩ := next_walk lzf h cursor encoded obj
    have h' := h.congr shape
    have encoded' : q'.Encoded := fun nd hnd => encoded nd (shape.bare ▸ hnd)
    have hvisit : q'.visit it.forward = q.visit it.forward := by rw [visit, shape.bare, visit]
    rw [lremLoop, hnext, ok_bind]
    dsimp only
    rw [hget, ok_bind, readZl_eq raw hnd, ok_bind, hcompare, ok_bind, ← hvisit]
    by_cases ha : a = clip obj
    · subst ha
      obtain ⟨m, rfl⟩ : ∃ m', m = m' + 1 := ⟨m - 1, (Nat.succ_pred_eq_of_pos budget.pos).symm⟩
      rw [if_pos (decide_eq_true rfl)]
      refine (delEntry_walk lzf h' raw hnd hp encoded' hP hplace m).bind ?_
      rintro ⟨q₂, it₂⟩ ⟨stores₂, cursor₂, hforward, encoded₂, hpurge⟩
      rw [hpurge]
      by_cases last : toremove ≠ 0 ∧ ((removed + 1 : Nat) : Int) = toremove
      · -- as many as were asked for are gone
        obtain rfl : m = 0 := by
          have hm := (budget.some (by omega)).1
          omega
        rw [if_pos last]
        refine ⟨purgeable_zero, ?_, ?_, ?_, fun hend => ?_⟩
        · rw [removeFirst_cons_self, removeFirst]
          exact stores₂
        · show removed + 1 = _
          rw [count_cons_self]
          omega
        · exact ⟨A, rfl⟩
        · exact absurd hend (not_or.mpr ⟨last.1, not_not.mpr last.2⟩)
      · rw [if_neg last]
        refine Sat.bind (ih hforward stores₂ cursor₂ encoded₂ hP (budget.remove last)) ?_
        rintro ⟨q₃, removed', returned⟩ ⟨hpurge', stores, hremoved, hprefix, hall⟩
        refine ⟨hpurge', ?_, ?_, ?_, fun hend => ?_⟩
        · rw [removeFirst_cons_self]
          exact stores
        · have hremoved' : removed' = removed + 1 + min m (A.count (clip obj)) := hremoved
          show removed' = _
          rw [count_cons_self]
          omega
        · exact (prefix_append_right_inj [clip obj]).mpr hprefix
        · rw [hall hend]
          rfl
    · rw [if_neg (by simpa using ha)]
      have hpass : clip obj ∉ pass it.forward P a := by
        rw [mem_pass, not_or]
        exact ⟨hP, fun heq => ha heq.symm⟩
      have cursor' : q'.Cursor (it.returned i nd.zl.length p) (place it.forward (pass it.forward P a) A) := by
        have hreturned : q'.Cursor (it.returned i nd.zl.length p) _ := cursor_returned raw hnd hp
        rw [place_pass, ← hplace]
        cases hf : it.forward with
        | true => rwa [hf] at hreturned
        | false => rwa [hf] at hreturned
      rw [← joined_pass] at h'
      refine Sat.bind (ih rfl h' cursor' encoded' hpass (budget.pass ha)) ?_
      rintro ⟨q₂, removed', returned⟩ ⟨hpurge, stores, hremoved, hprefix, hall⟩
      refine ⟨hpurge, ?_, ?_, ?_, fun hend => ?_⟩
      · rw [removeFirst_cons_ne ha, ← joined_pass]
        exact stores
      · rw [count_cons_of_ne ha]
        exact hremoved
      · exact (prefix_append_right_inj [a]).mpr hprefix
      · rw [hall hend]
        rfl

end Loop

section Command

variable {q q' : Quicklist} {l : List Bytes} {k : Nat} {idx count : Int} {s obj value : Bytes} {forward : Bool}

lemma getIterator_cursor (h : q.Stores l) (hk : listIndex l.length idx = some k) (hforward : forward = decide (0 ≤ idx)) :
    ∃ q' it, quicklistGetIteratorAtIdx q forward idx = .ok (q', some it) ∧ q.SameShape q' ∧ it.forward = forward ∧
      q'.Cursor it (if forward then k else k + 1) := by
  obtain ⟨i, nd, offset, p, -, hnd, hindex, hp, hpos, hsign, hentry⟩ := h.index_some hk
  have shape : q.SameShape (quicklistDecompressNodeForUse q i) := sameShape_decompressForUse
  refine ⟨quicklistDecompressNodeForUse q i, ⟨some i, none, offset, forward⟩, ?_, shape, rfl, ?_⟩
  · rw [quicklistGetIteratorAtIdx, hentry, ok_bind]
  refine .inr ⟨i, nd, if forward then p else p + 1, shape.bare ▸ hnd, ⟨rfl, ?_, .inl ⟨rfl, ?_⟩⟩, ?_⟩
  · split <;> omega
  · rw [ziplistIndex] at hindex
    by_cases hidx : 0 ≤ idx
    · rw [if_neg (by omega)] at hindex
      rw [hforward, decide_eq_true hidx]
      split at hindex
      · cases hindex
        simp only [if_true]
        omega
      · cases hindex
    rw [if_pos (by omega)] at hindex
    rw [hforward, decide_eq_false hidx]
    dsimp only at hindex
    split at hindex
    · cases hindex
      simp only [Bool.false_eq_true, if_false]
      omega
    · cases hindex
  · rw [shape.bare, ← hpos]
    split <;> rfl

def inOrder (forward : Bool) (l : List Bytes) : List Bytes := if forward then l else l.reverse

/-- The number of occurrences that `LREM` is asked to remove. -/
def lremLimit (l : List Bytes) (count : Int) : Nat := if count = 0 then l.length else count.natAbs

def lremLeft (l : List Bytes) (count : Int) (value : Bytes) : List Bytes :=
  inOrder (decide (0 ≤ count)) (removeFirst value (lremLimit l count) (inOrder (decide (0 ≤ count)) l))

/-- `LREM` leaves the list without the first or last occurrences, and the key is deleted if that is empty. The reply is the
number of occurrences that were removed. The elements that were looked at are the elements of the list in turn, all of them
unless as many occurrences were removed as were asked for. -/
def LremRight (l : List Bytes) (count : Int) (value : Bytes) (r : Option Quicklist × Nat × List Bytes) : Prop :=
  (match r.1 with
    | none => lremLeft l count value = []
    | some q => lremLeft l count value ≠ [] ∧ q.Stores (lremLeft l count value)) ∧
  r.2.1 = min (lremLimit l count) (l.count value) ∧ r.2.2 <+: inOrder (decide (0 ≤ count)) l ∧
  (count = 0 ∨ r.2.1 ≠ count.natAbs → r.2.2 = inOrder (decide (0 ≤ count)) l)

lemma length_inOrder : (inOrder forward l).length = l.length := by
  cases forward <;> simp [inOrder]

lemma count_inOrder : (inOrder forward l).count s = l.count s := by
  cases forward <;> simp [inOrder]

lemma mem_inOrder : s ∈ inOrder forward l ↔ s ∈ l := by
  cases forward <;> simp [inOrder]

lemma inOrder_inOrder (forward : Bool) (l : List Bytes) : inOrder forward (inOrder forward l) = l := by
  cases forward <;> simp [inOrder]

lemma inOrder_nil : inOrder forward [] = [] := by
  cases forward <;> rfl

lemma joined_nil : joined forward [] l = inOrder forward l := by
  cases forward <;> simp [joined, inOrder]

lemma toremove_cases (low : -2 ^ 63 ≤ count) : (if count < 0 then longNeg count else count) = count.natAbs ∨
    count = -2 ^ 63 ∧ (if count < 0 then longNeg count else count) = -2 ^ 63 := by
  split
  · rcases eq_or_lt_of_le low with rfl | hlt
    · exact .inr ⟨rfl, by decide⟩
    · rw [longNeg, Int.bmod_eq_of_le] <;> omega
  · omega

lemma endIndex (n : Nat) (count : Int) :
    listIndex n (if count < 0 then -1 else 0) = if n = 0 then none else some (if count < 0 then n - 1 else 0) := by
  rw [listIndex]
  split
  · rw [if_pos (by decide)]
    cases n with
    | zero => rfl
    | succ n => rfl
  · cases n with
    | zero => rfl
    | succ n => rfl

lemma lremBudget (low : -2 ^ 63 ≤ count) (hl : l.length < 2 ^ 63) (s : Bytes) :
    Budget (if count < 0 then longNeg count else count) 0 (lremLimit l count) s (inOrder (decide (0 ≤ count)) l) := by
  have hcount : (inOrder (decide (0 ≤ count)) l).count s ≤ l.length := by
    rw [count_inOrder]
    exact count_le_length
  rw [lremLimit]
  rcases toremove_cases low with heq | ⟨rfl, heq⟩
  · rw [heq]
    exact ⟨fun hpos => by split <;> omega, fun hle => by split <;> omega⟩
  · rw [heq]
    exact ⟨fun hpos => by omega, fun _ => by split <;> omega⟩

lemma lremEarly {removed : Nat} (low : -2 ^ 63 ≤ count) (h : count = 0 ∨ removed ≠ count.natAbs) :
    (if count < 0 then longNeg count else count) = 0 ∨ (removed : Int) ≠ if count < 0 then longNeg count else count := by
  rcases toremove_cases low with heq | ⟨rfl, heq⟩
  · rw [heq]
    omega
  · rw [heq]
    omega

lemma stores_or_deleted (h : q.Stores l) :
    match (if q.count = 0 then none else some q) with
    | none => l = []
    | some q' => l ≠ [] ∧ q'.Stores l := by
  have hcount := h.count
  by_cases hzero : q.count = 0
  · rw [if_pos hzero]
    exact length_eq_zero_iff.mp (hcount.symm.trans hzero)
  · rw [if_neg hzero]
    refine ⟨?_, h⟩
    rintro rfl
    exact hzero hcount

lemma lremCommand_spec (lzf : Nat → Bool) (h : q.Stores l) (encoded : q.Encoded) (hl : l.length < 2 ^ 63)
    (low : -2 ^ 63 ≤ count) (obj : Bytes) :
    Sat (fun f => f = .overflow ∧
        purgeable (clip obj) (decide (0 ≤ count)) (lremLimit l count) (q.visit (decide (0 ≤ count))) = false)
      (fun r => purgeable (clip obj) (decide (0 ≤ count)) (lremLimit l count) (q.visit (decide (0 ≤ count))) = true ∧
        LremRight l count (clip obj) r)
      (lremCommand ⟨lzf, false⟩ q count obj) := by
  have hsign : decide (0 ≤ count) = decide (0 ≤ if count < 0 then -1 else (0 : Int)) := by
    rw [decide_eq_decide]
    split <;> omega
  rw [lremCommand]
  cases hk : listIndex l.length (if count < 0 then -1 else 0) with
  | none =>
    rw [endIndex] at hk
    have hempty : l = [] := by
      split at hk
      · exact length_eq_zero_iff.mp ‹_›
      · cases hk
    subst hempty
    have hcount : q.count = 0 := h.count
    rw [quicklistGetIteratorAtIdx, quicklistIndex, h.locate_none (endIndex 0 count)]
    rw [ok_bind, ok_bind]
    dsimp only
    rw [ok_bind, if_pos hcount]
    refine ⟨purgeable_of_notMem (notMem_visit h not_mem_nil), ?_, ?_, nil_prefix, fun _ => ?_⟩
    · rw [lremLeft, inOrder_nil, removeFirst_of_notMem not_mem_nil, inOrder_nil]
    · rw [count_nil, Nat.min_zero]
    · rw [inOrder_nil]
  | some k =>
    obtain ⟨q', it, hiter, shape, hforward, cursor⟩ := getIterator_cursor h hk hsign
    have h' := h.congr shape
    have encoded' : q'.Encoded := fun nd hnd => encoded nd (shape.bare ▸ hnd)
    have hplace : (if decide (0 ≤ count) = true then k else k + 1) =
        place (decide (0 ≤ count)) [] (inOrder (decide (0 ≤ count)) l) := by
      rw [place, length_inOrder]
      rw [endIndex] at hk
      split at hk
      · cases hk
      cases hk
      by_cases neg : count < 0
      · rw [if_pos neg, decide_eq_false (by omega)]
        simp only [Bool.false_eq_true, if_false]
        omega
      · rw [if_neg neg, decide_eq_true (by omega)]
        rfl
    have hvisit : q'.visit (decide (0 ≤ count)) = q.visit (decide (0 ≤ count)) := by
      rw [visit, shape.bare, visit]
    rw [hplace] at cursor
    rw [← inOrder_inOrder (decide (0 ≤ count)) l, ← joined_nil] at h'
    have hloop := lremLoop_spec lzf obj hforward h' cursor encoded' not_mem_nil (lremBudget low hl (clip obj))
    rw [hiter]
    rw [length_inOrder, ← h.count, ← shape.count, hvisit] at hloop
    refine hloop.bind ?_
    rintro ⟨q₂, removed, returned⟩ ⟨hpurge, stores, hremoved, hprefix, hall⟩
    refine ⟨hpurge, ?_, ?_, hprefix, fun hearly => hall (lremEarly low hearly)⟩
    · rw [joined_nil] at stores
      exact stores_or_deleted stores
    · rw [count_inOrder, Nat.zero_add] at hremoved
      exact hremoved

lemma lremCommand_returns (lzf : Nat → Bool) (h : q.Stores l) (encoded : q.Encoded) (hl : l.length < 2 ^ 63)
    (low : -2 ^ 63 ≤ count) (obj : Bytes)
    (hpurge : purgeable (clip obj) (decide (0 ≤ count)) (lremLimit l count) (q.visit (decide (0 ≤ count))) = true) :
    ∃ r, lremCommand ⟨lzf, false⟩ q count obj = .ok r ∧ LremRight l count (clip obj) r := by
  have hspec := (lremCommand_spec lzf h encoded hl low obj).weaken
    (G := fun _ => False) fun hfails => Bool.false_ne_true (hfails.2.symm.trans hpurge)
  exact (hspec.mono fun _ hr => hr.2).returns

lemma lremLeft_of_notMem (hs : s ∉ l) : lremLeft l count s = l := by
  rw [lremLeft, removeFirst_of_notMem (by rwa [mem_inOrder]), inOrder_inOrder]

lemma LremRight.of_notMem {r} (right : LremRight l count s r) (hs : s ∉ l)
    (hvalue : value ∉ l) : LremRight l count value r := by
  rw [LremRight, lremLeft_of_notMem hs, count_eq_zero_of_not_mem hs] at right
  rw [LremRight, lremLeft_of_notMem hvalue, count_eq_zero_of_not_mem hvalue]
  exact right

lemma lremLimit_pos (hs : s ∈ l) : 0 < lremLimit l count := by
  rw [lremLimit]
  split
  · exact length_pos_of_mem hs
  · omega

/-- `LREM` removes the right occurrences and returns their number exactly if no ziplist grows to `2 ^ 32` bytes while they are
deleted, and the value is shorter than that or what is left of it, with its length taken as an `int`, is no element. -/
theorem lremCommand_removes_iff (lzf : Nat → Bool) (h : q.Stores l) (encoded : q.Encoded) (hl : l.length < 2 ^ 63)
    (low : -2 ^ 63 ≤ count) (value : Bytes) :
    (∃ r, lremCommand ⟨lzf, false⟩ q count value = .ok r ∧ LremRight l count value r) ↔
      (2 ^ 32 ≤ value.length → clip value ∉ l) ∧
        purgeable value (decide (0 ≤ count)) (lremLimit l count) (q.visit (decide (0 ≤ count))) = true := by
  have hspec := lremCommand_spec lzf h encoded hl low value
  by_cases hlong : 2 ^ 32 ≤ value.length
  · have hvalue : value ∉ l := fun hmem => absurd (h.length_lt hmem) (Nat.not_lt.mpr hlong)
    constructor
    · rintro ⟨r, hr, right⟩
      refine ⟨fun _ hclip => ?_, purgeable_of_notMem (notMem_visit h hvalue)⟩
      -- something was removed, and nothing should have been
      have hremoved := (hspec.of_eq hr).2.2.1
      rw [right.2.1, count_eq_zero_of_not_mem hvalue] at hremoved
      have hlimit : 0 < lremLimit l count := lremLimit_pos hclip
      have hcount := count_pos_iff.mpr hclip
      omega
    · rintro ⟨hclip, -⟩
      have hnot := hclip hlong
      obtain ⟨r, hr, right⟩ := lremCommand_returns lzf h encoded hl low value (purgeable_of_notMem (notMem_visit h hnot))
      exact ⟨r, hr, right.of_notMem hnot hvalue⟩
  · have hclip : clip value = value := clip_eq (Nat.lt_of_not_le hlong)
    have hreturns := lremCommand_returns lzf h encoded hl low value
    rw [hclip] at hspec hreturns ⊢
    constructor
    · rintro ⟨r, hr, -⟩
      exact ⟨fun hle => absurd hle hlong, (hspec.of_eq hr).1⟩
    · rintro ⟨-, hpurge⟩
      exact hreturns hpurge

def repeated : Quicklist := smallNodes [([7, 1, 7], 17, 3), ([7, 2], 15, 2)] 5

lemma repeated_stores : repeated.Stores [ll2string 7, ll2string 1, ll2string 7, ll2string 7, ll2string 2] where
  tidy := by
    intro nd hnd
    fin_cases hnd <;> exact ⟨by decide, by decide, by decide, by decide, by decide⟩
  texts := rfl
  count := rfl
  len := rfl

theorem lremCommand_removes_last :
    ∃ r, lremCommand ⟨fun _ => false, false⟩ repeated (-2) (ll2string 7) = .ok r ∧
      LremRight [ll2string 7, ll2string 1, ll2string 7, ll2string 7, ll2string 2] (-2) (ll2string 7) r :=
  (lremCommand_removes_iff _ repeated_stores (by decide) (by decide) (by decide) (ll2string 7)).mpr
    ⟨fun hlong => absurd hlong (by decide), by decide +kernel⟩

lemma lremLoop_clip {env} {obj obj' : Bytes} {toremove : Int} (hclip : clip obj = clip obj') (turns : Nat)
    (q : Quicklist) (it : QuicklistIter) (removed : Nat) :
    lremLoop env obj toremove turns q it removed = lremLoop env obj' toremove turns q it removed := by
  induction turns generalizing q it removed with
  | zero => rfl
  | succ turns ih =>
    have hcompare (zl : Ziplist) (p : Option Nat) : quicklistCompare zl p obj = quicklistCompare zl p obj' := by
      cases p with
      | none => rfl
      | some p => rw [quicklistCompare, quicklistCompare, hclip]
    simp only [lremLoop, ih, hcompare]

def emptyString : Quicklist where
  nodes := [quicklistCreateNode [⟨false, .str []⟩] 13 1]
  count := 1
  len := 1
  fill := -2
  compress := 0
  tries := 0

lemma emptyString_stores : emptyString.Stores [[]] where
  tidy := by
    intro nd hnd
    fin_cases hnd
    exact ⟨by decide, by decide, by decide, by decide, by decide⟩
  texts := rfl
  count := rfl
  len := rfl

/-- A value of `2 ^ 32` bytes has no bytes left as an `int`, and the empty string is removed for it. -/
theorem lremCommand_removes_other :
    emptyString.Stores [[]] ∧ emptyString.Encoded ∧
      lremCommand ⟨fun _ => false, false⟩ emptyString 0 (List.replicate (2 ^ 32) 0) = .ok (none, 1, [[]]) ∧
      ¬ LremRight [[]] 0 (List.replicate (2 ^ 32) 0) (none, 1, [[]]) := by
  have hlength (n : Nat) : (List.replicate n (0 : UInt8)).length = n := length_replicate
  have hclip : clip (List.replicate (2 ^ 32) 0) = clip [] := by
    rw [clip, hlength, Nat.mod_self]
    rfl
  refine ⟨emptyString_stores, by decide, ?_, ?_⟩
  · rw [lremCommand]
    simp only [lremLoop_clip hclip]
    decide +kernel
  · intro right
    have hnot : List.replicate (2 ^ 32) (0 : UInt8) ∉ [([] : Bytes)] := by
      intro hmem
      have hnil := congrArg List.length (mem_singleton.mp hmem)
      rw [hlength] at hnil
      cases hnil
    have hremoved : 1 = min (lremLimit [[]] 0) _ := right.2.1
    rw [count_eq_zero_of_not_mem hnot] at hremoved
    cases hremoved

end Command

end JitRedis
