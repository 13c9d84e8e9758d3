import JitRedis.Dict.Invariant

/-!
# Dict operations on the abstract map

What `dictFind`, `dictAddRaw`, `dictAdd`, `dictReplace` and `dictGenericDelete` answer and how they
change the map that the dict stands for.
-/

namespace JitRedis

open Fallible Buckets Dict Function
open scoped List

variable {K V : Type} {hash : K → BitVec 64}

variable {d : Dict K V} {r : DictEntryRef} {e : DictEntry K V} {second canResize : Bool} {t : Dictht K V}

lemma Dict.deref_eq_some :
    d.deref r = some e ↔ ∃ b, (d.ht r.second).table[r.idx]? = some b ∧ b[r.pos]? = some e := by
  rw [deref, Option.bind_eq_some_iff]

lemma Dict.mem_entries
    (h : e ∈ (d.ht second).entries) : e ∈ d.entries := by
  cases second with
  | false => exact List.mem_append_left _ h
  | true => exact List.mem_append_right _ h

lemma Dict.mem_of_deref
    (h : d.deref r = some e) : e ∈ d.entries := by
  obtain ⟨b, hb, he⟩ := deref_eq_some.mp h
  exact mem_entries
    (List.mem_flatten.mpr ⟨b, List.mem_of_getElem? hb, List.mem_of_getElem? he⟩)

lemma Dict.entries_setHt
    {es es' rest} (p : (d.ht second).entries ~ es ++ rest)
    (p' : t.entries ~ es' ++ rest) :
    ∃ rest', d.entries ~ es ++ rest' ∧ (d.setHt second t).entries ~ es' ++ rest' := by
  cases second with
  | false =>
    refine ⟨rest ++ d.ht1.entries, ?_, ?_⟩
    · rw [← List.append_assoc]
      exact List.Perm.append_right _ p
    · rw [← List.append_assoc]
      exact List.Perm.append_right _ p'
  | true =>
    refine ⟨d.ht0.entries ++ rest, ?_, ?_⟩
    · exact (List.Perm.append_left _ p).trans (List.perm_append_comm_assoc _ _ _)
    · exact (List.Perm.append_left _ p').trans (List.perm_append_comm_assoc _ _ _)

lemma Dict.Refines.setHt {m m'} (ref : d.Refines hash m)
    (wf : t.Wf hash) (sz : t.size = (d.ht second).size)
    (sec : second = true → d.isRehashing)
    (emp : d.isRehashing → second = false → ∀ i : Nat,
      d.ht0.table[i]? = some [] → t.table[i]? = some [])
    (rep : Represents DictEntry.key DictEntry.val (d.setHt second t).entries m')
    (room : (d.setHt second t).dictSize * 24 < addressSpace) :
    (d.setHt second t).Refines hash m' := by
  cases second with
  | false =>
    refine ⟨wf, ref.ht1, rep, ref.idle, ?_, ?_, ?_, room⟩
    · intro h
      exact ⟨(ref.range h).1, (ref.range h).2.trans_eq (congrArg Int.ofNat sz.symm)⟩
    · intro h
      exact ⟨(ref.live h).1.trans_eq sz.symm, (ref.live h).2⟩
    · intro h i hi
      exact emp h rfl i (ref.moved h i hi)
  | true =>
    have reh := sec rfl
    refine ⟨ref.ht0, wf, rep, fun h => absurd reh h, ref.range, ?_, ref.moved, room⟩
    intro h
    exact ⟨(ref.live h).1, (ref.live h).2.trans_eq sz.symm⟩

lemma Dict.Refines.ht {m} (ref : d.Refines hash m) (second : Bool) :
    (d.ht second).Wf hash := by
  cases second with
  | false => exact ref.ht0
  | true => exact ref.ht1

lemma Dict.Refines.second_rehashing {m} (ref : d.Refines hash m)
    (h : d.deref r = some e) (hs : r.second = true) :
    d.isRehashing := by
  by_contra reh
  obtain ⟨b, hb, _⟩ := deref_eq_some.mp h
  rw [hs] at hb
  simp [Dict.ht, ref.idle reh, dictReset] at hb

lemma Dict.Refines.modify {m m'} (ref : d.Refines hash m)
    (h : d.deref r = some e)
    {b} (hb : (d.ht r.second).table[r.idx]? = some b)
    {f} {u : Nat} (f0 : f [] = [])
    (hf : ∀ e' ∈ f b, ∃ e ∈ b, e.key = e'.key) (hu : u + b.length = (d.ht r.second).used + (f b).length)
    (hle : u ≤ (d.ht r.second).used)
    (rep : ∀ rest, Represents DictEntry.key DictEntry.val (b ++ rest) m →
      Represents DictEntry.key DictEntry.val (f b ++ rest) m') :
    (d.setHt r.second { d.ht r.second with
      table := (d.ht r.second).table.modify r.idx f, used := u }).Refines hash m' := by
  have wf := ref.ht r.second
  apply ref.setHt
  · apply wf.modify hb _ hu
    intro e' he'
    obtain ⟨e0, he0, ek⟩ := hf e' he'
    have := wf.placed _ b hb e0 he0
    rw [Dictht.slot, ek] at this
    exact this
  · rfl
  · exact ref.second_rehashing h
  · intro _ hs i hi
    rw [hs] at hb ⊢
    simp only [Dict.ht, Bool.false_eq_true, if_false, List.getElem?_modify, hi, Option.map_eq_map,
      Option.map_some]
    split
    · rw [f0]
    · rfl
  · obtain ⟨rest, p1, p2⟩ := flatten_modify f hb
    obtain ⟨rest', q1, q2⟩ := Dict.entries_setHt
      (t := { d.ht r.second with table := (d.ht r.second).table.modify r.idx f, used := u }) p1 p2
    exact (rep rest' (ref.rep.perm q1)).perm q2.symm
  · have room := ref.room
    revert hle room
    cases r.second with
    | false =>
      simp only [Dict.setHt, Dict.ht, Dict.dictSize, Bool.false_eq_true, if_false]
      omega
    | true =>
      simp only [Dict.setHt, Dict.ht, Dict.dictSize, if_true]
      omega

lemma perm_of_getElem? {b} {p : Nat}
    (h : b[p]? = some e) (g : DictEntry K V → DictEntry K V) :
    b ~ e :: b.eraseIdx p ∧ b.modify p g ~ g e :: b.eraseIdx p := by
  induction b generalizing p with
  | nil => simp at h
  | cons a b ih =>
    cases p with
    | zero =>
      simp only [List.getElem?_cons_zero, Option.some.injEq] at h
      subst h
      simp
    | succ p =>
      simp only [List.getElem?_cons_succ] at h
      obtain ⟨p1, p2⟩ := ih h
      simp only [List.eraseIdx_cons_succ, List.modify_succ_cons]
      exact ⟨(p1.cons a).trans (.swap ..), (p2.cons a).trans (.swap ..)⟩

section Keys

variable [DecidableEq K]

lemma Dictht.search_spec (wf : t.Wf hash) (pos : 0 < t.size) (k : K) :
    Sat NoFault (fun r => match r with
      | none => ∀ e ∈ t.entries, e.key ≠ k
      | some (i, p) => ∃ b e, t.table[i]? = some b ∧ b[p]? = some e ∧ e.key = k)
      (t.search hash k) := by
  obtain ⟨b, hb⟩ := wf.bucket pos k
  simp only [Dictht.search, hb, sat_ok]
  cases hp : b.findIdx? fun e => decide (e.key = k) with
  | none =>
    intro e he ek
    subst ek
    have := List.findIdx?_eq_none_iff.mp hp e (wf.mem_bucket he hb)
    simp at this
  | some p =>
    obtain ⟨hlt, hk, -⟩ := List.findIdx?_eq_some_iff_getElem.mp hp
    exact ⟨b, b[p], hb, List.getElem?_eq_getElem hlt, by simpa using hk⟩

lemma Dict.search_spec {m} (ref : d.Refines hash m) (pos : 0 < d.ht0.size) (k : K) :
    Sat NoFault (fun r => match r with
      | none => m k = none
      | some r => ∃ e, d.deref r = some e ∧ e.key = k) (d.search hash k) := by
  refine (Dictht.search_spec ref.ht0 pos k).bind ?_
  rintro (_ | ⟨i, p⟩)
  · intro none0
    simp only
    split
    · rename_i reh
      refine ref.rep.get_none fun e he => ?_
      rw [entries, ref.idle reh] at he
      exact none0 e (by simpa [dictReset, Dictht.entries] using he)
    rename_i reh
    rw [not_not] at reh
    refine (Dictht.search_spec ref.ht1 (ref.live reh).2 k).bind ?_
    rintro (_ | ⟨i, p⟩)
    · intro none1
      refine ref.rep.get_none fun e he => ?_
      rcases List.mem_append.mp he with h | h
      · exact none0 e h
      · exact none1 e h
    · rintro ⟨b, e, hb, he, ek⟩
      exact ⟨e, deref_eq_some.mpr ⟨b, hb, he⟩, ek⟩
  · rintro ⟨b, e, hb, he, ek⟩
    exact ⟨e, deref_eq_some.mpr ⟨b, hb, he⟩, ek⟩

lemma dictFind_spec {m} (ref : d.Refines hash m) (k : K) :
    Sat NoFault (fun p => p.1.Refines hash m ∧
      (p.2.bind p.1.deref) = (m k).map fun v => { key := k, val := v }) (dictFind hash d k) := by
  rw [dictFind]
  split
  · rename_i hz
    refine ⟨ref, ?_⟩
    have emp : d.entries = [] := by
      rw [dictSize, ref.ht0.used, ref.ht1.used, ← List.length_append] at hz
      exact List.length_eq_zero_iff.mp hz
    rw [ref.rep.get_none (k := k) (by simp [emp])]
    rfl
  rename_i hz
  refine (dictRehashStep_spec ref).bind ?_
  rintro d' ⟨ref', pos⟩
  refine (search_spec ref' (pos (ref.size_pos hz)) k).bind ?_
  rintro (_ | r) h
  · exact ⟨ref', by rw [h]; rfl⟩
  obtain ⟨e, he, ek⟩ := h
  refine ⟨ref', ?_⟩
  have := ref'.rep.get (mem_of_deref he)
  rw [ek] at this
  subst ek
  simp [he, this]

lemma dictKeyIndex_spec {m} (ref : d.Refines hash m) (k : K) :
    Sat OnlyOom (fun p => p.1.Refines hash m ∧ 0 < p.1.ht0.size ∧ match p.2 with
      | .free idx => m k = none ∧ idx = (p.1.ht (decide p.1.isRehashing)).slot hash k
      | .taken r => ∃ r' e, r = some r' ∧ p.1.deref r' = some e ∧ e.key = k)
      (dictKeyIndex canResize hash d k) := by
  refine (dictExpandIfNeeded_spec ref).bind ?_
  rintro ⟨d', ok⟩ ⟨ref', pos, hok⟩
  simp only at hok
  subst hok
  obtain ⟨r, hs, srch⟩ := (search_spec ref' pos k).returns
  simp only [Bool.true_eq_false, if_false, hs]
  cases r with
  | none => exact ⟨ref', pos, srch, rfl⟩
  | some r =>
    obtain ⟨e, he, ek⟩ := srch
    exact ⟨ref', pos, r, e, rfl, he, ek⟩

/-- `dictAddRaw` returns `NULL` and the entry exactly when the map has the key; otherwise it adds the key. -/
lemma dictAddRaw_spec {m} (ref : d.Refines hash m) (k : K) :
    Sat OnlyOom (fun p => match p.2 with
      | .ok r => m k = none ∧ p.1.Refines hash (update m k (some none)) ∧
          p.1.deref r = some { key := k, val := none }
      | .error r => p.1.Refines hash m ∧ ∃ r' e, r = some r' ∧ p.1.deref r' = some e ∧ e.key = k)
      (dictAddRaw canResize hash d k) := by
  refine (dictRehashStep_spec ref).total.bind ?_
  rintro d ⟨ref, -⟩
  refine (dictKeyIndex_spec ref k).bind ?_
  rintro ⟨d', idx | r⟩ ⟨ref', pos, h⟩
  · obtain ⟨hm, hidx⟩ := h
    simp only
    split
    · rfl
    rename_i hoom
    simp only at hidx ⊢
    rw [hidx]
    -- New entries go to `ht[1]` while rehashing and to `ht[0]` otherwise.
    have hlive : 0 < (d'.ht (decide d'.isRehashing)).size := by
      by_cases reh : d'.isRehashing
      · simpa [ht, reh] using (ref'.live reh).2
      · simpa [ht, reh] using pos
    obtain ⟨t, hp, wf, p, sz, _, us, b, hb⟩ := (Dictht.push_spec (ref'.ht (decide d'.isRehashing)) hlive
      ({ key := k, val := none } : DictEntry K V)).returns
    rw [hp]
    have q : (d'.ht (decide d'.isRehashing)).entries ~
        [] ++ (d'.ht (decide d'.isRehashing)).entries := .refl _
    have p' : t.entries ~ [{ key := k, val := none }] ++ _ := p
    obtain ⟨rest, q1, q2⟩ := entries_setHt q p'
    refine ⟨hm, ?_, ?_⟩
    · refine ref'.setHt wf sz (by simp) (fun h1 h2 => by simp [h1] at h2) ?_ ?_
      · have rep := (ref'.rep.perm q1).cons (e := ({ key := k, val := none } : DictEntry K V)) hm
        exact rep.perm q2.symm
      · revert us hoom
        cases decide d'.isRehashing with
        | false =>
          simp only [setHt, ht, dictSize, Bool.false_eq_true, if_false]
          intro us hoom
          omega
        | true =>
          simp only [setHt, ht, dictSize, if_true]
          intro us hoom
          omega
    · refine deref_eq_some.mpr ⟨{ key := k, val := none } :: b, ?_, rfl⟩
      rw [← hb]
      cases decide d'.isRehashing <;> rfl
  · exact ⟨ref', h⟩

lemma dictSetVal_spec {m} (ref : d.Refines hash m)
    (h : d.deref r = some e) (v : V) :
    (dictSetVal d r v).Refines hash (update m e.key (some (some v))) := by
  obtain ⟨b, hb, he⟩ := deref_eq_some.mp h
  obtain ⟨p1, p2⟩ := perm_of_getElem? he fun e => { e with val := some v }
  refine ref.modify h hb ?_ ?_ ?_ le_rfl ?_
  · simp
  · intro e' he'
    rcases List.mem_cons.mp (p2.mem_iff.mp he') with h' | h'
    · exact ⟨e, List.mem_of_getElem? he, by rw [h']⟩
    · exact ⟨e', p1.mem_iff.mpr (List.mem_cons_of_mem _ h'), rfl⟩
  · simp
  · intro rest rep
    refine Represents.perm (rep.perm (p1.append_right rest) |>.replace ?_) (p2.symm.append_right rest)
    rfl

lemma dictAdd_spec {m} (ref : d.Refines hash m) (k : K) (v : V) :
    Sat OnlyOom (fun p => p.2 = (m k).isNone ∧
      p.1.Refines hash (if (m k).isNone then update m k (some (some v)) else m))
      (dictAdd canResize hash d k v) := by
  refine (dictAddRaw_spec ref k).bind ?_
  rintro ⟨d', r | r⟩ h
  · obtain ⟨ref', r', e, -, he, ek⟩ := h
    have := ref'.rep.get (mem_of_deref he)
    rw [ek] at this
    simp [this, ref']
  · obtain ⟨hm, ref', he⟩ := h
    have := dictSetVal_spec ref' he v
    rw [update_idem] at this
    simp [hm, this]

lemma dictReplace_spec {m} (ref : d.Refines hash m) (k : K)
    (v : V) :
    Sat OnlyOom (fun p => p.2 = (m k).isNone ∧
      p.1.Refines hash (update m k (some (some v)))) (dictReplace canResize hash d k v) := by
  refine (dictAddRaw_spec ref k).bind ?_
  rintro ⟨d', r | r⟩ h
  · obtain ⟨ref', r', e, rfl, he, ek⟩ := h
    have := ref'.rep.get (mem_of_deref he)
    rw [ek] at this
    have set := dictSetVal_spec ref' he v
    rw [ek] at set
    simp [this, set]
  · obtain ⟨hm, ref', he⟩ := h
    have := dictSetVal_spec ref' he v
    rw [update_idem] at this
    simp [hm, this]

lemma dictGenericDelete_spec {m} (ref : d.Refines hash m) (k : K) :
    Sat NoFault (fun p => p.1.Refines hash (update m k none) ∧
      p.2 = (m k).map fun v => { key := k, val := v }) (dictGenericDelete hash d k) := by
  have gone : ∀ {d : Dict K V}, d.Refines hash m → m k = none →
      d.Refines hash (update m k none) := by
    intro d ref hm
    rwa [← hm, update_eq_self]
  rw [dictGenericDelete]
  split
  · rename_i hz
    have emp : d.entries = [] := by
      rw [← List.length_eq_zero_iff, entries, List.length_append, ← ref.ht0.used,
        ← ref.ht1.used, hz.1, hz.2]
    have hm : m k = none := ref.rep.get_none (by simp [emp])
    exact ⟨gone ref hm, by rw [hm]; rfl⟩
  rename_i hz
  refine (dictRehashStep_spec ref).bind ?_
  rintro d' ⟨ref', pos⟩
  have hpos := pos (ref.size_pos (by rw [dictSize]; omega))
  refine (search_spec ref' hpos k).bind ?_
  rintro (_ | r) h
  · exact ⟨gone ref' h, by rw [h]; rfl⟩
  obtain ⟨e, he, ek⟩ := h
  obtain ⟨b, hb, hp⟩ := deref_eq_some.mp he
  obtain ⟨p1, -⟩ := perm_of_getElem? hp id
  have hlt := (getElem?_eq_some_iff.mp hp).1
  have hm := ref'.rep.get (mem_of_deref he)
  have hb1 : b.length ≤ (d'.ht r.second).used := by
    rw [(ref'.ht r.second).used]
    obtain ⟨rest, q, -⟩ := flatten_modify id hb
    rw [Dictht.entries, q.length_eq, List.length_append]
    exact Nat.le_add_right _ _
  refine ⟨?_, ?_⟩
  · refine ref'.modify he hb rfl ?_ ?_ (Nat.sub_le _ _) ?_
    · intro e' he'
      exact ⟨e', List.mem_of_mem_eraseIdx he', rfl⟩
    · rw [List.length_eraseIdx_of_lt hlt]
      omega
    · intro rest rep
      rw [← ek]
      exact (rep.perm (p1.append_right rest)).tail
  · rw [ek] at hm
    subst ek
    simp [he, hm]

end Keys

end JitRedis
