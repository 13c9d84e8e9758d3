import JitRedis.Dict.Operations

/-!
# The dict refines a finite map

The dict as a machine that takes one call of its interface after the other, next to the finite map
that takes the same calls. Every run of the machine answers like the map, whatever rehashing,
expanding and iterating happens in between.
-/

namespace JitRedis

open Fallible Buckets List Dict

variable {K V : Type} {hash : K → BitVec 64}

/-- The state of the machine: a dict and the global `dict_can_resize`. -/
structure DictState (K V : Type) where
  canResize : Bool
  dict : Dict K V
  deriving DecidableEq, Repr

inductive DictOp (K V : Type) where
  | addRaw (key : K)
  | add (key : K) (val : V)
  | replace (key : K) (val : V)
  | find (key : K)
  | delete (key : K)
  | unlink (key : K)
  | expand (size : Nat)
  | resize
  | rehash (n : Int)
  | iteratorOpen
  | iteratorClose
  | setCanResize (on : Bool)
  deriving DecidableEq, Repr

/-- What a call answers in terms of the map; flags that tell about the tables only are left out. -/
inductive DictReply (K V : Type) where
  | done
  | flag (ok : Bool)
  | entry (e : Option (DictEntry K V))
  /-- `dictAddRaw`: whether it returned `NULL`, and the new or the existing entry. -/
  | raw (null : Bool) (e : Option (DictEntry K V))
  deriving DecidableEq, Repr

/-- A finite map as the dict stands for it; the value of a key is `none` until it is set. -/
abbrev DictMap (K V : Type) := K → Option (Option V)

section Keys

variable [DecidableEq K]

def dictStep (hash : K → BitVec 64) (s : DictState K V) :
    DictOp K V → Except Fault (DictState K V × DictReply K V)
  | .addRaw key => do
    match ← dictAddRaw s.canResize hash s.dict key with
    | (d, .ok r) => .ok ({ s with dict := d }, .raw false (d.deref r))
    | (d, .error r) => .ok ({ s with dict := d }, .raw true (r.bind d.deref))
  | .add key val => do
    let (d, ok) ← dictAdd s.canResize hash s.dict key val
    .ok ({ s with dict := d }, .flag ok)
  | .replace key val => do
    let (d, new) ← dictReplace s.canResize hash s.dict key val
    .ok ({ s with dict := d }, .flag new)
  | .find key => do
    let (d, r) ← dictFind hash s.dict key
    .ok ({ s with dict := d }, .entry (r.bind d.deref))
  | .delete key => do
    let (d, ok) ← dictDelete hash s.dict key
    .ok ({ s with dict := d }, .flag ok)
  | .unlink key => do
    let (d, e) ← dictUnlink hash s.dict key
    .ok ({ s with dict := d }, .entry e)
  | .expand size => do
    let (d, _) ← dictExpand s.dict size
    .ok ({ s with dict := d }, .done)
  | .resize => do
    let (d, _) ← dictResize s.canResize s.dict
    .ok ({ s with dict := d }, .done)
  | .rehash n => do
    let (d, _) ← dictRehash hash s.dict n
    .ok ({ s with dict := d }, .done)
  | .iteratorOpen => .ok ({ s with dict := safeIteratorOpen s.dict }, .done)
  | .iteratorClose => .ok ({ s with dict := safeIteratorClose s.dict }, .done)
  | .setCanResize on => .ok ({ s with canResize := on }, .done)

def mapStep (m : DictMap K V) : DictOp K V → DictMap K V × DictReply K V
  | .addRaw key =>
    match m key with
    | none => (Function.update m key (some none), .raw false (some { key, val := none }))
    | some val => (m, .raw true (some { key, val }))
  | .add key val =>
    if (m key).isNone then (Function.update m key (some (some val)), .flag true) else (m, .flag false)
  | .replace key val => (Function.update m key (some (some val)), .flag (m key).isNone)
  | .find key => (m, .entry ((m key).map fun val => { key, val }))
  | .delete key => (Function.update m key none, .flag (m key).isSome)
  | .unlink key => (Function.update m key none, .entry ((m key).map fun val => { key, val }))
  | _ => (m, .done)

end Keys

/-- The call is no `dictExpand` whose byte count wraps. -/
def DictOp.NoWrap (s : DictState K V) : DictOp K V → Prop
  | .expand size => ¬ s.dict.ExpandWraps size
  | _ => True

/-- The layout of a dict that stands for the map `m`. -/
structure Dict.Consistent (hash : K → BitVec 64) (d : Dict K V) (m : DictMap K V) : Prop where
  /-- Every key of the map is stored with its value, at one place only, in the bucket of its hash. -/
  stored : ∀ k v, m k = some v → ∃ r, d.deref r = some { key := k, val := v } ∧
    r.idx = (hash k).toNat &&& (d.ht r.second).sizemask ∧
    ∀ r' e, d.deref r' = some e → e.key = k → r' = r
  only : ∀ r e, d.deref r = some e → m e.key = some e.val
  used : ∀ second, (d.ht second).used = ((d.ht second).table.map List.length).sum
  /-- While rehashing, the index is a bucket of `ht[0]` or its size, and the buckets below are
  empty. -/
  moved : d.isRehashing → 0 ≤ d.rehashidx ∧ d.rehashidx ≤ d.ht0.size ∧
    ∀ i : Nat, (i : Int) < d.rehashidx → d.ht0.table[i]? = some []

lemma Dict.Refines.deref_unique {d : Dict K V} {m} (ref : d.Refines hash m)
    {r r' : DictEntryRef} {e e' : DictEntry K V} (h : d.deref r = some e) (h' : d.deref r' = some e')
    (ek : e.key = e'.key) : r = r' := by
  obtain ⟨b, hb, he⟩ := deref_eq_some.mp h
  obtain ⟨b', hb', he'⟩ := deref_eq_some.mp h'
  have nd := ref.rep.nodup
  rw [entries, Dictht.entries, Dictht.entries, ← flatten_append] at nd
  -- Both tables in one list: a bucket of `ht[1]` comes after all those of `ht[0]`.
  have pos : ∀ (r : DictEntryRef) b, (d.ht r.second).table[r.idx]? = some b →
      (d.ht0.table ++ d.ht1.table)[(if r.second then d.ht0.table.length else 0) + r.idx]? =
        some b := by
    rintro ⟨_ | _, i, p⟩ b hb
    · have hb0 : d.ht0.table[i]? = some b := hb
      have hlt := (List.getElem?_eq_some_iff.mp hb0).1
      simp [getElem?_append_left hlt, hb0]
    · have hb1 : d.ht1.table[i]? = some b := hb
      simp [getElem?_append_right, hb1]
  have low : ∀ (r : DictEntryRef) b, (d.ht r.second).table[r.idx]? = some b →
      r.second = false → r.idx < d.ht0.table.length := by
    rintro ⟨_ | _, i, p⟩ b hb hs
    · exact (List.getElem?_eq_some_iff.mp hb).1
    · cases hs
  obtain ⟨e1, e2⟩ := position_unique nd (pos r b hb) he (pos r' b' hb') he' ek
  have l1 := low r b hb
  have l2 := low r' b' hb'
  obtain ⟨s, i, p⟩ := r
  obtain ⟨s', i', p'⟩ := r'
  cases s <;> cases s' <;> simp at e1 e2 l1 l2 ⊢ <;> omega

lemma Dict.exists_deref {d : Dict K V} {e : DictEntry K V} (h : e ∈ d.entries) :
    ∃ r, d.deref r = some e := by
  rcases mem_append.mp h with h | h
  · obtain ⟨i, b, hb, he⟩ := mem_flatten h
    obtain ⟨p, hp⟩ := mem_iff_getElem?.mp he
    exact ⟨⟨false, i, p⟩, deref_eq_some.mpr ⟨b, hb, hp⟩⟩
  · obtain ⟨i, b, hb, he⟩ := mem_flatten h
    obtain ⟨p, hp⟩ := mem_iff_getElem?.mp he
    exact ⟨⟨true, i, p⟩, deref_eq_some.mpr ⟨b, hb, hp⟩⟩

lemma Dict.Refines.consistent {d : Dict K V} {m : DictMap K V} (ref : d.Refines hash m) :
    d.Consistent hash m where
  stored k v h := by
    obtain ⟨e, he, ek, ev⟩ := (ref.rep.mem k v).mp h
    obtain ⟨r, hr⟩ := exists_deref he
    subst ek ev
    refine ⟨r, hr, ?_, fun r' e' hr' ek => ref.deref_unique hr' hr ek⟩
    obtain ⟨b, hb, hp⟩ := deref_eq_some.mp hr
    exact ((ref.ht r.second).placed _ b hb e (mem_of_getElem? hp)).symm
  only r e h := ref.rep.get (mem_of_deref h)
  used second := by
    rw [(ref.ht second).used, Dictht.entries, length_flatten]
  moved reh := ⟨(ref.range reh).1, (ref.range reh).2, ref.moved reh⟩

lemma Dict.Refines.create : (dictCreate : Dict K V).Refines hash fun _ => none where
  ht0 := .reset
  ht1 := .reset
  rep := .nil
  idle _ := rfl
  range h := absurd rfl h
  live h := absurd rfl h
  moved h := absurd rfl h
  room := by norm_num [dictSize, dictCreate, dictReset, addressSpace]

lemma Dict.Refines.setIterators {d : Dict K V} {m} (ref : d.Refines hash m) (n : Nat) :
    ({ d with iterators := n } : Dict K V).Refines hash m :=
  ⟨ref.ht0, ref.ht1, ref.rep, ref.idle, ref.range, ref.live, ref.moved, ref.room⟩

section Keys

variable [DecidableEq K]

lemma dictStep_simulates {s : DictState K V} {m : DictMap K V} {op : DictOp K V}
    (ref : s.dict.Refines hash m) (nw : op.NoWrap s) :
    Sat OnlyOom (fun p => p.1.dict.Refines hash (mapStep m op).1 ∧ p.2 = (mapStep m op).2)
      (dictStep hash s op) := by
  cases op with
  | addRaw k =>
    refine (dictAddRaw_spec ref k).bind ?_
    rintro ⟨d, r | r⟩ h
    · obtain ⟨ref', r', e, rfl, he, ek⟩ := h
      have hm := ref'.rep.get (mem_of_deref he)
      subst ek
      simp [mapStep, hm, ref', he]
    · obtain ⟨hm, ref', he⟩ := h
      simp [mapStep, hm, ref', he]
  | add k v =>
    refine (dictAdd_spec ref k v).bind ?_
    rintro ⟨d, ok⟩ ⟨hok, ref'⟩
    simp only at hok ref'
    rw [sat_ok, mapStep, hok]
    cases hm : (m k).isNone with
    | true => simpa [hm] using ref'
    | false => simpa [hm] using ref'
  | replace k v =>
    refine (dictReplace_spec ref k v).bind ?_
    rintro ⟨d, new⟩ ⟨hnew, ref'⟩
    exact ⟨ref', congrArg _ hnew⟩
  | find k =>
    refine (dictFind_spec ref k).total.bind ?_
    rintro ⟨d, r⟩ ⟨ref', he⟩
    exact ⟨ref', congrArg _ he⟩
  | delete k =>
    refine Sat.bind ((dictGenericDelete_spec ref k).total.bind ?_) fun _ h => h
    rintro ⟨d, e⟩ ⟨ref', he⟩
    simp only at he
    exact ⟨ref', by rw [he]; simp [mapStep]⟩
  | unlink k =>
    refine (dictGenericDelete_spec ref k).total.bind ?_
    rintro ⟨d, e⟩ ⟨ref', he⟩
    exact ⟨ref', congrArg _ he⟩
  | expand size =>
    refine (dictExpand_spec ref nw).bind ?_
    rintro ⟨d, _⟩ ⟨ref', -⟩
    exact ⟨ref', rfl⟩
  | resize =>
    refine (dictResize_spec ref).bind ?_
    rintro ⟨d, _⟩ ref'
    exact ⟨ref', rfl⟩
  | rehash n =>
    refine (dictRehash_spec ref).total.bind ?_
    rintro ⟨d, _⟩ ⟨ref', -⟩
    exact ⟨ref', rfl⟩
  | iteratorOpen => exact ⟨ref.setIterators _, rfl⟩
  | iteratorClose => exact ⟨ref.setIterators _, rfl⟩
  | setCanResize on => exact ⟨ref, rfl⟩

/-- The run of any sequence of calls from an empty dict, none of which is a `dictExpand` whose byte
count wraps, answers like the finite map and leaves a consistent dict. Only the allocator can stop
it; no assertion fails and no access leaves its table. -/
theorem dict_refines_map (hash : K → BitVec 64) (canResize : Bool) (ops : List (DictOp K V))
    (nw : Guarded (dictStep hash) DictOp.NoWrap ⟨canResize, dictCreate⟩ ops) :
    Sat OnlyOom
      (fun p => p.2 = (follow mapStep (fun _ => none) ops).2 ∧
        p.1.dict.Consistent hash (follow mapStep (fun _ => none) ops).1)
      (exec (dictStep hash) ⟨canResize, dictCreate⟩ ops) := by
  have run := exec_simulates (R := fun s m => s.dict.Refines hash m)
    (fun _ _ _ => dictStep_simulates) Dict.Refines.create nw
  refine run.mono ?_
  rintro ⟨s, rs⟩ ⟨ref, hr⟩
  exact ⟨hr, ref.consistent⟩

/-- A run that expands, adds, starts a rehash, finds and deletes. -/
theorem dict_refines_map_run :
    Sat OnlyOom
      (fun p => p.2 = (follow mapStep (fun _ => none) ([.expand 1, .add 1 10, .add 5 50, .expand 8,
          .find 5, .delete 1] : List (DictOp Nat Nat))).2 ∧
        p.1.dict.Consistent (fun k => BitVec.ofNat 64 k)
          (follow mapStep (fun _ => none) ([.expand 1, .add 1 10, .add 5 50, .expand 8,
            .find 5, .delete 1] : List (DictOp Nat Nat))).1)
      (exec (dictStep fun k => BitVec.ofNat 64 k) ⟨true, dictCreate⟩
        [.expand 1, .add 1 10, .add 5 50, .expand 8, .find 5, .delete 1]) := by
  refine dict_refines_map _ _ _ (guarded_of_forall fun op hop s => ?_)
  have small : ∀ size, op = .expand size → size ≤ 2 ^ 60 := by
    rintro size rfl
    simp only [mem_cons, DictOp.expand.injEq, reduceCtorEq, not_mem_nil, or_false,
      false_or] at hop
    omega
  cases op with
  | expand size => exact Dict.not_expandWraps (small size rfl)
  | _ => trivial

/-- A `dictExpand` to `2 ^ 61` buckets allocates no byte, and the next `dictAdd` reads outside. -/
theorem dictExpand_wraps_then_add_faults :
    exec (dictStep fun _ : Unit => 0#64) ⟨true, dictCreate⟩ [.expand (2 ^ 61), .add () ()] =
      .error .badAccess := by
  rfl

end Keys

end JitRedis
