import JitRedis.Rax.Removal

/-!
# Radix trees refine finite maps

The radix tree as a machine that takes one call after the other, next to the finite map that takes the
same calls. They agree as long as no recompression is cut short by the limit on the size of a node.
-/

namespace JitRedis

open Fallible Buckets List RaxNode

variable {V : Type}

inductive RaxOp (V : Type) where
  | insert (key : Bytes) (data : Option V)
  | tryInsert (key : Bytes) (data : Option V)
  | remove (key : Bytes)
  | find (key : Bytes)
  deriving DecidableEq, Repr

inductive RaxReply (V : Type) where
  /-- The return code, and the old value that was stored through `old`. -/
  | code (ok : Bool) (old : Option (Option V))
  | value (v : Option (Option V))
  deriving DecidableEq, Repr

def raxStep (rax : Rax V) : RaxOp V → Except Fault (Rax V × RaxReply V)
  | .insert key data => do
    let (rax, ok, old) ← raxGenericInsert rax key data true
    .ok (rax, .code ok old)
  | .tryInsert key data => do
    let (rax, ok, old) ← raxGenericInsert rax key data false
    .ok (rax, .code ok old)
  | .remove key => do
    let (rax, ok, old) ← raxRemove rax key
    .ok (rax, .code ok old)
  | .find key => .ok (rax, .value (raxFind rax key))

def bytesMapStep (m : Bytes → Option (Option V)) :
    RaxOp V → (Bytes → Option (Option V)) × RaxReply V
  | .insert key data => (Function.update m key (some data), .code (m key).isNone (m key))
  | .tryInsert key data =>
    (if (m key).isNone then Function.update m key (some data) else m, .code (m key).isNone (m key))
  | .remove key => (Function.update m key none, .code (m key).isSome (m key))
  | .find key => (m, .value (m key))

/-- The call is no removal whose recompression is cut short by the limit on the size of a node. -/
def RaxOp.Uncapped (rax : Rax V) : RaxOp V → Prop
  | .remove key => ∀ start ∈ rax.recompressStart key, start.capped = false
  | _ => True

instance (rax : Rax V) : (op : RaxOp V) → Decidable (op.Uncapped rax)
  | .remove _ => inferInstanceAs (Decidable (∀ start ∈ _, _))
  | .insert .. => inferInstanceAs (Decidable True)
  | .tryInsert .. => inferInstanceAs (Decidable True)
  | .find _ => inferInstanceAs (Decidable True)

/-- A tree that stands for the map `m`. -/
structure Rax.Consistent (rax : Rax V) (m : Bytes → Option (Option V)) : Prop where
  /-- Every key is found with its value, and nothing else is. -/
  find : ∀ key, raxFind rax key = m key
  numele : ∃ keys : List Bytes, keys.Nodup ∧ (∀ key, key ∈ keys ↔ m key ≠ none) ∧ rax.numele = keys.length
  numnodes : rax.numnodes = rax.head.count
  /-- Edges are sorted and distinct, a node without children is a key, compressed nodes have between two
  bytes and the maximum; or the tree is empty. -/
  wf : rax.head.Wf ∨ rax.head = raxNewLeaf

variable {rax : Rax V} {m : Bytes → Option (Option V)}

lemma Rax.Holds.consistent (h : rax.Holds m) : rax.Consistent m where
  find := raxFind_eq h
  numele := by
    refine ⟨rax.head.entries.map Prod.fst, h.represents.nodup, fun key => ?_, ?_⟩
    · rw [Option.ne_none_iff_exists', mem_map]
      constructor
      · rintro ⟨e, he, rfl⟩
        exact ⟨e.2, h.represents.get he⟩
      · rintro ⟨v, hv⟩
        obtain ⟨e, he, hk, -⟩ := (h.represents.mem key v).mp hv
        exact ⟨e, he, hk⟩
    · rw [length_map, h.numele]
  numnodes := h.numnodes
  wf := h.wf

lemma raxStep_spec (h : rax.Holds m) {op : RaxOp V} (fits : op.Uncapped rax) :
    Sat NoFault (fun r => r.1.Holds (bytesMapStep m op).1 ∧ r.2 = (bytesMapStep m op).2) (raxStep rax op) := by
  cases op with
  | insert key data =>
    refine (raxGenericInsert_spec h key data true).bind ?_
    rintro ⟨rax', ok, old⟩ hr
    cases hk : m key with
    | none | some v =>
      rw [hk] at hr
      cases hr.2
      exact ⟨hr.1, by simp [bytesMapStep, hk]⟩
  | tryInsert key data =>
    refine (raxGenericInsert_spec h key data false).bind ?_
    rintro ⟨rax', ok, old⟩ hr
    cases hk : m key with
    | none | some v =>
      rw [hk] at hr
      cases hr.2
      simpa [bytesMapStep, hk] using hr.1
  | remove key =>
    refine (raxRemove_spec h key fits).bind ?_
    rintro ⟨rax', ok, old⟩ hr
    cases hk : m key with
    | none =>
      rw [hk] at hr
      cases hr.2
      refine ⟨?_, by simp [bytesMapStep, hk]⟩
      rw [bytesMapStep, ← hk, Function.update_eq_self]
      exact hr.1
    | some v =>
      rw [hk] at hr
      cases hr.2
      exact ⟨hr.1, by simp [bytesMapStep, hk]⟩
  | find key => exact ⟨h, congrArg RaxReply.value (raxFind_eq h key)⟩

lemma holds_raxNew : (raxNew : Rax V).Holds fun _ => none where
  represents := Represents.nil
  wf := .inr rfl
  numele := rfl
  numnodes := rfl

/-- In every run whose removals recompress within the limit, no call faults, all answers are those of the
finite map, and the tree stands for it. -/
theorem rax_refines_map (ops : List (RaxOp V)) (uncapped : Guarded raxStep (fun rax op => op.Uncapped rax) raxNew ops) :
    Sat NoFault
      (fun r => r.2 = (follow bytesMapStep (fun _ => none) ops).2 ∧
        r.1.Consistent (follow bytesMapStep (fun _ => none) ops).1)
      (exec raxStep raxNew ops) := by
  have sim : ∀ rax m op, Rax.Holds rax m → RaxOp.Uncapped rax op →
      Sat NoFault (fun r => r.1.Holds (bytesMapStep m op).1 ∧ r.2 = (bytesMapStep m op).2) (raxStep rax op) :=
    fun _ _ _ h fits => raxStep_spec (V := V) h fits
  refine (exec_simulates sim holds_raxNew uncapped).mono ?_
  rintro ⟨rax, replies⟩ ⟨h, hr⟩
  exact ⟨hr, h.consistent⟩

/-- Keys that split and share compressed nodes, and removals that join them again. -/
def annibale : List (RaxOp Nat) :=
  [.insert [97, 110, 110, 105] (some 1), .insert [97, 110, 103, 111] none, .tryInsert [97, 110] (some 3),
    .insert [] (some 4), .tryInsert [97, 110] (some 5), .remove [97, 110, 103, 111], .find [97, 110, 110, 105],
    .remove [97, 110], .remove [], .find [97]]

theorem rax_refines_map_run :
    Guarded raxStep (fun rax op => op.Uncapped rax) raxNew annibale ∧
      Sat NoFault
        (fun r => r.2 = (follow bytesMapStep (fun _ => none) annibale).2 ∧
          r.1.Consistent (follow bytesMapStep (fun _ => none) annibale).1)
        (exec raxStep raxNew annibale) := by
  have uncapped : Guarded raxStep (fun rax op => op.Uncapped rax) raxNew annibale :=
    guarded_of_check (by decide +kernel)
  exact ⟨uncapped, rax_refines_map annibale uncapped⟩

section Capped

-- A chain of nodes that is two bytes too long for one node. Its bytes stay a variable, of which only the
-- length is known, so that nothing evaluates them.

variable {a : Bytes}

def keyLeaf : RaxNode Nat := .branch (some none) []

lemma insert_long (ha : a.length + 2 = raxNodeMaxSize) :
    raxStep raxNew (.insert (120 :: 121 :: (a ++ [97, 97])) none) =
      .ok (⟨.compr none (120 :: 121 :: a) (.compr none [97, 97] keyLeaf), 1, 3⟩, .code true none) := by
  have hfull : min (a.length + 2 + 1 + 1) raxNodeMaxSize = a.length + 2 := by omega
  have htwo : min 2 raxNodeMaxSize = 2 := by omega
  simp [raxStep, raxGenericInsert, raxLowWalk, raxNew, lowWalkLoop, raxNewLeaf, size, RaxWalk.Exact,
    insertBelow, splitStop, insertLoop, key, hfull, htwo, plug, RaxFrame.plug, raxSetData,
    setKey, keyLeaf]

lemma insert_short (ha : a.length + 2 = raxNodeMaxSize) :
    raxStep ⟨.compr none (120 :: 121 :: a) (.compr none [97, 97] keyLeaf), 1, 3⟩ (.insert [120, 122] none) =
      .ok (⟨.branch none [(120, .branch none [(121, .compr none a (.compr none [97, 97] keyLeaf)),
        (122, keyLeaf)])], 2, 6⟩, .code true none) := by
  have hmax : raxNodeMaxSize = 2 ^ 29 - 1 := rfl
  have hne : a ≠ [] := by
    rintro rfl
    simp [hmax] at ha
  have hof : ofBytes none a (.compr none [97, 97] keyLeaf) =
      .compr none a (.compr none [97, 97] keyLeaf) := by
    unfold ofBytes
    split
    · simp [hmax] at ha
    · rfl
  simp [raxStep, raxGenericInsert, raxLowWalk, lowWalkLoop, raxNewLeaf, size, RaxWalk.Exact, insertBelow,
    splitStop, splitMismatch, insertLoop, key, iscompr, matchLen, plug, RaxFrame.plug, raxSetData,
    setKey, hne, hof, RaxFrame.ofBytes, edgePlace, span_eq_takeWhile_dropWhile]
  rfl

lemma remove_short (ha : a.length + 2 = raxNodeMaxSize) :
    raxStep ⟨.branch none [(120, .branch none [(121, .compr none a (.compr none [97, 97] keyLeaf)),
        (122, keyLeaf)])], 2, 6⟩ (.remove [120, 122]) =
      .ok (⟨.compr none (120 :: 121 :: a) keyLeaf, 1, 2⟩, .code true (some none)) := by
  have hcount : chainCount (.branch none [(121, .compr none a (.compr none [97, 97] keyLeaf))]) 1 1 =
      (a.length + 2, 3, true) := by
    rw [chainCount, if_neg (by omega), chainCount, if_neg (by omega), chainCount, if_pos (by simp; omega),
      Nat.add_comm a.length]
  have hcopy : chainCopy (.branch none [(120, .branch none [(121, .compr none a
      (.compr none [97, 97] keyLeaf))])]) = (120 :: 121 :: (a ++ [97, 97]), keyLeaf, 4) := by
    simp [chainCopy, keyLeaf]
  have hchain : recompressChain (.branch none [(120, .branch none [(121, .compr none a
      (.compr none [97, 97] keyLeaf))])]) = .ok (.compr none (120 :: 121 :: a) keyLeaf, 1, 4) := by
    rw [recompressChain, link]
    simp only [length_cons, length_nil, Nat.zero_add, hcount, hcopy, length_append]
    rw [if_pos (by omega), if_neg (by omega)]
    simp
  rw [keyLeaf] at hchain
  simp [raxStep, raxRemove, raxLowWalk, lowWalkLoop, size, RaxWalk.Exact, findEdge, keyLeaf, key,
    iscompr, unlinkNode, cleanupLoop, RaxFrame.isLink, raxRemoveChild, seekStart, setKey,
    hchain, RaxFrame.plug, plug]

lemma find_long (a : Bytes) :
    raxStep ⟨.compr none (120 :: 121 :: a) keyLeaf, 1, 2⟩ (.find (120 :: 121 :: (a ++ [97, 97]))) =
      .ok (⟨.compr none (120 :: 121 :: a) keyLeaf, 1, 2⟩, .value none) := by
  have hmatch : ∀ v r : Bytes, matchLen v (v ++ r) = v.length := by
    intro v r
    induction v with
    | nil => cases r <;> rfl
    | cons c v ih =>
      rw [cons_append, matchLen, if_pos rfl, ih]
      rfl
  simp [raxStep, raxFind, raxLowWalk, lowWalkLoop, size, RaxWalk.Exact, keyLeaf, matchLen, hmatch]

/-- Two keys are inserted, one is removed and the other is looked up. -/
def cappedRun (a : Bytes) : List (RaxOp Nat) :=
  [.insert (120 :: 121 :: (a ++ [97, 97])) none, .insert [120, 122] none, .remove [120, 122],
    .find (120 :: 121 :: (a ++ [97, 97]))]

lemma exec_cappedRun (ha : a.length + 2 = raxNodeMaxSize) :
    (exec raxStep (raxNew : Rax Nat) (cappedRun a)).map (fun r => r.2.getLast?) = .ok (some (.value none)) := by
  simp only [cappedRun, exec, insert_long ha, insert_short ha, remove_short ha, find_long]
  rfl

lemma follow_cappedRun (a : Bytes) :
    (follow bytesMapStep (fun _ => none) (cappedRun a)).2.getLast? = some (.value (some none)) := by
  have hne : 120 :: 121 :: (a ++ [97, 97]) ≠ [120, 122] := by simp
  simp [cappedRun, follow, bytesMapStep, hne]

/-- The tree does not find the key that the map has. -/
theorem raxRemove_capped_loses_key :
    (exec raxStep (raxNew : Rax Nat) (cappedRun (List.replicate (raxNodeMaxSize - 2) 97))).map
        (fun r => r.2.getLast?) = .ok (some (.value none)) ∧
      (follow bytesMapStep (fun _ => none) (cappedRun (List.replicate (raxNodeMaxSize - 2) 97))).2.getLast? =
        some (.value (some none)) := by
  have hlen : (List.replicate (raxNodeMaxSize - 2) (97 : UInt8)).length + 2 = raxNodeMaxSize := by
    rw [length_replicate]
    exact Nat.sub_add_cancel (by decide)
  exact ⟨exec_cappedRun hlen, follow_cappedRun _⟩

end Capped

end JitRedis
