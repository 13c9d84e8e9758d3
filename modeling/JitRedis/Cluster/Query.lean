import JitRedis.Base

/-!
# Where a cluster node sends a query

`getNodeByQuery` goes through the keys of a command, or of all commands of a transaction, and decides whether the node
serves them itself. A slot can be set to migrate to the node itself: a query for a key that is not there is then
redirected to the node, which takes it as its own.
-/

namespace JitRedis.Cluster.Query

open List

/-- The functions of commands that matter for redirections. -/
inductive Proc
  | exec
  | migrate
  | eval
  | evalSha
  | other
  deriving DecidableEq

structure RedisCommand where
  proc : Proc
  asking : Bool
  readonly : Bool

/-- A command with its arguments and the positions that `getKeysFromCommand` finds in them. -/
structure MultiCmd where
  cmd : RedisCommand
  argv : List Bytes
  keyindex : List (Fin argv.length)

structure Client where
  multi : Bool
  asking : Bool
  readonly : Bool
  mstate : List MultiCmd

/-- The `CLUSTER_REDIR` codes. -/
inductive Redir
  | none
  | crossSlot
  | unstable
  | ask
  | moved
  | downState
  | downUnbound

/-- What is read of the server: the cluster, with `nodeIsSlave` and `slaveof` of `myself`, and the keys of database 0. -/
structure Server (Node : Type) where
  myself : Node
  isSlave : Bool
  slaveof : Option Node
  ok : Bool
  slots : Nat → Option Node
  migratingSlotsTo : Nat → Option Node
  importingSlotsFrom : Nat → Option Node
  noRedirection : Bool
  lookupKeyRead : Bytes → Bool
  crc16 : Bytes → UInt16

/-- The node that is returned, and what is stored in `hashslot` and `error_code`, if anything. -/
structure Answer (Node : Type) where
  node : Option Node
  hashslot : Option Nat
  errorCode : Option Redir

structure Scan (Node : Type) where
  firstkey : Option Bytes
  n : Option Node
  slot : Nat
  migratingSlot : Bool
  importingSlot : Bool
  multipleKeys : Bool
  missingKeys : Nat

variable {Node : Type} [DecidableEq Node]

def keyHashSlot (sv : Server Node) (key : Bytes) : Nat :=
  let s := key.findIdx (· == 123)
  if s = key.length then (sv.crc16 key &&& 0x3FFF).toNat
  else
    let e := s + 1 + (key.drop (s + 1)).findIdx (· == 125)
    if e = key.length ∨ e = s + 1 then (sv.crc16 key &&& 0x3FFF).toNat
    else (sv.crc16 ((key.drop (s + 1)).take (e - s - 1)) &&& 0x3FFF).toNat

/-- The slot is one of the node's own that it is moving away. -/
def migrates (sv : Server Node) (n : Node) (slot : Nat) : Bool := n = sv.myself ∧ (sv.migratingSlotsTo slot).isSome

/-- The first part of a turn of the loop: the slot of the key. -/
def visit (sv : Server Node) (st : Scan Node) (thiskey : Bytes) : Except Redir (Scan Node) :=
  let thisslot := keyHashSlot sv thiskey
  match st.firstkey with
  | none =>
    match sv.slots thisslot with
    | none => .error .downUnbound
    | some n =>
      .ok { st with
        firstkey := some thiskey
        n := some n
        slot := thisslot
        migratingSlot := migrates sv n thisslot
        importingSlot := !migrates sv n thisslot && (sv.importingSlotsFrom thisslot).isSome }
  | some firstkey =>
    if firstkey = thiskey then .ok st
    else if st.slot ≠ thisslot then .error .crossSlot
    else .ok { st with multipleKeys := true }

/-- A turn of the loop over the keys. -/
def turn (sv : Server Node) (st : Scan Node) (thiskey : Bytes) : Except Redir (Scan Node) := do
  let st ← visit sv st thiskey
  if (st.migratingSlot || st.importingSlot) && !sv.lookupKeyRead thiskey then
    .ok { st with missingKeys := st.missingKeys + 1 }
  else
    .ok st

def MultiCmd.keys (mc : MultiCmd) : List Bytes := mc.keyindex.map mc.argv.get

/-- What follows the loop if there was a key, in a slot of `n`. -/
def redirect (sv : Server Node) (c : Client) (cmd : RedisCommand) (st : Scan Node) (n : Node) : Answer Node :=
  if ¬sv.ok then ⟨none, none, some .downState⟩
  else if (st.migratingSlot ∨ st.importingSlot) ∧ cmd.proc = .migrate then ⟨some sv.myself, some st.slot, some .none⟩
  else if st.migratingSlot ∧ st.missingKeys ≠ 0 then ⟨sv.migratingSlotsTo st.slot, some st.slot, some .ask⟩
  else if st.importingSlot ∧ (c.asking ∨ cmd.asking) then
    if st.multipleKeys ∧ st.missingKeys ≠ 0 then ⟨none, some st.slot, some .unstable⟩
    else ⟨some sv.myself, some st.slot, some .none⟩
  else if c.readonly ∧ (cmd.readonly ∨ cmd.proc = .eval ∨ cmd.proc = .evalSha) ∧ sv.isSlave ∧ sv.slaveof = some n then
    ⟨some sv.myself, some st.slot, some .none⟩
  else if n ≠ sv.myself then ⟨some n, some st.slot, some .moved⟩
  else ⟨some n, some st.slot, some .none⟩

/-- The commands whose keys are looked at: none for an `EXEC` without `MULTI`. -/
def commandsOf (c : Client) (q : MultiCmd) : List MultiCmd :=
  if q.cmd.proc = .exec then if c.multi then c.mstate else [] else [q]

def getNodeByQuery (sv : Server Node) (c : Client) (q : MultiCmd) : Answer Node :=
  if sv.noRedirection then ⟨some sv.myself, none, none⟩
  else
    match (commandsOf c q).foldlM (fun st mc => mc.keys.foldlM (turn sv) st) ⟨none, none, 0, false, false, false, 0⟩ with
    | .error e => ⟨none, none, some e⟩
    | .ok st =>
      match st.n with
      | none => ⟨some sv.myself, none, some .none⟩
      | some n => redirect sv c q.cmd st n

def keysOf (c : Client) (q : MultiCmd) : List Bytes := (commandsOf c q).flatMap MultiCmd.keys

section

variable (sv : Server Node) (c : Client) (cmd : RedisCommand) (keys : List Bytes) (s : Nat)

def Together (owner : Node) : Prop := (∀ k ∈ keys, keyHashSlot sv k = s) ∧ sv.slots s = some owner

def AllEqual : Prop := ∀ k ∈ keys, ∀ k' ∈ keys, k = k'

def AllPresent : Prop := ∀ k ∈ keys, sv.lookupKeyRead k

/-- The query may read from a replica of the owner. -/
def ReadsReplica (owner : Node) : Prop :=
  c.readonly ∧ (cmd.readonly ∨ cmd.proc = .eval ∨ cmd.proc = .evalSha) ∧ sv.isSlave ∧ sv.slaveof = some owner

/-- The node may serve the keys, which are all in a slot of the owner. -/
def Serves (owner : Node) : Prop :=
  owner = sv.myself ∧ (cmd.proc = .migrate ∨ sv.migratingSlotsTo s = none ∨ AllPresent sv keys) ∨
    (sv.importingSlotsFrom s).isSome ∧
      (cmd.proc = .migrate ∨ (c.asking ∨ cmd.asking) ∧ (AllEqual keys ∨ AllPresent sv keys)) ∨
    ReadsReplica sv c cmd owner

/-- The node serves the query only if it may, and reports keys of different slots exactly where there are any. -/
def Routed (r : Answer Node) : Prop :=
  (r.node = some sv.myself → sv.ok ∧ ∃ s owner, Together sv keys s owner ∧ Serves sv c cmd keys s owner) ∧
    (r.errorCode = some .crossSlot ↔ ∃ k₀ ∈ keys.head?, (sv.slots (keyHashSlot sv k₀)).isSome ∧
      ∃ k ∈ keys, keyHashSlot sv k ≠ keyHashSlot sv k₀)

/-- A slot migrates to the node itself, a key is not there, and nothing else lets the node serve the keys. -/
def MigratesToItself : Prop :=
  cmd.proc ≠ .migrate ∧ sv.migratingSlotsTo s = some sv.myself ∧ ¬AllPresent sv keys ∧
    ¬ReadsReplica sv c cmd sv.myself ∧
    ¬((sv.importingSlotsFrom s).isSome ∧ (c.asking ∨ cmd.asking) ∧ AllEqual keys)

end

variable {sv : Server Node} {c : Client} {q : MultiCmd} {cmd : RedisCommand} {st : Scan Node} {k : Bytes}
  {keys : List Bytes} {n : Node} {mig imp multiple : Bool} {missing : Nat}

/-- What the variables say of the keys when the loop has ended and all keys are in the slot, which `n` owns. -/
structure Scanned (sv : Server Node) (keys : List Bytes) (n : Node) (st : Scan Node) : Prop where
  migrating : st.migratingSlot ↔ n = sv.myself ∧ (sv.migratingSlotsTo st.slot).isSome
  importing : st.importingSlot → (sv.importingSlotsFrom st.slot).isSome
  multiple : st.multipleKeys ↔ ¬AllEqual keys
  missing : st.migratingSlot ∨ st.importingSlot → (st.missingKeys = 0 ↔ AllPresent sv keys)

lemma turn_eq {k' : Bytes} : turn sv ⟨some k, some n, keyHashSlot sv k, mig, imp, multiple, missing⟩ k' =
    if keyHashSlot sv k' = keyHashSlot sv k then
      .ok ⟨some k, some n, keyHashSlot sv k, mig, imp, multiple || k' ≠ k,
        missing + if (mig || imp) && !sv.lookupKeyRead k' then 1 else 0⟩
    else .error .crossSlot := by
  rw [turn, visit]
  by_cases heq : k = k'
  · subst heq
    simp only [if_true, ne_eq, not_true, decide_false, Bool.or_false]
    show (if _ then _ else _) = _
    split_ifs <;> rfl
  by_cases hs : keyHashSlot sv k' = keyHashSlot sv k
  · simp only [if_neg heq, hs, ne_eq, not_true, if_false, if_true, Ne.symm heq, not_false_eq_true, decide_true, Bool.or_true]
    show (if _ then _ else _) = _
    split_ifs <;> rfl
  · simp only [if_neg heq, if_neg hs, if_pos (Ne.symm hs)]
    rfl

/-- The loop behind the first key. -/
lemma foldlM_turn : keys.foldlM (turn sv) ⟨some k, some n, keyHashSlot sv k, mig, imp, multiple, missing⟩ =
    if ∀ k' ∈ keys, keyHashSlot sv k' = keyHashSlot sv k then
      .ok ⟨some k, some n, keyHashSlot sv k, mig, imp, multiple || keys.any (· ≠ k),
        missing + if mig || imp then keys.countP (!sv.lookupKeyRead ·) else 0⟩
    else .error .crossSlot := by
  induction keys generalizing multiple missing with
  | nil =>
    simp
    rfl
  | cons k' keys ih =>
    rw [foldlM_cons, turn_eq]
    by_cases hs : keyHashSlot sv k' = keyHashSlot sv k
    · rw [if_pos hs]
      refine ih.trans ?_
      rw [countP_cons, Bool.or_assoc]
      cases mig || imp <;> simp [hs, Nat.add_assoc, Nat.add_comm]
    · rw [if_neg hs, if_neg fun h => hs (h k' (mem_cons_self ..))]
      rfl

lemma foldlM_commands (cmds : List MultiCmd) (st : Scan Node) :
    cmds.foldlM (fun st mc => mc.keys.foldlM (turn sv) st) st = (cmds.flatMap MultiCmd.keys).foldlM (turn sv) st := by
  induction cmds generalizing st with
  | nil => rfl
  | cons mc cmds ih => simp only [foldlM_cons, flatMap_cons, foldlM_append, ih]

lemma any_ne_iff (hk : k ∈ keys) : keys.any (· ≠ k) ↔ ¬AllEqual keys := by
  rw [← not_iff_not, any_eq_true]
  simp only [not_exists, not_and, decide_eq_true_eq, not_not]
  exact ⟨fun h a ha b hb => (h a ha).trans (h b hb).symm, fun h a ha => h a ha k hk⟩

lemma foldlM_keys (keys : List Bytes) (hn : sv.slots (keyHashSlot sv k) = some n) :
    ∃ st, (k :: keys).foldlM (turn sv) ⟨none, none, 0, false, false, false, 0⟩ =
        (if ∀ k' ∈ k :: keys, keyHashSlot sv k' = keyHashSlot sv k then .ok st else .error .crossSlot) ∧
      st.n = some n ∧ st.slot = keyHashSlot sv k ∧ Scanned sv (k :: keys) n st := by
  have first : turn sv ⟨none, none, 0, false, false, false, 0⟩ k = turn sv
      ⟨some k, some n, keyHashSlot sv k, migrates sv n (keyHashSlot sv k),
        !migrates sv n (keyHashSlot sv k) && (sv.importingSlotsFrom (keyHashSlot sv k)).isSome, false, 0⟩ k := by
    simp only [turn, visit, hn, if_true]
  rw [foldlM_cons, first, ← foldlM_cons, foldlM_turn]
  refine ⟨_, rfl, rfl, rfl, by simp [migrates], by simp, any_ne_iff (mem_cons_self ..), fun h => ?_⟩
  rw [if_pos (by simpa using h)]
  simp [AllPresent]

lemma redirect_errorCode : (redirect sv c cmd st n).errorCode ≠ some .crossSlot := by
  rw [redirect]
  split_ifs <;> simp

lemma redirect_iff (h : Scanned sv keys n st) :
    ((redirect sv c cmd st n).node = some sv.myself → sv.ok ∧ Serves sv c cmd keys st.slot n) ↔
      ¬(sv.ok ∧ n = sv.myself ∧ MigratesToItself sv c cmd keys st.slot) := by
  rw [redirect]
  by_cases hok : sv.ok
  swap
  · simp [hok]
  rw [if_neg (not_not.mpr hok)]
  by_cases hmigrate : (st.migratingSlot ∨ st.importingSlot) ∧ cmd.proc = .migrate
  · refine iff_of_true (fun _ => ⟨hok, ?_⟩) fun hself => hself.2.2.1 hmigrate.2
    rcases hmigrate with ⟨hmig | himp, hproc⟩
    · exact .inl ⟨(h.migrating.mp hmig).1, .inl hproc⟩
    · exact .inr (.inl ⟨h.importing himp, .inl hproc⟩)
  rw [if_neg hmigrate]
  by_cases hmissing : st.migratingSlot ∧ st.missingKeys ≠ 0
  · rw [if_pos hmissing]
    obtain ⟨hmig, hmiss⟩ := hmissing
    obtain ⟨rfl, -⟩ := h.migrating.mp hmig
    rw [Ne, h.missing (.inl hmig)] at hmiss
    have hproc : cmd.proc ≠ .migrate := fun hproc => hmigrate ⟨.inl hmig, hproc⟩
    constructor
    · rintro hserves ⟨-, -, -, hto, -, hreads, hasks⟩
      rcases (hserves hto).2 with ⟨-, hp | hstays | hall⟩ | ⟨hfrom, hp | ⟨hask, heq | hall⟩⟩ | hr
      · exact hproc hp
      · cases hto.symm.trans hstays
      · exact hmiss hall
      · exact hproc hp
      · exact hasks ⟨hfrom, hask, heq⟩
      · exact hmiss hall
      · exact hreads hr
    · intro hself hto
      by_contra hserves
      refine hself ⟨hok, rfl, hproc, hto, hmiss, fun hr => hserves ⟨hok, .inr (.inr hr)⟩, ?_⟩
      rintro ⟨hfrom, hask, heq⟩
      exact hserves ⟨hok, .inr (.inl ⟨hfrom, .inr ⟨hask, .inl heq⟩⟩)⟩
  refine iff_of_true (fun hnode => ⟨hok, ?_⟩) ?_
  · split_ifs at hnode with hask hunstable hreads hne
    · refine .inr (.inl ⟨h.importing hask.1, .inr ⟨hask.2, ?_⟩⟩)
      rw [h.multiple, Ne, h.missing (.inr hask.1), ← not_or, not_not] at hunstable
      exact hunstable
    · exact .inr (.inr hreads)
    · exact absurd (Option.some.inj hnode) hne
    · refine .inl ⟨not_not.mp hne, .inr ?_⟩
      by_cases hmig : st.migratingSlot
      · rw [Ne, h.missing (.inl hmig), and_iff_right hmig, not_not] at hmissing
        exact .inr hmissing
      · rw [h.migrating, and_iff_right (not_not.mp hne), Option.not_isSome_iff_eq_none] at hmig
        exact .inl hmig
  · rintro ⟨-, hn, -, hto, hkeys, -⟩
    have hmig := h.migrating.mpr ⟨hn, by rw [hto]; rfl⟩
    exact hmissing ⟨hmig, mt (h.missing (.inl hmig)).mp hkeys⟩

/-- The node answers queries as it should, except for a slot that migrates to the node itself. -/
theorem getNodeByQuery_routed_iff (h : sv.noRedirection = false) (hkeys : keysOf c q ≠ []) :
    Routed sv c q.cmd (keysOf c q) (getNodeByQuery sv c q) ↔
      ¬(sv.ok ∧ ∃ s, Together sv (keysOf c q) s sv.myself ∧ MigratesToItself sv c q.cmd (keysOf c q) s) := by
  rw [getNodeByQuery, if_neg (Bool.eq_false_iff.mp h), foldlM_commands, ← keysOf]
  generalize keysOf c q = keys at hkeys ⊢
  obtain ⟨k, keys, rfl⟩ := exists_cons_of_ne_nil hkeys
  have hk : k ∈ k :: keys := mem_cons_self ..
  cases hn : sv.slots (keyHashSlot sv k) with
  | none =>
    have hdown : turn sv ⟨none, none, 0, false, false, false, 0⟩ k = .error .downUnbound := by
      simp only [turn, visit, hn]
      rfl
    rw [foldlM_cons, hdown]
    refine iff_of_true ⟨fun hnode => (by cases hnode), iff_of_false (fun hcode => (by cases hcode)) ?_⟩ ?_
    · rintro ⟨_, ⟨⟩, hsome, -⟩
      rw [hn] at hsome
      cases hsome
    · rintro ⟨-, s, ⟨hs, hslot⟩, -⟩
      rw [← hs k hk, hn] at hslot
      cases hslot
  | some n =>
    obtain ⟨st, hloop, hst, hslot, scanned⟩ := foldlM_keys keys hn
    rw [hloop]
    by_cases hall : ∀ k' ∈ k :: keys, keyHashSlot sv k' = keyHashSlot sv k
    · have together (s : Nat) (owner : Node) : Together sv (k :: keys) s owner ↔ s = st.slot ∧ n = owner := by
        constructor
        · rintro ⟨hs, howner⟩
          rw [← hs k hk] at howner ⊢
          exact ⟨hslot.symm, Option.some.inj (hn.symm.trans howner)⟩
        · rintro ⟨rfl, rfl⟩
          rw [hslot]
          exact ⟨hall, hn⟩
      have hcross : ¬∃ k₀ ∈ (k :: keys).head?, (sv.slots (keyHashSlot sv k₀)).isSome ∧
          ∃ k' ∈ k :: keys, keyHashSlot sv k' ≠ keyHashSlot sv k₀ := by
        rintro ⟨_, ⟨⟩, -, k', hk', hne⟩
        exact hne (hall k' hk')
      rw [if_pos hall, Routed]
      simp only [hst, together, and_assoc, exists_and_left, exists_eq_left, exists_eq_left']
      rw [and_iff_left (iff_of_false redirect_errorCode hcross), redirect_iff scanned]
    · rw [if_neg hall]
      refine iff_of_true ⟨fun hnode => (by cases hnode), iff_of_true rfl ⟨k, rfl, by rw [hn]; rfl, ?_⟩⟩ ?_
      · push Not at hall
        exact hall
      · rintro ⟨-, s, ⟨hs, -⟩, -⟩
        exact hall fun k' hk' => (hs k' hk').trans (hs k hk).symm

/-- A cluster of one node, whose slots migrate to it, and that has a key or not. -/
def ownSlots (found : Bool) : Server Unit :=
  ⟨(), false, none, true, fun _ => some (), fun _ => some (), fun _ => none, false, fun _ => found, fun _ => 0⟩

def plain : Client := ⟨false, false, false, []⟩

/-- A query for the key `k`. -/
def getK : MultiCmd := ⟨⟨.other, false, true⟩, [[103], [107]], [1]⟩

theorem getNodeByQuery_routed_present :
    Routed (ownSlots true) plain getK.cmd [[107]] (getNodeByQuery (ownSlots true) plain getK) := by
  refine (getNodeByQuery_routed_iff (q := getK) rfl (by decide)).mpr ?_
  rintro ⟨-, s, -, -, -, hnone, -⟩
  exact hnone fun _ _ => rfl

/-- The node serves a key that it does not have. -/
theorem getNodeByQuery_serves_missing : (getNodeByQuery (ownSlots false) plain getK).node = some () ∧
    ¬Routed (ownSlots false) plain getK.cmd [[107]] (getNodeByQuery (ownSlots false) plain getK) := by
  refine ⟨rfl, fun routed => ?_⟩
  obtain ⟨-, s, _, -, ⟨-, hp | hnone | hall⟩ | ⟨hfrom, -⟩ | ⟨hr, -⟩⟩ := routed.1 rfl
  · cases hp
  · cases hnone
  · cases hall [107] (mem_singleton_self _)
  · cases hfrom
  · cases hr

end JitRedis.Cluster.Query
