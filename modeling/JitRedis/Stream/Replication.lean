import JitRedis.Stream.PendingRun
import JitRedis.Stream.Rewritten

/-!
# Replication of stream commands

A replica executes the commands that the master propagates. It has the same entries then, and groups with the same
last delivered ID and the same owner of each pending ID; consumers without pending entries, and the times and numbers
of deliveries, may differ.
-/

namespace JitRedis

open Fallible List SortedMap Option

def SameGroup (cg cg' : StreamCG) : Prop := ∃ g, cg.Shows g ∧ cg'.Shows g

/-- The same entries, and groups that look the same. -/
structure SameStream (s s' : Stream) : Prop where
  entries : ∃ cgroups, s' = s.withGroups cgroups
  groups : ∀ name, Option.Rel SameGroup (s.cgroups.find? name) (s'.cgroups.find? name)

def SameDb (db db' : StreamDb) : Prop := ∀ key, Option.Rel SameStream (db.find? key) (db'.find? key)

/-- The replica executes commands, each at a time of its own clock. -/
def replayFeeds (cfg : StreamConfig) : (Nat → Int64) → List (List Bytes) → StreamDb → Except Fault StreamDb
  | _, [], db => .ok db
  | ticks, argv :: feeds, db => do
    let r ← processStreamCommand cfg db (ticks 0).toInt argv
    replayFeeds cfg (fun i => ticks (i + 1)) feeds r.db

/-- A stream with its entries and its groups in order. -/
structure Stream.Good (s : Stream) : Prop where
  order : ∃ nodes, s.InOrder nodes
  groups : ∀ {name cg}, s.cgroups.find? name = some cg → ∃ g, cg.Shows g

def DbGood (db : StreamDb) : Prop := ∀ key s, db.find? key = some s → s.Good

variable {cfg : StreamConfig} {db db' : StreamDb} {s s' s₁ : Stream} {cg cg' : StreamCG} {g g' : GroupView}
  {key groupname name arg : Bytes} {id last : StreamID} {now : Int} {argv argv' : List Bytes} {r r' : CmdResult}
  {ticks : Nat → Int64} {feeds feeds' : List (List Bytes)} {cgroups : SortedMap Bytes StreamCG}

lemma replayFeeds_cons {db₁}
    (h : (processStreamCommand cfg db (ticks 0).toInt argv).map CmdResult.db = .ok db₁) :
    replayFeeds cfg ticks (argv :: feeds) db = replayFeeds cfg (fun i => ticks (i + 1)) feeds db₁ := by
  obtain ⟨r, hproc, rfl⟩ := map_eq_ok.mp h
  rw [replayFeeds, hproc]
  rfl

lemma replayFeeds_append : replayFeeds cfg ticks (feeds ++ feeds') db =
    replayFeeds cfg ticks feeds db >>= replayFeeds cfg (fun i => ticks (i + feeds.length)) feeds' := by
  induction feeds generalizing ticks db with
  | nil => rfl
  | cons argv feeds ih =>
    rw [cons_append, replayFeeds, replayFeeds]
    cases processStreamCommand cfg db (ticks 0).toInt argv with
    | error e => rfl
    | ok r =>
      rw [ok_bind, ih]
      rfl

lemma DbGood.stream (h : DbGood db) (hs : db.find? key = some s) : s.Good := h key s hs

lemma Stream.Good.sound (h : s.Good) : s.Sound := by
  obtain ⟨nodes, order⟩ := h.order
  exact ⟨order.rendered, h.groups⟩

lemma DbGood.sound (h : DbGood db) : DbSound db := fun _ _ hs => (h.stream hs).sound

lemma DbGood.insert (h : DbGood db) (hs : s.Good) : DbGood (db.insert key s) := forall_insert h hs

lemma streamNew_good : streamNew.Good := ⟨⟨[], streamNew_inOrder⟩, fun h => (nomatch h)⟩

lemma DbGood.getD (h : DbGood db) (key : Bytes) : ((db.find? key).getD streamNew).Good := by
  cases hs : db.find? key with
  | none => exact streamNew_good
  | some s => exact h.stream hs

lemma Stream.InOrder.setGroup {nodes} (h : s.InOrder nodes) (name : Bytes) (cg : StreamCG) :
    (s.setGroup name cg).InOrder nodes := 
  ⟨h.renders, h.ordered, h.bounded, h.length, h.filled, h.positive⟩

lemma Stream.Good.setGroup (h : s.Good) (shown : cg.Shows g) (name : Bytes) : (s.setGroup name cg).Good := by
  obtain ⟨nodes, order⟩ := h.order
  exact ⟨⟨nodes, order.setGroup name cg⟩, (h.sound.setGroup shown name).groups⟩

lemma Stream.Good.eraseGroup (h : s.Good) (name : Bytes) : Stream.Good { s with cgroups := s.cgroups.erase name } := by
  obtain ⟨nodes, order⟩ := h.order
  refine ⟨⟨nodes, order.renders, order.ordered, order.bounded, order.length, order.filled, order.positive⟩,
    fun hfind => ?_⟩
  rw [find?_erase] at hfind
  split at hfind
  · cases hfind
  · exact h.groups hfind

lemma Stream.Good.of_groups (h : s.Good) (order : ∃ nodes, s₁.InOrder nodes) (hg : s₁.cgroups = s.cgroups) : s₁.Good :=
  ⟨order, fun hfind => h.groups (hg ▸ hfind)⟩

lemma Stream.Good.same (h : s.Good) : SameStream s s := by
  refine ⟨⟨s.cgroups, rfl⟩, fun name => ?_⟩
  cases hcg : s.cgroups.find? name with
  | none => exact .none
  | some cg =>
    obtain ⟨g, shown⟩ := h.groups hcg
    exact .some ⟨g, shown, shown⟩

lemma DbGood.same (h : DbGood db) : SameDb db db := by
  intro key
  cases hs : db.find? key with
  | none => exact .none
  | some s => exact .some (h.stream hs).same

section Related

variable {α : Type} {R : α → α → Prop} {a b : Option α}

lemma rel_some {x} (h : Option.Rel R a b) (ha : a = some x) : ∃ y, b = some y ∧ R x y := by
  subst ha
  cases h with
  | some same => exact ⟨_, rfl, same⟩

lemma rel_none (h : Option.Rel R a b) (ha : a = none) : b = none := by
  subst ha
  cases h
  rfl

end Related

namespace SameDb

lemma stream (h : SameDb db db') (hs : db.find? key = some s) : ∃ s', db'.find? key = some s' ∧ SameStream s s' :=
  rel_some (h key) hs

lemma none (h : SameDb db db') (hs : db.find? key = .none) : db'.find? key = .none := rel_none (h key) hs

lemma getD (h : SameDb db db') (key : Bytes) :
    SameStream ((db.find? key).getD streamNew) ((db'.find? key).getD streamNew) := by
  cases hs : db.find? key with
  | none =>
    rw [h.none hs]
    exact streamNew_good.same
  | some s =>
    obtain ⟨s', hs', same⟩ := h.stream hs
    rw [hs']
    exact same

lemma insert (h : SameDb db db') (hs : SameStream s s') (key : Bytes) :
    SameDb (db.insert key s) (db'.insert key s') := by
  intro key'
  rw [find?_insert, find?_insert]
  split
  · exact .some hs
  · exact h key'

end SameDb

namespace SameStream

section

variable (h : SameStream s s')
include h

lemma group (hcg : s.cgroups.find? groupname = some cg) :
    ∃ cg', s'.cgroups.find? groupname = some cg' ∧ SameGroup cg cg' := rel_some (h.groups groupname) hcg

lemma none (hcg : s.cgroups.find? groupname = .none) :
    s'.cgroups.find? groupname = .none := rel_none (h.groups groupname) hcg

lemma lastId : s'.lastId = s.lastId := by
  obtain ⟨cgroups, rfl⟩ := h.entries
  rfl

lemma setGroup (same : SameGroup cg cg') (name : Bytes) :
    SameStream (s.setGroup name cg) (s'.setGroup name cg') := by
  obtain ⟨cgroups, rfl⟩ := h.entries
  refine ⟨⟨_, rfl⟩, fun name' => ?_⟩
  rw [Stream.setGroup, Stream.setGroup, find?_insert, find?_insert]
  split
  · exact .some same
  · exact h.groups name'

lemma eraseGroup (name : Bytes) :
    SameStream { s with cgroups := s.cgroups.erase name } { s' with cgroups := s'.cgroups.erase name } := by
  obtain ⟨cgroups, rfl⟩ := h.entries
  refine ⟨⟨_, rfl⟩, fun name' => ?_⟩
  rw [find?_erase, find?_erase]
  split
  · exact .none
  · exact h.groups name'

end

lemma frame (h : SameStream s (s.withGroups cgroups)) (hg : s₁.cgroups = s.cgroups) :
    SameStream s₁ (s₁.withGroups cgroups) := by
  refine ⟨⟨cgroups, rfl⟩, fun name => ?_⟩
  rw [hg]
  exact h.groups name

lemma finds (h : SameStream s s') : s'.Finds id ↔ s.Finds id := by
  obtain ⟨cgroups, rfl⟩ := h.entries
  exact Iff.rfl

lemma rendered (h : SameStream s s') (hs : s.Rendered) : s'.Rendered := by
  obtain ⟨cgroups, rfl⟩ := h.entries
  exact hs

end SameStream

/-- A replica that executes what is propagated ends with the same streams. -/
structure CmdResult.Replicated (cfg : StreamConfig) (db : StreamDb) (r : CmdResult) : Prop where
  good : DbGood r.db
  replay : ∀ db' ticks, SameDb db db' → ∃ db'', replayFeeds cfg ticks r.feeds db' = .ok db'' ∧ SameDb r.db db''

lemma replicated_replyOnly (h : DbGood db) (argv : List Bytes) (reply : Reply) :
    (replyOnly db argv reply).Replicated cfg db :=
  ⟨h, fun db' _ same => ⟨db', rfl, same⟩⟩

def Accepts (cmd : StreamCommand) (argv : List Bytes) : Prop :=
  lookupCommand (argAt argv 0) = some cmd ∧ arityOk cmd.entry.2 argv.length = true

lemma Accepts.proc {cmd} (h : Accepts cmd argv) :
    processStreamCommand cfg db now argv = cmd.proc cfg db now argv := by
  rw [processStreamCommand, h.1]
  simp only [h.2, if_true]

lemma CmdResult.Replicated.of_proc (cmd : StreamCommand) (good : DbGood r.db)
    (h : ∀ db' now', SameDb db db' → r.feeds = [] ∧ SameDb r.db db' ∨ ∃ argv' db'', Accepts cmd argv' ∧
      r.feeds = [argv'] ∧ (cmd.proc cfg db' now' argv').map CmdResult.db = .ok db'' ∧ SameDb r.db db'') :
    r.Replicated cfg db := by
  refine ⟨good, fun db' ticks same => ?_⟩
  rcases h db' (ticks 0).toInt same with ⟨hfeeds, same'⟩ | ⟨argv', db'', accepts, hfeeds, hproc, same'⟩
  · rw [hfeeds]
    exact ⟨db', rfl, same'⟩
  · refine ⟨db'', ?_, same'⟩
    obtain ⟨r', hr, rfl⟩ := map_eq_ok.mp hproc
    rw [hfeeds, replayFeeds, accepts.proc, hr]
    rfl

section Deletion

variable {ids : List StreamID} {deleted : Nat}

lemma xdelLoop_withGroups : xdelLoop ids (s.withGroups cgroups) deleted =
    (xdelLoop ids s deleted).map fun r => (r.1.withGroups cgroups, r.2) := by
  induction ids generalizing s deleted with
  | nil => rfl
  | cons id ids ih =>
    rw [xdelLoop, xdelLoop, streamDeleteItem_withGroups]
    cases streamDeleteItem s id with
    | error e => rfl
    | ok r => exact ih

lemma xdelLoop_good (h : s.Good) : Sat OnlyFull (fun r => r.1.Good ∧ r.1.cgroups = s.cgroups ∧ deleted ≤ r.2 ∧
    (r.2 = deleted → r.1 = s)) (xdelLoop ids s deleted) := by
  induction ids generalizing s deleted with
  | nil => exact ⟨h, rfl, le_rfl, fun _ => rfl⟩
  | cons id ids ih =>
    obtain ⟨nodes, order⟩ := h.order
    refine (order.delete id).bind fun r hr => ?_
    obtain ⟨order', hgroups, hfound⟩ := hr
    refine (ih (h.of_groups order' hgroups)).mono fun r' hr' => ?_
    obtain ⟨good, hgroups', hle, heq⟩ := hr'
    refine ⟨good, hgroups'.trans hgroups, ?_, fun hsame => ?_⟩
    · split at hle <;> omega
    · cases hf : r.2 with
      | true =>
        rw [hf, if_pos rfl] at hle
        omega
      | false =>
        rw [hf] at heq
        exact (heq (by simpa using hsame)).trans (hfound hf)

lemma xdelCommand_replicated (h : DbGood db) (hacc : Accepts .xdel argv) :
    Sat OnlyFull (CmdResult.Replicated cfg db) (xdelCommand db argv) := by
  rw [xdelCommand]
  cases hs : db.find? (argAt argv 1) with
  | none => exact replicated_replyOnly h argv _
  | some s =>
    cases hids : parseIDs (argv.drop 2) with
    | none => exact replicated_replyOnly h argv _
    | some ids =>
      refine (xdelLoop_good (h.stream hs)).bind_eq fun r hloop hr => ?_
      obtain ⟨s₁, deleted⟩ := r
      obtain ⟨good, hgroups, -, hnone⟩ := hr
      refine .of_proc .xdel (h.insert good) fun db' now' same => ?_
      obtain ⟨s', hs', sameStream⟩ := same.stream hs
      obtain ⟨cgroups, rfl⟩ := sameStream.entries
      by_cases hdel : deleted = 0
      · left
        simp only at hnone
        rw [hdel, hnone hdel, insert_find hs]
        exact ⟨rfl, same⟩
      right
      refine ⟨argv, _, hacc, ?_, ?_, same.insert (sameStream.frame hgroups) (argAt argv 1)⟩
      · simp [CmdResult.feeds, hdel]
      · simp only [StreamCommand.proc, xdelCommand, hs', hids, xdelLoop_withGroups, hloop]
        rfl

end Deletion

section Rewriting

variable {idx n j : Nat} {x : Bytes} {cmd : StreamCommand}

lemma argAt_set (h : idx ≠ j) : argAt (argv.set idx x) j = argAt argv j := by
  rw [argAt, argAt, getD_eq_getElem?_getD, getD_eq_getElem?_getD, getElem?_set_ne h]

lemma Accepts.set (h : Accepts cmd argv) (hidx : idx ≠ 0) : Accepts cmd (argv.set idx x) := by
  rw [Accepts, argAt_set hidx, length_set]
  exact h

lemma Accepts.rewrite (h : Accepts cmd argv) (hidx : 4 ≤ idx) :
    Accepts cmd (streamRewriteApproxMaxlen argv s idx) := by
  exact (h.set (by omega)).set (by omega)

lemma argAt_rewrite (hidx : 4 ≤ idx) : argAt (streamRewriteApproxMaxlen argv s idx) 1 = argAt argv 1 := by
  rw [streamRewriteApproxMaxlen, argAt_set (by omega), argAt_set (by omega)]

lemma drop_rewrite (hidx : 4 ≤ idx) :
    (streamRewriteApproxMaxlen argv s idx).drop 2 = exactly (argv.drop 2) (idx - 2) s.length := by
  rw [streamRewriteApproxMaxlen, exactly, drop_set, drop_set, if_neg (by omega), if_neg (by omega),
    show idx - 1 - 2 = idx - 2 - 1 from by omega]

end Rewriting

section Trim

lemma xtrimCommand_replicated (h : DbGood db) (hacc : Accepts .xtrim argv)
    (hlen : ∀ s, db.find? (argAt argv 1) = some s → s.length < 2 ^ 63) :
    Sat OnlyFull (CmdResult.Replicated cfg db) (xtrimCommand db argv) := by
  rw [xtrimCommand]
  cases hs : db.find? (argAt argv 1) with
  | none => exact replicated_replyOnly h argv _
  | some s =>
    cases hparse : xtrimParse 2 (argv.drop 2) ⟨-1, false, 0⟩ false with
    | error reply => exact replicated_replyOnly h argv _
    | ok p =>
      obtain ⟨trim, _ | _⟩ := p
      · exact replicated_replyOnly h argv _
      obtain ⟨nodes, order⟩ := (h.stream hs).order
      refine (order.trim trim.maxlen.toNat trim.approx).bind_eq fun r htrim hr => ?_
      obtain ⟨s₁, deleted⟩ := r
      obtain ⟨nodes', order', hgroups, -, hdeleted⟩ := hr
      have good := (h.stream hs).of_groups ⟨nodes', order'⟩ hgroups
      refine .of_proc .xtrim (h.insert good) fun db' now' same => ?_
      obtain ⟨s', hs', sameStream⟩ := same.stream hs
      obtain ⟨cgroups, rfl⟩ := sameStream.entries
      have same' := same.insert (sameStream.frame hgroups) (argAt argv 1)
      by_cases hdel : deleted = 0
      · left
        subst hdel
        obtain rfl := streamTrimByLength_zero order.renders htrim
        refine ⟨rfl, ?_⟩
        show SameDb (db.insert _ _) db'
        rw [insert_find hs]
        exact same
      right
      cases happrox : trim.approx with
      | false =>
        refine ⟨argv, _, hacc, ?_, ?_, same'⟩
        · simp [CmdResult.feeds, hdel]
        · rw [happrox] at htrim
          simp only [StreamCommand.proc, xtrimCommand, hs', hparse, streamTrimByLength_withGroups, happrox, htrim]
          rfl
      | true =>
        have hidx : 4 ≤ trim.idx := by
          rcases xtrimParse_idx hparse with ⟨heq, -⟩ | ⟨-, happ⟩
          · cases heq
          · exact happ happrox
        have hle : s₁.length ≤ s.length := by
          rw [happrox] at htrim
          exact length_trimByLength_le order.renders htrim
        have hparse' := xtrimParse_exactly (Nat.lt_of_le_of_lt hle (hlen s hs)) hparse (by decide) happrox
          (Nat.lt_of_lt_of_le (by decide) hidx)
        rw [← drop_rewrite hidx] at hparse'
        rw [happrox] at htrim
        refine ⟨streamRewriteApproxMaxlen argv s₁ trim.idx, _, hacc.rewrite hidx, ?_, ?_, same'⟩
        · simp [CmdResult.feeds, hdel]
        · simp only [StreamCommand.proc, xtrimCommand, argAt_rewrite hidx, hs', hparse', Int.toNat_natCast,
            streamTrimByLength_withGroups, streamTrimByLength_exact order.renders htrim]
          rfl

end Trim

section Append

variable {args : XaddArgs}

/-- A replica can follow: there is a next ID if one is generated, and no new key is left without an entry. -/
def XaddFollowed (db : StreamDb) (now : Int) (argv : List Bytes) : Prop :=
  match xaddParse 2 (argv.drop 2) ⟨-1, false, 0⟩ with
  | .error _ => True
  | .ok args =>
    match args.id with
    | none =>
      let lastId := ((db.find? (argAt argv 1)).getD streamNew).lastId
      lastId.ms < UInt64.ofInt now ∨ lastId.seq ≠ -1
    | some id => (db.find? (argAt argv 1)).isNone → id ≠ ⟨0, 0⟩

/-- The trimming of `XADD` as it is propagated. -/
def XaddArgs.exactTrim (args : XaddArgs) (s : Stream) : TrimArgs :=
  if 0 ≤ args.trim.maxlen ∧ args.trim.approx then ⟨s.length, false, args.trim.idx⟩ else args.trim

/-- The arguments as `XADD` rewrites them. -/
def xaddRewrite (args : XaddArgs) (argv : List Bytes) (s : Stream) (id : StreamID) : List Bytes :=
  (if 0 ≤ args.trim.maxlen ∧ args.trim.approx then streamRewriteApproxMaxlen argv s args.trim.idx else argv).set
    args.idIdx (streamIDText id)

lemma xaddRewrite_spec (hacc : Accepts .xadd argv) (hparse : xaddParse 2 (argv.drop 2) ⟨-1, false, 0⟩ = .ok args)
    (hfields : args.fields ≠ []) (hlen : s.length < 2 ^ 63) (id : StreamID) :
    Accepts .xadd (xaddRewrite args argv s id) ∧ argAt (xaddRewrite args argv s id) 1 = argAt argv 1 ∧
      xaddParse 2 ((xaddRewrite args argv s id).drop 2) ⟨-1, false, 0⟩ =
        .ok { args with id := some id, trim := args.exactTrim s } := by
  rw [xaddRewrite, XaddArgs.exactTrim]
  split_ifs with happrox
  · have hidx : 4 ≤ args.trim.idx := by
      rcases xaddParse_idx hparse with heq | ⟨-, happ⟩
      · rw [heq] at happrox
        exact absurd happrox.2 (by decide)
      · exact happ happrox.2
    have hparse' := xaddParse_exactly hlen hparse (by decide) happrox.2 (Nat.lt_of_lt_of_le (by decide) hidx)
    rw [← drop_rewrite hidx] at hparse'
    obtain ⟨hle, hset⟩ := xaddParse_setID hparse' hfields id
    refine ⟨(hacc.rewrite hidx).set (by simp only at hle; omega), ?_, ?_⟩
    · rw [argAt_set (by simp only at hle; omega), argAt_rewrite hidx]
    · rw [drop_set, if_neg (by simp only at hle; omega)]
      exact hset
  · obtain ⟨hle, hset⟩ := xaddParse_setID hparse hfields id
    refine ⟨hacc.set (by omega), argAt_set (by omega), ?_⟩
    rw [drop_set, if_neg (by omega)]
    exact hset

lemma xaddTrim_exactTrim {nodes p} (order : s.InOrder nodes)
    (h : xaddTrim s args.trim = .ok p) : xaddTrim s (args.exactTrim p.1) = .ok p := by
  rw [XaddArgs.exactTrim]
  split
  · rename_i happrox
    rw [xaddTrim, if_pos happrox.1, happrox.2] at h
    rw [xaddTrim]
    exact streamTrimByLength_exact order.renders h
  · exact h

lemma xaddTrim_withGroups (trim : TrimArgs) : xaddTrim (s.withGroups cgroups) trim =
    (xaddTrim s trim).map fun r => (r.1.withGroups cgroups, r.2) := by
  rw [xaddTrim, xaddTrim]
  split
  · exact streamTrimByLength_withGroups
  · rfl

lemma xaddTrim_good {nodes} (order : s.InOrder nodes) (trim : TrimArgs) :
    Sat OnlyFull (fun r => (∃ nodes', r.1.InOrder nodes') ∧ r.1.cgroups = s.cgroups ∧ r.1.length ≤ s.length)
      (xaddTrim s trim) := by
  rw [xaddTrim]
  split
  · have spec := order.trim trim.maxlen.toNat trim.approx
    cases htrim : streamTrimByLength s trim.maxlen.toNat trim.approx with
    | error e =>
      rw [htrim] at spec
      exact spec
    | ok r =>
      rw [htrim] at spec
      obtain ⟨nodes', order', hgroups, -, -⟩ := spec
      exact ⟨⟨nodes', order'⟩, hgroups, length_trimByLength_le order.renders htrim⟩
  · exact ⟨⟨nodes, order⟩, rfl, le_rfl⟩

lemma fieldPairs_ne_nil {fields} (h : ¬ (fields.length < 2 ∨ fields.length % 2 = 1)) :
    fields ≠ [] ∧ fieldPairs fields ≠ [] := by
  match fields with
  | [] => simp at h
  | [f] => simp at h
  | f :: v :: rest => exact ⟨cons_ne_nil _ _, cons_ne_nil _ _⟩

lemma xaddCommand_replicated (h : DbGood db) (hacc : Accepts .xadd argv) (hfollow : XaddFollowed db now argv)
    (hlen : ((db.find? (argAt argv 1)).getD streamNew).length + 1 < 2 ^ 63) :
    Sat OnlyFull (CmdResult.Replicated cfg db) (xaddCommand cfg db now argv) := by
  rw [xaddCommand]
  rw [XaddFollowed] at hfollow
  cases hparse : xaddParse 2 (argv.drop 2) ⟨-1, false, 0⟩ with
  | error reply => exact replicated_replyOnly h argv _
  | ok args =>
    rw [hparse] at hfollow
    simp only at hfollow ⊢
    split
    · exact replicated_replyOnly h argv _
    rename_i hfields
    obtain ⟨hnonempty, hpairs⟩ := fieldPairs_ne_nil hfields
    obtain ⟨s, hs⟩ : ∃ s, s = (db.find? (argAt argv 1)).getD streamNew := ⟨_, rfl⟩
    have good := h.getD (argAt argv 1)
    rw [← hs] at good hlen hfollow ⊢
    obtain ⟨nodes, order⟩ := good.order
    refine (order.append cfg hpairs args.id (UInt64.ofInt now) fun hnone => ?_).bind_eq
      fun r happ hr => ?_
    · rw [hnone] at hfollow
      exact hfollow
    · obtain ⟨s₁, appended⟩ := r
      rcases hr with ⟨heq, id, hid, hle⟩ | ⟨id, nodes₁, same, rfl, -, hlt, order₁, hgroups₁, -, hlive⟩
      · -- The ID was rejected, so that the key was there.
        cases heq
        have hfound : db.find? (argAt argv 1) = some s := by
          cases hfind : db.find? (argAt argv 1) with
          | none =>
            rw [hfind] at hs hfollow
            rw [hid] at hfollow
            have hzero : id = ⟨0, 0⟩ := by
              rw [hs] at hle
              exact le_antisymm hle (Nat.zero_le _)
            exact absurd hzero (hfollow rfl)
          | some s' =>
            rw [hfind] at hs
            rw [hs]
            rfl
        simp only
        rw [insert_find hfound]
        exact replicated_replyOnly h argv _
      · have hlen₁ : s₁.length = s.length + 1 := by
          rw [order₁.length, hlive, length_append, length_singleton, ← order.length]
        refine (xaddTrim_good order₁ args.trim).bind_eq fun r htrim hr => ?_
        obtain ⟨s₂, removed⟩ := r
        obtain ⟨order₂, hgroups₂, hle⟩ := hr
        have hgroups : s₂.cgroups = s.cgroups := hgroups₂.trans hgroups₁
        refine .of_proc .xadd (h.insert (good.of_groups order₂ hgroups)) fun db' now' same => .inr ?_
        obtain ⟨haccepts, hkey, hparse'⟩ := @xaddRewrite_spec s₂ argv args hacc hparse hnonempty
          (by simp only at hle; omega) id
        have sameStream := same.getD (argAt argv 1)
        rw [← hs] at sameStream
        obtain ⟨cgroups, hcgroups⟩ := sameStream.entries
        rw [hcgroups] at sameStream
        refine ⟨xaddRewrite args argv s₂ id, _, haccepts, rfl, ?_,
          same.insert (sameStream.frame hgroups) (argAt argv 1)⟩
        simp only [StreamCommand.proc, xaddCommand, hparse', hkey, hcgroups, streamAppendItem_withGroups,
          streamAppendItem_explicit (UInt64.ofInt now') happ hlt]
        rw [if_neg hfields]
        simp only [Except.map, ok_bind, xaddTrim_withGroups, xaddTrim_exactTrim order₁ htrim]

end Append

section Groups

lemma StreamCG.Shows.unique (h : cg.Shows g) (h' : cg.Shows g') : g = g' := by
  rw [GroupView.mk.injEq]
  exact ⟨h.lastId.symm.trans h'.lastId, h.pendingOwner_eq.symm.trans h'.pendingOwner_eq⟩

lemma SameGroup.shows (h : SameGroup cg cg') (shown : cg.Shows g) : cg'.Shows g := by
  obtain ⟨g', shown', shown''⟩ := h
  rw [shown.unique shown']
  exact shown''

lemma SameDb.keep {cg₁} (same : SameDb db db') (hs : db.find? key = some s)
    (hcg : s.cgroups.find? groupname = some cg) (shown : cg.Shows g) (shown₁ : cg₁.Shows g) :
    SameDb (db.insert key (s.setGroup groupname cg₁)) db' := by
  obtain ⟨s', hs', sameStream⟩ := same.stream hs
  obtain ⟨cg', hcg', sameGroup⟩ := sameStream.group hcg
  have written := same.insert (sameStream.setGroup ⟨g, shown₁, sameGroup.shows shown⟩ groupname) key
  have hset : s'.setGroup groupname cg' = s' := by
    rw [Stream.setGroup, insert_find hcg']
  rw [hset, insert_find hs'] at written
  exact written

/-- What `XACK` does, as clients see it: the view, and how many entries were acknowledged. -/
def ackView : List Bytes → GroupView → GroupView × Nat
  | [], g => (g, 0)
  | arg :: args, g =>
    match streamParseStrictID arg 0 with
    | none => (g, 0)
    | some id =>
      let r := ackView args (g.ack id)
      (r.1, (if (g.owner (streamEncodeID id)).isSome then 1 else 0) + r.2)

lemma ackView_zero {args} (h : (ackView args g).2 = 0) : (ackView args g).1 = g := by
  induction args generalizing g with
  | nil => rfl
  | cons arg args ih =>
    rw [ackView] at h ⊢
    cases hid : streamParseStrictID arg 0 with
    | none => rfl
    | some id =>
      rw [hid] at h
      simp only [Nat.add_eq_zero_iff] at h ⊢
      have hown : g.owner (streamEncodeID id) = none := by
        by_contra hne
        rw [if_pos (isSome_iff_ne_none.mpr hne)] at h
        exact absurd h.1 (by decide)
      have hack : g.ack id = g := by
        rw [GroupView.ack, ← hown, Function.update_eq_self]
      rw [hack] at h ⊢
      exact ih h.2

lemma xackLoop_view (h : cg.Shows g) (args : List Bytes) (acknowledged : Nat) :
    Sat NoFault (fun r => r.1.Shows (ackView args g).1 ∧ r.2.1 = acknowledged + (ackView args g).2)
      (xackLoop args cg acknowledged) := by
  induction args generalizing cg g acknowledged with
  | nil => exact ⟨h, rfl⟩
  | cons arg args ih =>
    rw [xackLoop, ackView]
    cases hid : streamParseStrictID arg 0 with
    | none => exact ⟨h, rfl⟩
    | some id =>
      refine (h.ack id).bind fun r hr => (ih hr.1 _).mono fun r' hr' => ⟨hr'.1, ?_⟩
      rw [hr'.2, hr.2, Nat.add_assoc]

lemma xackCommand_replicated (h : DbGood db) (hacc : Accepts .xack argv) :
    Sat OnlyFull (CmdResult.Replicated cfg db) (xackCommand db argv) := by
  rw [xackCommand]
  cases hs : db.find? (argAt argv 1) with
  | none => exact replicated_replyOnly h argv _
  | some s =>
    simp only [streamLookupCG]
    cases hcg : s.cgroups.find? (argAt argv 2) with
    | none => exact replicated_replyOnly h argv _
    | some cg =>
      obtain ⟨g, shown⟩ := (h.stream hs).groups hcg
      refine (xackLoop_view shown _ _).total.bind fun r hr => ?_
      obtain ⟨cg₁, acknowledged, valid⟩ := r
      obtain ⟨shown₁, hcount⟩ := hr
      simp only [Nat.zero_add] at hcount shown₁
      refine .of_proc .xack (h.insert ((h.stream hs).setGroup shown₁ _)) fun db' now' same => ?_
      by_cases hzero : acknowledged = 0
      · left
        subst hzero
        rw [ackView_zero hcount.symm] at shown₁
        exact ⟨rfl, same.keep hs hcg shown shown₁⟩
      right
      obtain ⟨s', hs', sameStream⟩ := same.stream hs
      obtain ⟨cg', hcg', sameGroup⟩ := sameStream.group hcg
      obtain ⟨r, hloop, shown', -⟩ := (xackLoop_view (sameGroup.shows shown) (argv.drop 3) 0).returns
      refine ⟨argv, _, hacc, ?_, ?_, same.insert (sameStream.setGroup ⟨_, shown₁, shown'⟩ _) _⟩
      · simp [CmdResult.feeds, hzero]
      · simp only [StreamCommand.proc, xackCommand, hs', streamLookupCG, hcg', hloop, ok_bind]
        rfl

lemma xgroupID_same {s s'} (h : Option.Rel SameStream s s') (arg : Bytes) (strict : Bool) :
    xgroupID s' arg strict = xgroupID s arg strict := by
  rw [xgroupID, xgroupID]
  cases h with
  | none => rfl
  | some same => rw [map_some, map_some, same.lastId]

lemma streamCreateCG_same (h : SameStream s s') (hcreate : streamCreateCG s name id = some s₁) :
    ∃ s₁', streamCreateCG s' name id = some s₁' ∧ SameStream s₁ s₁' := by
  rw [streamCreateCG] at hcreate ⊢
  split at hcreate
  · cases hcreate
  rename_i hnone
  cases hcreate
  have hnone' : s'.cgroups.find? name = none := h.none (not_isSome_iff_eq_none.mp hnone)
  rw [hnone']
  have shown := StreamCG.shows_new id
  exact ⟨_, rfl, h.setGroup ⟨_, shown, shown⟩ name⟩

/-- The command is propagated as it is, and does the same on the other side, or there is nothing to propagate. -/
structure CmdResult.Mirrored (proc : StreamDb → Int → Except Fault CmdResult) (argv : List Bytes) (db : StreamDb)
    (r : CmdResult) : Prop where
  good : DbGood r.db
  mirror : ∀ db' now', SameDb db db' → r.feeds = [] ∧ SameDb r.db db' ∨
    ∃ db'', r.feeds = [argv] ∧ (proc db' now').map CmdResult.db = .ok db'' ∧ SameDb r.db db''

lemma mirrored_replyOnly {proc} (h : DbGood db) (reply : Reply) :
    (replyOnly db argv reply).Mirrored proc argv db :=
  ⟨h, fun _ _ same => .inl ⟨rfl, same⟩⟩

lemma CmdResult.Mirrored.congr {proc proc'} (h : r.Mirrored proc argv db)
    (eq : ∀ db' now', SameDb db db' → proc' db' now' = proc db' now') : r.Mirrored proc' argv db := by
  refine ⟨h.good, fun db' now' same => ?_⟩
  rw [eq db' now' same]
  exact h.mirror db' now' same

lemma xgroupCreate_mirrored (h : DbGood db) (argv : List Bytes) {mkstream : Bool}
    (hmk : (db.find? (argAt argv 2)).isNone → mkstream = true) :
    Sat OnlyFull
      (CmdResult.Mirrored (fun db' _ => xgroupCreate db' argv (db'.find? (argAt argv 2)) mkstream) argv db)
      (xgroupCreate db argv (db.find? (argAt argv 2)) mkstream) := by
  rw [xgroupCreate]
  cases hid : xgroupID (db.find? (argAt argv 2)) (argAt argv 4) true with
  | none => exact mirrored_replyOnly h _
  | some id =>
    have hcond : ¬ ((db.find? (argAt argv 2)).isNone = true ∧ mkstream = false) := fun hc => by
      rw [hmk hc.1] at hc
      exact absurd hc.2 (by decide)
    simp only
    rw [if_neg hcond]
    cases hcreate : streamCreateCG ((db.find? (argAt argv 2)).getD streamNew) (argAt argv 3) id with
    | none =>
      -- There is such a group, so that the key was there.
      obtain ⟨s, hs⟩ : ∃ s, db.find? (argAt argv 2) = some s := by
        refine ne_none_iff_exists'.mp fun hs => ?_
        rw [hs] at hcreate
        cases hcreate
      have hkeep : db.insert (argAt argv 2) ((db.find? (argAt argv 2)).getD streamNew) = db := by
        rw [hs]
        exact insert_find hs
      rw [hkeep]
      exact mirrored_replyOnly h _
    | some s₁ =>
      have good : s₁.Good := by
        rw [streamCreateCG] at hcreate
        split at hcreate
        · cases hcreate
        · cases hcreate
          exact (h.getD _).setGroup (StreamCG.shows_new id) _
      refine ⟨h.insert good, fun db' _ same => .inr ?_⟩
      obtain ⟨s₁', hcreate', same₁⟩ := streamCreateCG_same (same.getD (argAt argv 2)) hcreate
      have hcond' : ¬ ((db'.find? (argAt argv 2)).isNone = true ∧ mkstream = false) := by
        intro hc
        refine hcond ⟨?_, hc.2⟩
        cases hs : db.find? (argAt argv 2) with
        | none => rfl
        | some s =>
          obtain ⟨s', hs', -⟩ := same.stream hs
          rw [hs'] at hc
          cases hc.1
      refine ⟨_, rfl, ?_, same.insert same₁ _⟩
      rw [xgroupCreate, xgroupID_same (same (argAt argv 2)), hid]
      simp only
      rw [if_neg hcond', hcreate']
      rfl

lemma xgroupStream_mirrored (h : DbGood db) (hs : db.find? (argAt argv 2) = some s) (now : Int)
    (hopt : streamLookupCG s (argAt argv 3) = none →
      ¬ strcaseeq (argAt argv 1) "SETID" ∧ ¬ strcaseeq (argAt argv 1) "DELCONSUMER") :
    Sat OnlyFull (CmdResult.Mirrored (fun db' now' => xgroupStream db' now' argv
        ((db'.find? (argAt argv 2)).getD streamNew)
        (streamLookupCG ((db'.find? (argAt argv 2)).getD streamNew) (argAt argv 3))) argv db)
      (xgroupStream db now argv s (streamLookupCG s (argAt argv 3))) := by
  have good := h.stream hs
  unfold xgroupStream
  cases hcg : streamLookupCG s (argAt argv 3) with
  | none =>
    obtain ⟨hsetid, hdel⟩ := hopt hcg
    simp only [hsetid, hdel, Bool.false_eq_true, false_and, if_false]
    split
    · exact mirrored_replyOnly h _
    · split <;> exact mirrored_replyOnly h _
  | some cg =>
    obtain ⟨g, shown⟩ := good.groups hcg
    simp only
    split
    · cases hid : xgroupID (some s) (argAt argv 4) false with
      | none => exact mirrored_replyOnly h _
      | some id =>
        refine ⟨h.insert (good.setGroup (shown.setLast id) _), fun db' now' same => .inr ?_⟩
        obtain ⟨s', hs', sameStream⟩ := same.stream hs
        obtain ⟨cg', hcg', sameGroup⟩ := sameStream.group hcg
        have sameGroup' : SameGroup { cg with lastId := id } { cg' with lastId := id } :=
          ⟨_, shown.setLast id, (sameGroup.shows shown).setLast id⟩
        refine ⟨_, rfl, ?_, same.insert (sameStream.setGroup sameGroup' _) _⟩
        rw [← xgroupID_same (.some sameStream)] at hid
        simp only [hs', getD_some, streamLookupCG, hcg', hid]
        rfl
    · split
      · refine ⟨h.insert (good.eraseGroup _), fun db' now' same => .inr ?_⟩
        obtain ⟨s', hs', sameStream⟩ := same.stream hs
        obtain ⟨cg', hcg', -⟩ := sameStream.group hcg
        refine ⟨_, rfl, ?_, same.insert (sameStream.eraseGroup _) _⟩
        simp only [hs', getD_some, streamLookupCG, hcg']
        rfl
      split
      · refine (shown.delConsumer (argAt argv 4) now).total.bind fun r hr => ?_
        refine ⟨h.insert (good.setGroup hr _), fun db' now' same => .inr ?_⟩
        obtain ⟨s', hs', sameStream⟩ := same.stream hs
        obtain ⟨cg', hcg', sameGroup⟩ := sameStream.group hcg
        obtain ⟨r', hr', shown'⟩ := ((sameGroup.shows shown).delConsumer (argAt argv 4) now').returns
        refine ⟨_, rfl, ?_, same.insert (sameStream.setGroup ⟨_, hr, shown'⟩ _) _⟩
        simp only [hs', getD_some, streamLookupCG, hcg', hr', ok_bind]
        rfl
      · split <;> exact mirrored_replyOnly h _

lemma xgroupCommand_replicated (h : DbGood db) (hacc : Accepts .xgroup argv) :
    Sat OnlyFull (CmdResult.Replicated cfg db) (xgroupCommand db now argv) := by
  -- It is enough that the command does the same on the other side.
  suffices mirrored : Sat OnlyFull (CmdResult.Mirrored (fun db' now' => xgroupCommand db' now' argv) argv db)
      (xgroupCommand db now argv) by
    refine mirrored.mono fun r hr => .of_proc .xgroup hr.good fun db' now' same => ?_
    rcases hr.mirror db' now' same with none | ⟨db'', hfeeds, hproc, same'⟩
    · exact .inl none
    · exact .inr ⟨argv, db'', hacc, hfeeds, hproc, same'⟩
  unfold xgroupCommand
  simp only
  split
  · exact mirrored_replyOnly h _
  split
  · exact xgroupCreate_mirrored h argv fun _ => rfl
  split
  · split <;> exact mirrored_replyOnly h _
  cases hs : db.find? (argAt argv 2) with
  | none => exact mirrored_replyOnly h _
  | some s =>
    -- The group is there on both sides or on none.
    have hgroups : ∀ {s'}, SameStream s s' →
        (streamLookupCG s' (argAt argv 3)).isNone = (streamLookupCG s (argAt argv 3)).isNone := by
      intro s' same
      cases hcg : streamLookupCG s (argAt argv 3) with
      | none => rw [streamLookupCG, same.none hcg]
      | some cg =>
        obtain ⟨cg', hcg', -⟩ := same.group hcg
        rw [streamLookupCG, hcg']
        rfl
    by_cases hopt : (streamLookupCG s (argAt argv 3)).isNone = true ∧
        (strcaseeq (argAt argv 1) "SETID" = true ∨ strcaseeq (argAt argv 1) "DELCONSUMER" = true)
    · simp only [if_pos hopt]
      exact mirrored_replyOnly h _
    by_cases hcreate : strcaseeq (argAt argv 1) "CREATE" = true ∧ argv.length = 5
    · have hmk : (db.find? (argAt argv 2)).isNone → false = true := fun hnone => by
        rw [hs] at hnone
        cases hnone
      have created := xgroupCreate_mirrored h argv hmk
      rw [hs] at created
      simp only [if_neg hopt, if_pos hcreate]
      refine created.mono fun r hr => hr.congr fun db' now' same => ?_
      obtain ⟨s', hs', sameStream⟩ := same.stream hs
      rw [← hgroups sameStream] at hopt
      simp only [hs', if_neg hopt]
    have mirrored := xgroupStream_mirrored h hs now fun hcg => by
      rw [hcg] at hopt
      simpa [not_or] using hopt
    simp only [if_neg hopt, if_neg hcreate]
    refine mirrored.mono fun r hr => hr.congr fun db' now' same => ?_
    obtain ⟨s', hs', sameStream⟩ := same.stream hs
    rw [← hgroups sameStream] at hopt
    simp only [hs', if_neg hopt, getD_some]

end Groups

section Deliveries

variable {known : StreamID → Prop}

lemma xclaimParse_valued {opt : Bytes} {rest o} (hforce : strcaseeq opt "FORCE" = false)
    (hjustid : strcaseeq opt "JUSTID" = false) (hidle : strcaseeq opt "IDLE" = false) :
    xclaimParse now (opt :: arg :: rest) o =
      if strcaseeq opt "TIME" then
        xclaimValue "TIME" arg >>= fun deliverytime => xclaimParse now rest { o with deliverytime }
      else if strcaseeq opt "RETRYCOUNT" then
        xclaimValue "RETRYCOUNT" arg >>= fun retrycount => xclaimParse now rest { o with retrycount }
      else if strcaseeq opt "LASTID" then
        match streamParseStrictID arg 0 with
        | none => .error invalidID
        | some lastId => xclaimParse now rest { o with lastId }
      else .error (xclaimUnrecognized opt) := by
  rw [xclaimParse, hforce, hjustid, if_neg (by decide), if_neg (by decide)]
  exact if_neg (by rw [hidle]; exact Bool.false_ne_true)

lemma xclaimValue_ll2string {value : Int} (h : LongLong value) (name : String) :
    xclaimValue name (ll2string value) = .ok value := by
  rw [xclaimValue, string2ll_ll2string h.1 h.2]

lemma xclaimParse_timeCount {time count : Int} (htime : LongLong time)
    (hcount : LongLong count) (rest : List Bytes) (o : XclaimOpts) :
    xclaimParse now (ascii "TIME" :: ll2string time :: ascii "RETRYCOUNT" :: ll2string count :: rest) o =
      xclaimParse now rest { o with deliverytime := time, retrycount := count } := by
  rw [xclaimParse_valued (by decide) (by decide) (by decide), if_pos (by decide), xclaimValue_ll2string htime, ok_bind,
    xclaimParse_valued (by decide) (by decide) (by decide), if_neg (by decide), if_pos (by decide),
    xclaimValue_ll2string hcount, ok_bind]

lemma xclaimParse_feed {time count : Int} (htime : LongLong time)
    (hcount : LongLong count) (o : XclaimOpts) :
    xclaimParse now [ascii "TIME", ll2string time, ascii "RETRYCOUNT", ll2string count, ascii "FORCE", ascii "JUSTID",
      ascii "LASTID", streamIDText last] o = .ok ⟨time, count, true, true, last⟩ := by
  rw [xclaimParse_timeCount htime hcount, xclaimParse, if_pos (by decide), xclaimParse, if_neg (by decide),
    if_pos (by decide), xclaimParse_valued (by decide) (by decide) (by decide), if_neg (by decide),
    if_neg (by decide), streamParseStrictID_text]
  rfl

lemma process_xclaim {opts o} (cfg : StreamConfig) (hnow : LongLong now)
    (htime : LongLong o.deliverytime)
    (hopts : xclaimParse now (ascii "TIME" :: opts) ⟨-1, -1, false, false, ⟨0, 0⟩⟩ = .ok o) (hforce : o.force = true)
    (hs : db.find? key = some s) (rendered : s.Rendered) (hcg : s.cgroups.find? groupname = some cg)
    (shown : cg.Shows g) (harg : streamParseStrictID arg 0 = some id) (name : Bytes) :
    ∃ cg', (processStreamCommand cfg db now
        (ascii "XCLAIM" :: key :: groupname :: name :: ll2string 0 :: arg :: ascii "TIME" :: opts)).map
        CmdResult.db = .ok (db.insert key (s.setGroup groupname cg')) ∧
      ((g.owner (streamEncodeID id)).isSome ∨ s.Finds id → ClaimsOne name cg g o id cg') ∧
      (¬ ((g.owner (streamEncodeID id)).isSome ∨ s.Finds id) →
        cg'.Shows (g.setLast (max g.lastId o.lastId)) ∧ ∀ k, cg'.deliveryCount k = cg.deliveryCount k) := by
  obtain ⟨argv, hargv⟩ : ∃ argv,
    argv = ascii "XCLAIM" :: key :: groupname :: name :: ll2string 0 :: arg :: ascii "TIME" :: opts := ⟨_, rfl⟩
  have haccepts : Accepts .xclaim argv := by
    rw [hargv]
    refine ⟨by show lookupCommand (ascii "XCLAIM") = _; decide, ?_⟩
    simp [arityOk, StreamCommand.entry]
    omega
  obtain ⟨hkey, hgroup, hconsumer, hdrop⟩ : argAt argv 1 = key ∧ argAt argv 2 = groupname ∧ argAt argv 3 = name ∧
      argv.drop 5 = arg :: ascii "TIME" :: opts := by
    rw [hargv]
    exact ⟨rfl, rfl, rfl, rfl⟩
  have harg' : (streamParseStrictID arg 0).isSome = true := by
    rw [harg]
    rfl
  have htext : (streamParseStrictID (ascii "TIME") 0).isSome = false := by decide
  have hids : (argv.drop 5).takeWhile (fun arg => (streamParseStrictID arg 0).isSome) = [arg] := by
    rw [hdrop, takeWhile_cons, if_pos harg', takeWhile_cons, if_neg (by rw [htext]; decide)]
  have hopts' : xclaimParse now ((argv.drop 5).dropWhile fun arg => (streamParseStrictID arg 0).isSome)
      ⟨-1, -1, false, false, ⟨0, 0⟩⟩ = .ok o := by
    rw [hdrop, dropWhile_cons, if_pos harg', dropWhile_cons, if_neg (by rw [htext]; decide), hopts]
  have hidle : string2ll (argAt argv 4) = some 0 := by
    rw [hargv]
    exact string2ll_ll2string (by decide) (by decide)
  have hclaim := xclaimGroup_forced db hnow htime rendered shown hidle hids hopts' hforce harg
  rw [hkey, hgroup, hconsumer] at hclaim
  obtain ⟨cg', hclaim, claims⟩ := hclaim
  refine ⟨cg', ?_, claims⟩
  rw [← hargv, haccepts.proc]
  simp only [StreamCommand.proc, xclaimCommand, hkey, hs, hgroup, streamLookupCG, hcg]
  exact hclaim

lemma process_xclaimArgv (cfg : StreamConfig) {time count : Int} (hnow : LongLong now) (htime : LongLong time)
    (hcount : LongLong count) (hs : db.find? key = some s) (rendered : s.Rendered)
    (hcg : s.cgroups.find? groupname = some cg) (shown : cg.Shows g) (harg : streamParseStrictID arg 0 = some id)
    (hknown : (g.owner (streamEncodeID id)).isSome ∨ s.Finds id) (hlast : g.lastId ≤ last) (name : Bytes) :
    ∃ cg', (processStreamCommand cfg db now (StreamCG.xclaimArgv key groupname name arg time count last)).map
        CmdResult.db = .ok (db.insert key (s.setGroup groupname cg')) ∧
      cg'.Shows ((g.setLast last).give id name) := by
  obtain ⟨cg', hclaim, claims, -⟩ := process_xclaim cfg hnow (o := ⟨time, count, true, true, last⟩) htime
    (xclaimParse_feed htime hcount _) rfl hs rendered hcg shown harg name
  refine ⟨cg', hclaim, ?_⟩
  have shown' := (claims hknown).shown
  rw [max_eq_right hlast] at shown'
  exact shown'

lemma process_setidArgv (hs : db.find? key = some s) (hcg : s.cgroups.find? groupname = some cg) (last : StreamID) :
    (processStreamCommand cfg db now (setidArgv key groupname last)).map CmdResult.db =
      .ok (db.insert key (s.setGroup groupname { cg with lastId := last })) := by
  have haccepts : Accepts .xgroup (setidArgv key groupname last) :=
    ⟨by show lookupCommand (ascii "XGROUP") = _; decide, rfl⟩
  have hid : xgroupID (some s) (streamIDText last) false = some last := by
    rw [xgroupID, streq_streamIDText last (by decide), if_neg (by decide), streamGenericParseID_text]
  have hset : strcaseeq (ascii "SETID") "SETID" = true := by decide
  have hcreate : strcaseeq (ascii "SETID") "CREATE" = false := by decide
  have hlookup : streamLookupCG s groupname = some cg := hcg
  show (xgroupCommand db now [ascii "XGROUP", ascii "SETID", key, groupname, streamIDText last]).map _ = _
  simp only [xgroupCommand, argAt, getD_cons_succ, getD_cons_zero, hcreate, hs, hlookup, Bool.false_eq_true,
    and_false, false_and, if_false, isNone_some, xgroupStream, hset, hid, length_cons, length_nil]
  rfl

lemma replayFeeds_snoc {db₁ db₂} (h : replayFeeds cfg ticks feeds db = .ok db₁)
    (hlast : (processStreamCommand cfg db₁ (ticks feeds.length).toInt argv).map CmdResult.db = .ok db₂) :
    replayFeeds cfg ticks (feeds ++ [argv]) db = .ok db₂ := by
  rw [← Nat.zero_add feeds.length] at hlast
  rw [replayFeeds_append, h, ok_bind]
  exact replayFeeds_cons hlast

lemma Fed.replay (fed : Fed known key groupname g feeds g') (hs : db.find? key = some s) (rendered : s.Rendered)
    (finds : ∀ id, known id → s.Finds id) (hcg : s.cgroups.find? groupname = some cg) (shown : cg.Shows g)
    (ticks : Nat → Int64) :
    ∃ cg', replayFeeds cfg ticks feeds db = .ok (db.insert key (s.setGroup groupname cg')) ∧ cg'.Shows g' := by
  -- Writing the group again replaces it.
  have again : ∀ cg₁ cg₂, (db.insert key (s.setGroup groupname cg₁)).insert key
      ((s.setGroup groupname cg₁).setGroup groupname cg₂) = db.insert key (s.setGroup groupname cg₂) := by
    intro cg₁ cg₂
    rw [insert_insert, Stream.setGroup, Stream.setGroup, Stream.setGroup, insert_insert]
  have written : ∀ cg₁, (db.insert key (s.setGroup groupname cg₁)).find? key = some (s.setGroup groupname cg₁) ∧
      (s.setGroup groupname cg₁).cgroups.find? groupname = some cg₁ := by
    intro cg₁
    rw [Stream.setGroup, find?_insert, find?_insert, if_pos rfl, if_pos rfl]
    exact ⟨rfl, rfl⟩
  induction fed with
  | nil =>
    refine ⟨cg, ?_, shown⟩
    rw [replayFeeds, Stream.setGroup, insert_find hcg]
    exact congrArg _ (insert_find hs).symm
  | claim before harg hknown hlast low high ih =>
    obtain ⟨cg₁, hreplay, shown₁⟩ := ih
    obtain ⟨cg₂, hclaim, shown₂⟩ := process_xclaimArgv cfg (longLong_toInt _) ⟨low, high⟩ (longLong_toInt _)
      (written cg₁).1 rendered (written cg₁).2 shown₁ harg (hknown.imp_right (finds _)) hlast _
    refine ⟨cg₂, replayFeeds_snoc hreplay ?_, shown₂⟩
    rw [hclaim, again]
  | setid before ih =>
    obtain ⟨cg₁, hreplay, shown₁⟩ := ih
    refine ⟨_, replayFeeds_snoc hreplay ?_, shown₁.setLast _⟩
    rw [process_setidArgv (written cg₁).1 (written cg₁).2, again]

lemma Serves.replay {db₁} (h : DbGood db) (serves : Serves Stream.Finds db db₁ feeds)
    (cfg : StreamConfig) :
    DbGood db₁ ∧
      ∀ db' ticks, SameDb db db' → ∃ db'', replayFeeds cfg ticks feeds db' = .ok db'' ∧ SameDb db₁ db'' := by
  cases serves with
  | nothing => exact ⟨h, fun db' _ same => ⟨db', rfl, same⟩⟩
  | group hs hcg shown delivers =>
    cases delivers with
    | unchanged => exact ⟨h, fun db' _ same => ⟨db', rfl, same⟩⟩
    | changed shown' fed =>
      refine ⟨h.insert ((h.stream hs).setGroup shown' _), fun db' ticks same => ?_⟩
      obtain ⟨s', hs', sameStream⟩ := same.stream hs
      obtain ⟨cg', hcg', sameGroup⟩ := sameStream.group hcg
      obtain ⟨cg'', hreplay, shown''⟩ := fed.replay hs' (sameStream.rendered (h.stream hs).sound.rendered)
        (fun id hid => sameStream.finds.mpr hid) hcg' (sameGroup.shows shown) ticks
      exact ⟨_, hreplay, same.insert (sameStream.setGroup ⟨_, shown', shown''⟩ _) _⟩

lemma xclaimCommand_replicated (hnow : LongLong now) (h : DbGood db) :
    Sat OnlyFull (CmdResult.Replicated cfg db) (xclaimCommand db now argv) := by
  refine (xclaimCommand_serves Stream.Finds hnow h.sound fun _ _ hid => hid).total.mono fun r serves => ?_
  obtain ⟨good, replay⟩ := serves.replay h cfg
  exact ⟨good, replay⟩

lemma DbGood.reads (h : DbGood db) (hs : db.find? key = some s) : s.Reads s.Finds := by
  obtain ⟨nodes, order⟩ := (h.stream hs).order
  exact order.reads

lemma xreadCommand_replicated (hnow : LongLong now) (h : DbGood db) :
    Sat OnlyFull (CmdResult.Replicated cfg db) (xreadCommand db now argv) := by
  rw [xreadCommand]
  simp only
  split
  · exact replicated_replyOnly h argv _
  rename_i opts streams _
  split
  · exact replicated_replyOnly h argv _
  split
  · exact ⟨h, fun db' _ same => ⟨db', rfl, same⟩⟩
  rename_i ids hids
  have hgroup := xreadResolve_hasGroup hids
  -- What was propagated so far brings the replica to the streams as they are now.
  refine Sat.bind (P := fun st : ReadState => (DbGood st.db ∧ ∀ arg ∈ ids, HasGroup st.db opts.group arg.1) ∧
      ∀ db' ticks, SameDb db db' →
        ∃ db'', replayFeeds cfg ticks st.propagated db' = .ok db'' ∧ SameDb st.db db'')
    (Sat.foldlM (fun st arg harg hst => ?_) ⟨⟨h, hgroup⟩, fun db' _ same => ⟨db', rfl, same⟩⟩)
    fun st hst => sat_ok.mpr ⟨hst.1.1, fun db' ticks same => ?_⟩
  · obtain ⟨⟨good, hgr⟩, replayed⟩ := hst
    refine (xreadStream_serves Stream.Finds hnow good.sound good.reads (hgr arg harg)).total.mono
      fun st' hst' => ?_
    obtain ⟨feeds, hfeeds, serves⟩ := hst'
    obtain ⟨good', replay⟩ := serves.replay good cfg
    refine ⟨⟨good', fun arg harg => serves.hasGroup (hgr arg harg)⟩, fun db' ticks same => ?_⟩
    obtain ⟨db₁, hreplay, same₁⟩ := replayed db' ticks same
    obtain ⟨db₂, hreplay', same₂⟩ := replay db₁ (fun i => ticks (i + st.propagated.length)) same₁
    refine ⟨db₂, ?_, same₂⟩
    rw [hfeeds, replayFeeds_append, hreplay, ok_bind, hreplay']
  · simp only [CmdResult.feeds, Bool.true_eq_false, and_false, if_false, append_nil]
    exact hst.2 db' ticks same

end Deliveries

instance (db : StreamDb) (now : Int) (argv : List Bytes) : Decidable (XaddFollowed db now argv) := by
  unfold XaddFollowed
  split
  · infer_instance
  · split <;> infer_instance

/-- A command that a replica follows: not `XSETID`, with an ID for `XADD` that the replica accepts, and with a length
of the stream that a signed `MAXLEN` can hold. -/
def Followed (db : StreamDb) (call : Int64 × List Bytes) : Prop :=
  let s := (db.find? (argAt call.2 1)).getD streamNew
  match lookupCommand (argAt call.2 0) with
  | some .xsetid => False
  | some .xadd => XaddFollowed db call.1.toInt call.2 ∧ s.length + 1 < 2 ^ 63
  | some .xtrim => s.length < 2 ^ 63
  | _ => True

instance (db : StreamDb) (call : Int64 × List Bytes) : Decidable (Followed db call) := by
  unfold Followed
  simp only
  split <;> infer_instance

def masterStep (cfg : StreamConfig) (db : StreamDb) (call : Int64 × List Bytes) :
    Except Fault (StreamDb × List (List Bytes)) := do
  let r ← processStreamCommand cfg db call.1.toInt call.2
  .ok (r.db, r.feeds)

lemma processStreamCommand_replicated {call} (h : DbGood db) (hcall : Followed db call) :
    Sat OnlyFull (CmdResult.Replicated cfg db) (processStreamCommand cfg db call.1.toInt call.2) := by
  have hnow := longLong_toInt call.1
  rw [Followed] at hcall
  rw [processStreamCommand]
  cases hlookup : lookupCommand (argAt call.2 0) with
  | none => exact replicated_replyOnly h call.2 _
  | some cmd =>
    simp only
    split_ifs with harity
    · rw [hlookup] at hcall
      have hacc : Accepts cmd call.2 := ⟨hlookup, harity⟩
      cases cmd with
      | xadd => exact xaddCommand_replicated h hacc hcall.1 hcall.2
      | xdel => exact xdelCommand_replicated h hacc
      | xtrim =>
        refine xtrimCommand_replicated h hacc fun s hs => ?_
        rw [hs] at hcall
        exact hcall
      | xgroup => exact xgroupCommand_replicated h hacc
      | xsetid => exact hcall.elim
      | xack => exact xackCommand_replicated h hacc
      | xclaim => exact xclaimCommand_replicated hnow h
      | xread | xreadgroup => exact xreadCommand_replicated hnow h
    · exact replicated_replyOnly h call.2 _

section Runs

variable {calls : List (Int64 × List Bytes)} {db₀ : StreamDb}

lemma masterRun_replicated (h : DbGood db₀) (hcalls : Guarded (masterStep cfg) Followed db₀ calls) :
    Sat OnlyFull (fun r => DbGood r.1 ∧
        ∀ ticks, ∃ db', replayFeeds cfg ticks r.2.flatten db₀ = .ok db' ∧ SameDb r.1 db')
      (exec (masterStep cfg) db₀ calls) := by
  refine exec_trace (I := fun db feeds => DbGood db ∧
    ∀ ticks, ∃ db', replayFeeds cfg ticks feeds.flatten db₀ = .ok db' ∧ SameDb db db') ?_ []
    ⟨h, fun _ => ⟨db₀, rfl, h.same⟩⟩ hcalls
  rintro db feeds call ⟨good, replayed⟩ hcall
  refine (processStreamCommand_replicated good hcall).bind fun r hr => sat_ok.mpr ⟨hr.good, fun ticks => ?_⟩
  obtain ⟨db₁, hreplay, same⟩ := replayed ticks
  obtain ⟨db₂, hreplay', same'⟩ := hr.replay db₁ (fun i => ticks (i + feeds.flatten.length)) same
  refine ⟨db₂, ?_, same'⟩
  rw [flatten_append, flatten_singleton, replayFeeds_append, hreplay, ok_bind, hreplay']

def StreamDb.group (db : StreamDb) (key groupname : Bytes) : Option StreamCG :=
  (db.find? key).bind fun s => streamLookupCG s groupname

def SameOwners (cg cg' : StreamCG) : Prop := cg'.lastId = cg.lastId ∧ cg'.pendingOwner = cg.pendingOwner

lemma SameGroup.owners (h : SameGroup cg cg') : SameOwners cg cg' := by
  obtain ⟨g, shown, shown'⟩ := h
  exact ⟨shown'.1.trans shown.1.symm, shown'.pendingOwner_eq.trans shown.pendingOwner_eq.symm⟩

lemma SameDb.group (h : SameDb db db') (key groupname : Bytes) :
    Option.Rel SameOwners (db.group key groupname) (db'.group key groupname) := by
  rw [StreamDb.group, StreamDb.group]
  cases hs : db.find? key with
  | none =>
    rw [h.none hs]
    exact .none
  | some s =>
    obtain ⟨s', hs', same⟩ := h.stream hs
    rw [hs', bind_some, bind_some, streamLookupCG, streamLookupCG]
    cases hcg : s.cgroups.find? groupname with
    | none =>
      rw [same.none hcg]
      exact .none
    | some cg =>
      obtain ⟨cg', hcg', sameGroup⟩ := same.group hcg
      rw [hcg']
      exact .some sameGroup.owners

/-- A replica that executes what the master propagates has the same groups, whatever its own clock says. -/
theorem replicated_groups (cfg : StreamConfig) (before calls : List (Int64 × List Bytes)) (db₀ : StreamDb)
    (fed : List (List (List Bytes))) (hbefore : Guarded (masterStep cfg) Followed .empty before)
    (hinit : exec (masterStep cfg) .empty before = .ok (db₀, fed))
    (hcalls : Guarded (masterStep cfg) Followed db₀ calls) :
    Sat OnlyFull (fun r => ∀ ticks, ∃ db', replayFeeds cfg ticks r.2.flatten db₀ = .ok db' ∧
        ∀ key groupname, Option.Rel SameOwners (r.1.group key groupname) (db'.group key groupname))
      (exec (masterStep cfg) db₀ calls) := by
  have empty : DbGood .empty := fun _ _ h => (nomatch h)
  have init := masterRun_replicated empty hbefore
  rw [hinit] at init
  refine (masterRun_replicated init.1 hcalls).mono fun r hr ticks => ?_
  obtain ⟨db', hreplay, same⟩ := hr.2 ticks
  exact ⟨db', hreplay, same.group⟩

/-- Adding with a generated ID, trimming, reads with and without `NOACK`, and claims of entries that are pending, that
were acknowledged, and that were deleted. -/
def followedCalls : List (Int64 × List Bytes) :=
  [(5, [ascii "XADD", ascii "s", ascii "MAXLEN", ascii "~", ascii "10", ascii "*", ascii "a", ascii "1"]),
    (5, [ascii "XADD", ascii "s", ascii "*", ascii "a", ascii "2"]),
    (6, [ascii "XGROUP", ascii "CREATE", ascii "s", ascii "g", ascii "0"]),
    (7, [ascii "XREADGROUP", ascii "GROUP", ascii "g", ascii "c", ascii "COUNT", ascii "1", ascii "STREAMS", ascii "s",
      ascii ">"]),
    (8, [ascii "XREADGROUP", ascii "GROUP", ascii "g", ascii "d", ascii "NOACK", ascii "STREAMS", ascii "s",
      ascii ">"]),
    (9, [ascii "XDEL", ascii "s", ascii "5-0"]),
    (10, [ascii "XCLAIM", ascii "s", ascii "g", ascii "e", ascii "0", ascii "5-0", ascii "5-1", ascii "FORCE",
      ascii "LASTID", ascii "9-9"])]

theorem replicated_groups_sample :
    Guarded (masterStep ⟨4096, 100⟩) Followed .empty followedCalls ∧
    (exec (masterStep ⟨4096, 100⟩) .empty followedCalls).map (fun r => pendingOwners r.1 (ascii "s") (ascii "g")) =
      .ok [(ascii "5-0", some (ascii "e")), (ascii "5-1", some (ascii "e"))] ∧
    Sat OnlyFull (fun r => ∀ ticks, ∃ db', replayFeeds ⟨4096, 100⟩ ticks r.2.flatten .empty = .ok db' ∧
        ∀ key groupname, Option.Rel SameOwners (r.1.group key groupname) (db'.group key groupname))
      (exec (masterStep ⟨4096, 100⟩) .empty followedCalls) :=
  have guarded : Guarded (masterStep ⟨4096, 100⟩) Followed .empty followedCalls :=
    guarded_of_check (by decide +kernel)
  ⟨guarded, by decide +kernel, replicated_groups ⟨4096, 100⟩ [] followedCalls .empty [] trivial rfl guarded⟩

/-- A stream that was left empty by a refused `XADD`, and then a group for it. -/
def unfollowedCalls : List (Int64 × List Bytes) :=
  [(1, [ascii "XADD", ascii "s", ascii "0-0", ascii "a", ascii "1"]),
    (2, [ascii "XGROUP", ascii "CREATE", ascii "s", ascii "g", ascii "0"]),
    (3, [ascii "XADD", ascii "s", ascii "1-1", ascii "a", ascii "1"]),
    (4, [ascii "XREADGROUP", ascii "GROUP", ascii "g", ascii "c", ascii "STREAMS", ascii "s", ascii ">"])]

/-- The refused `XADD` is not propagated, so that the replica can not create the group. -/
theorem replica_misses_group :
    (exec (masterStep ⟨4096, 100⟩) .empty unfollowedCalls).map (fun r => pendingOwners r.1 (ascii "s") (ascii "g")) =
      .ok [(ascii "1-1", some (ascii "c"))] ∧
    (exec (masterStep ⟨4096, 100⟩) .empty unfollowedCalls >>= fun r =>
        replayFeeds ⟨4096, 100⟩ (fun _ => 9) r.2.flatten .empty).map
      (fun db => ((db.find? (ascii "s")).isSome, db.group (ascii "s") (ascii "g") |>.isSome)) = .ok (true, false) := by
  decide +kernel

end Runs

end JitRedis
