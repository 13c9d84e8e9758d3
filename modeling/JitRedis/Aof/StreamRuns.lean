import JitRedis.Aof.RewriteStream

/-!
# Streams that commands can make, rewritten

Every stream that a run of stream commands can make, `XSETID` among them, has its live entries in order and consistent
groups, so that it can be rewritten. What is lost are pending entries whose entry was deleted or trimmed, and delivery
counts that are not positive as a `long long`.
-/

namespace JitRedis

open Fallible

def HasNextID (db : StreamDb) (call : Int64 × List Bytes) : Prop :=
  lookupCommand (argAt call.2 0) = some .xadd →
    ∀ args, xaddParse 2 (call.2.drop 2) ⟨-1, false, 0⟩ = .ok args → args.id = none →
      let lastId := ((db.find? (argAt call.2 1)).getD streamNew).lastId
      lastId.ms < UInt64.ofInt call.1.toInt ∨ lastId.seq ≠ -1

instance (db : StreamDb) (call : Int64 × List Bytes) : Decidable (HasNextID db call) :=
  match hparse : xaddParse 2 (call.2.drop 2) ⟨-1, false, 0⟩ with
  | .error _ => .isTrue fun _ args hargs => by
      rw [hparse] at hargs
      cases hargs
  | .ok args => decidable_of_iff (lookupCommand (argAt call.2 0) = some .xadd → args.id = none →
        ((db.find? (argAt call.2 1)).getD streamNew).lastId.ms < UInt64.ofInt call.1.toInt ∨
          ((db.find? (argAt call.2 1)).getD streamNew).lastId.seq ≠ -1) (by
      constructor
      · intro h hcmd args' hargs' hid
        rw [hparse] at hargs'
        cases hargs'
        exact h hcmd hid
      · intro h hcmd hid
        exact h hcmd args hparse hid)

variable {cfg : StreamConfig} {db : StreamDb} {s : Stream} {argv : List Bytes} {now : Int}

abbrev KeepsGood (r : CmdResult) : Prop := DbGood r.db

lemma xaddCommand_good (h : DbGood db)
    (hnext : ∀ args, xaddParse 2 (argv.drop 2) ⟨-1, false, 0⟩ = .ok args → args.id = none →
      ((db.find? (argAt argv 1)).getD streamNew).lastId.ms < UInt64.ofInt now ∨
        ((db.find? (argAt argv 1)).getD streamNew).lastId.seq ≠ -1) :
    Sat OnlyFull KeepsGood (xaddCommand cfg db now argv) := by
  rw [xaddCommand]
  cases hparse : xaddParse 2 (argv.drop 2) ⟨-1, false, 0⟩ with
  | error reply => exact h
  | ok args =>
    simp only
    split
    · exact h
    rename_i hfields
    have good := h.getD (argAt argv 1)
    obtain ⟨nodes, order⟩ := good.order
    refine (order.append cfg (fieldPairs_ne_nil hfields).2 args.id (UInt64.ofInt now)
      (hnext args hparse)).bind fun r hr => ?_
    obtain ⟨s₁, appended⟩ := r
    rcases hr with ⟨heq, -⟩ | ⟨id, nodes₁, same, rfl, -, -, order₁, hgroups₁, -⟩
    · cases heq
      exact h.insert good
    · refine (xaddTrim_good order₁ args.trim).bind fun r hr => ?_
      obtain ⟨order₂, hgroups₂, -⟩ := hr
      exact h.insert (good.of_groups order₂ (hgroups₂.trans hgroups₁))

lemma xtrimCommand_good (h : DbGood db) : Sat OnlyFull KeepsGood (xtrimCommand db argv) := by
  rw [xtrimCommand]
  split
  · exact h
  rename_i s hs
  split
  · exact h
  · exact h
  · obtain ⟨nodes, order⟩ := (h.stream hs).order
    refine (order.trim _ _).bind fun r hr => ?_
    obtain ⟨nodes', order', hgroups, -⟩ := hr
    exact h.insert ((h.stream hs).of_groups ⟨nodes', order'⟩ hgroups)

lemma xsetidCommand_good (h : DbGood db) : Sat OnlyFull KeepsGood (xsetidCommand db argv) := by
  rw [xsetidCommand]
  split
  · exact h
  rename_i s hs
  split
  · exact h
  rename_i id _
  obtain ⟨nodes, order⟩ := (h.stream hs).order
  obtain ⟨top, htop, -, hmax⟩ := order.xsetidTop
  rw [htop, ok_bind]
  split
  · exact h
  rename_i hge
  have bounded : ∀ i ∈ liveItems nodes, i.id ≤ id := by
    intro i hi
    obtain ⟨maxid, hm, hle⟩ := hmax i hi
    rw [hm, Option.any_some, decide_eq_true_eq, streamCompareID_neg, not_lt] at hge
    exact hle.trans hge
  refine h.insert ((h.stream hs).of_groups ⟨nodes, ?_⟩ rfl)
  exact ⟨order.renders, order.ordered, bounded, order.length, order.filled, order.positive⟩

lemma keepsGood_of_replicated {x} (cfg : StreamConfig)
    (h : Sat OnlyFull (CmdResult.Replicated cfg db) x) : Sat OnlyFull KeepsGood x := h.mono fun _ hr => hr.good

lemma processStreamCommand_good {call} (h : DbGood db) (hcall : HasNextID db call) :
    Sat OnlyFull KeepsGood (processStreamCommand cfg db call.1.toInt call.2) := by
  have hnow := longLong_toInt call.1
  rw [processStreamCommand]
  split
  · exact h
  rename_i cmd hlookup
  split
  · rename_i harity
    have hacc : Accepts cmd call.2 := ⟨hlookup, harity⟩
    cases cmd with
    | xadd => exact xaddCommand_good h (hcall hlookup)
    | xdel => exact keepsGood_of_replicated cfg (xdelCommand_replicated h hacc)
    | xtrim => exact xtrimCommand_good h
    | xgroup => exact keepsGood_of_replicated cfg (xgroupCommand_replicated h hacc)
    | xsetid => exact xsetidCommand_good h
    | xack => exact keepsGood_of_replicated cfg (xackCommand_replicated h hacc)
    | xclaim => exact keepsGood_of_replicated cfg (xclaimCommand_replicated hnow h)
    | xread | xreadgroup => exact keepsGood_of_replicated cfg (xreadCommand_replicated hnow h)
  · exact h

lemma streamCommands_good {calls}
    (hcalls : Guarded (streamCommandStep cfg) HasNextID .empty calls) :
    Sat OnlyFull (fun r => DbGood r.1) (exec (streamCommandStep cfg) .empty calls) := by
  refine exec_invariant (fun db call h hcall => ?_) (fun _ _ h => (nomatch h)) hcalls
  exact (processStreamCommand_good h hcall).bind fun r hr => hr

/-- The commands that a stream is rewritten to, executed where there is no such key, rebuild a stream with the same value
exactly if the pending entries can be loaded. -/
theorem rewriteStreamObject_lossless (cfg : StreamConfig) (calls : List (Int64 × List Bytes))
    (hcalls : Guarded (streamCommandStep cfg) HasNextID .empty calls) :
    Sat OnlyFull (fun r => ∀ key s, r.1.find? key = some s →
        ∃ cmds, rewriteStreamObject key s = .ok cmds ∧ ∀ cfg' db ticks, db.find? key = none → s.HasRoom cfg' →
          ∃ s', replayFeeds cfg' ticks cmds db = .ok (db.insert key s') ∧ (s.SameValue s' ↔ s.Loadable))
      (exec (streamCommandStep cfg) .empty calls) := by
  exact (streamCommands_good hcalls).mono fun r hr key s hs => (hr.stream hs).rewritten key

/-- A stream with a deleted entry, a group with a claimed entry, and a last ID above the entries. -/
def rewrittenCalls : List (Int64 × List Bytes) :=
  [(1, [ascii "XADD", ascii "s", ascii "*", ascii "a", ascii "1"]),
    (2, [ascii "XADD", ascii "s", ascii "*", ascii "a", ascii "2"]),
    (3, [ascii "XADD", ascii "s", ascii "*", ascii "b", ascii "3"]),
    (4, [ascii "XGROUP", ascii "CREATE", ascii "s", ascii "g", ascii "0"]),
    (5, [ascii "XDEL", ascii "s", ascii "3-0"]),
    (6, [ascii "XREADGROUP", ascii "GROUP", ascii "g", ascii "c", ascii "STREAMS", ascii "s", ascii ">"]),
    (7, [ascii "XCLAIM", ascii "s", ascii "g", ascii "d", ascii "0", ascii "2-0", ascii "RETRYCOUNT", ascii "7"]),
    (8, [ascii "XSETID", ascii "s", ascii "9-9"])]

/-- The number of entries, the last ID and the pending entries of a group. -/
structure StreamView where
  entries : Nat
  lastId : StreamID
  pending : List (Bytes × Option Bytes)
  deriving DecidableEq

def streamView (db : StreamDb) : Except Fault StreamView := do
  let s := (db.find? (ascii "s")).getD streamNew
  let entries ← streamRange s none none false
  .ok ⟨entries.length, s.lastId, pendingOwners db (ascii "s") (ascii "g")⟩

def rewrittenViews (calls : List (Int64 × List Bytes)) : Except Fault (StreamView × StreamView) := do
  let (db, _) ← exec (streamCommandStep ⟨4096, 100⟩) .empty calls
  let s := (db.find? (ascii "s")).getD streamNew
  let cmds ← rewriteStreamObject (ascii "s") s
  let db' ← replayFeeds ⟨4096, 100⟩ (fun _ => 50) cmds .empty
  let before ← streamView db
  let after ← streamView db'
  .ok (before, after)

theorem rewriteStreamObject_lossless_sample :
    Guarded (streamCommandStep ⟨4096, 100⟩) HasNextID .empty rewrittenCalls ∧
    rewrittenViews rewrittenCalls =
      .ok (⟨2, ⟨9, 9⟩, [(ascii "1-0", some (ascii "c")), (ascii "2-0", some (ascii "d"))]⟩,
        ⟨2, ⟨9, 9⟩, [(ascii "1-0", some (ascii "c")), (ascii "2-0", some (ascii "d"))]⟩) ∧
    Sat OnlyFull (fun r => ∀ key s, r.1.find? key = some s →
        ∃ cmds, rewriteStreamObject key s = .ok cmds ∧ ∀ cfg' db ticks, db.find? key = none → s.HasRoom cfg' →
          ∃ s', replayFeeds cfg' ticks cmds db = .ok (db.insert key s') ∧ (s.SameValue s' ↔ s.Loadable))
      (exec (streamCommandStep ⟨4096, 100⟩) .empty rewrittenCalls) :=
  have guarded : Guarded (streamCommandStep ⟨4096, 100⟩) HasNextID .empty rewrittenCalls :=
    guarded_of_check (by decide +kernel)
  ⟨guarded, by decide +kernel, rewriteStreamObject_lossless ⟨4096, 100⟩ rewrittenCalls guarded⟩

def deletedCalls : List (Int64 × List Bytes) :=
  [(1, [ascii "XADD", ascii "s", ascii "1-1", ascii "a", ascii "1"]),
    (2, [ascii "XGROUP", ascii "CREATE", ascii "s", ascii "g", ascii "0"]),
    (3, [ascii "XREADGROUP", ascii "GROUP", ascii "g", ascii "c", ascii "STREAMS", ascii "s", ascii ">"]),
    (4, [ascii "XDEL", ascii "s", ascii "1-1"])]

/-- The pending entry is not rebuilt, since `XCLAIM` does not create one for an entry that does not exist. -/
theorem rewriteStreamObject_drops_pending :
    rewrittenViews deletedCalls = .ok (⟨0, ⟨1, 1⟩, [(ascii "1-1", some (ascii "c"))]⟩, ⟨0, ⟨1, 1⟩, []⟩) := by
  decide +kernel

end JitRedis
