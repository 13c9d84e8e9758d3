import JitRedis.Aof.Rewrite
import JitRedis.Lib.DefUse
import JitRedis.Replication.Master

/-!
# Scripts in the replication stream and in the AOF

Model of the replication script cache: `evalGenericCommand` and `scriptCommand` of `src/scripting.c`, the cache itself,
`replicationFeedSlaves` and the changes of role of `src/replication.c`, and the rewrite of the AOF of `src/aof.c`, as
far as they matter for scripts. Scripts are replicated as a whole, a script is named by its SHA1, and the hashes of
different scripts differ.

The server records the stream of its replication history, the scripts it knew when the history began, and the replicas
of the history, which may come back with a `PSYNC`. No decision depends on these records, apart from what other servers
can do: a `PSYNC` comes from a replica of the history, and a master feeds an `EVALSHA` only if all replicas of the
history know the script.
-/

namespace JitRedis.Replication.Scripts

open DefUse

variable {S : Type} [DecidableEq S]

inductive Cmd (S : Type)
  | eval (x : S)
  | evalsha (x : S)
  | load (x : S)
  | flush
  | other
  deriving DecidableEq

def Cmd.effect : Cmd S → Effect S
  | .eval x | .load x => .define x
  | .evalsha x => .use x
  | .flush => .clear
  | .other => .skip

/-- A replica of the history: the scripts in its snapshot, and where that was taken. -/
structure Holder (S : Type) where
  base : List S
  start : Nat
  foreign : Bool
  deriving DecidableEq

/-- An attached replica; one that waits for a child to start has no snapshot yet. -/
structure Slave (S : Type) where
  id : Nat
  replstate : SlaveState
  holder : Option (Holder S)

/-- `repl_state`; a master has none. -/
inductive ReplState
  | none
  | connect
  | transfer
  | connected
  deriving DecidableEq

structure Server (S : Type) where
  luaScripts : List S
  /-- `repl_scriptcache_fifo`, the newest first -/
  scriptcache : List S
  replState : ReplState
  replBacklog : Bool
  slaves : List (Slave S)
  rdbChild : Bool
  aofState : AofState
  aofChild : Bool
  aof : List (Cmd S)
  aofRewriteBuf : List (Cmd S)
  /-- the commands of the replication history -/
  stream : List (Cmd S)
  /-- the scripts known to the server when the history began -/
  own : List S
  /-- the replicas of the history so far -/
  holders : List (Holder S)
  /-- where the part of the history that came from a master ends -/
  inherited : Option Nat

/-! ### The script cache -/

def replScriptcacheSize : Nat := 10000

def replicationScriptCacheAdd (cache : List S) (x : S) : List S :=
  x :: if cache.length = replScriptcacheSize then cache.dropLast else cache

def replicationScriptCacheFlush (sv : Server S) : Server S := { sv with scriptcache := [] }

/-! ### Commands -/

/-- A command vector to propagate, and whether it goes to the AOF and to the replicas. -/
structure Propagated (S : Type) where
  cmd : Cmd S
  toAof : Bool
  toRepl : Bool

/-- Run a command that changed the dataset or not, and forced its propagation or not. -/
def execute (sv : Server S) (cmd : Cmd S) (dirty force : Bool) : Server S × Option (Propagated S) :=
  match cmd with
  | .eval x => ({ sv with luaScripts := x :: sv.luaScripts }, some ⟨.eval x, dirty, dirty || force⟩)
  | .evalsha x =>
    if x ∉ sv.luaScripts then (sv, none)
    else if x ∈ sv.scriptcache then (sv, some ⟨.evalsha x, dirty, dirty || force⟩)
    else
      -- the replicas and the AOF learn the script
      ({ sv with scriptcache := replicationScriptCacheAdd sv.scriptcache x },
        some ⟨if dirty then .eval x else .load x, true, true⟩)
  | .load x => ({ sv with luaScripts := x :: sv.luaScripts }, some ⟨.load x, true, true⟩)
  | .flush => ({ replicationScriptCacheFlush sv with luaScripts := [] }, some ⟨.flush, true, true⟩)
  | .other => (sv, some ⟨.other, dirty, dirty || force⟩)

def feedAppendOnlyFile (sv : Server S) (cmd : Cmd S) : Server S :=
  { sv with
    aof := if sv.aofState = .on then sv.aof ++ [cmd] else sv.aof
    aofRewriteBuf := if sv.aofChild then sv.aofRewriteBuf ++ [cmd] else sv.aofRewriteBuf }

/-- `replicationFeedSlaves`: a replica propagates the stream of its master only. -/
def replicationFeedSlaves (sv : Server S) (cmd : Cmd S) : Server S :=
  if sv.replState ≠ .none ∨ sv.replBacklog = false then sv else { sv with stream := sv.stream ++ [cmd] }

def propagate (sv : Server S) : Option (Propagated S) → Server S
  | none => sv
  | some p =>
    let sv := if p.toAof ∧ sv.aofState ≠ .off then feedAppendOnlyFile sv p.cmd else sv
    if p.toRepl then replicationFeedSlaves sv p.cmd else sv

def call (sv : Server S) (cmd : Cmd S) (dirty force : Bool) : Server S :=
  propagate (execute sv cmd dirty force).1 (execute sv cmd dirty force).2

/-! ### Replicas -/

/-- `createReplicationBacklog`: a replication history begins. -/
def createReplicationBacklog (sv : Server S) : Server S := { sv with replBacklog := true, own := sv.luaScripts }

def ensureBacklog (sv : Server S) : Server S :=
  if sv.slaves.isEmpty ∧ sv.replBacklog = false then createReplicationBacklog sv else sv

/-- `freeReplicationBacklog`: nobody can resume the history, and the next backlog comes with a new replication ID. -/
def freeReplicationBacklog (sv : Server S) : Server S :=
  { sv with replBacklog := false, stream := [], own := [], holders := [], inherited := none }

/-- `startBgsaveForReplication`: the snapshot has the scripts of the server. -/
def startBgsaveForReplication (sv : Server S) (ok : Bool) : Server S :=
  if ok then
    let holder : Holder S := ⟨sv.luaScripts, sv.stream.length, false⟩
    replicationScriptCacheFlush
      { sv with
        rdbChild := true
        holders := holder :: sv.holders
        slaves := sv.slaves.map fun sl =>
          if sl.replstate = .waitBgsaveStart then ⟨sl.id, .waitBgsaveEnd, some holder⟩ else sl }
  else { sv with slaves := sv.slaves.filter fun sl => sl.replstate ≠ .waitBgsaveStart }

def updateSlavesWaitingBgsave (sv : Server S) (ok : Bool) : Server S :=
  { sv with
    rdbChild := false
    slaves := sv.slaves.filterMap fun sl =>
      if sl.replstate = .waitBgsaveEnd then if ok then some { sl with replstate := .online } else none else some sl }

/-! ### The AOF -/

def killAppendOnlyChild (sv : Server S) : Server S :=
  if sv.aofChild then { sv with aofChild := false, aofRewriteBuf := [] } else sv

def rewriteAppendOnlyFileBackground (sv : Server S) (forkOk : Bool) : Option (Server S) :=
  if sv.aofChild ∨ sv.rdbChild ∨ forkOk = false then none
  else some (replicationScriptCacheFlush { sv with aofChild := true })

/-- `backgroundRewriteDoneHandler`: the snapshot in the new file has no scripts. -/
def backgroundRewriteDoneHandler (sv : Server S) (ok : Bool) : Server S :=
  { sv with
    aofChild := false
    aofRewriteBuf := []
    aof := if ok ∧ sv.aofState ≠ .off then sv.aofRewriteBuf else sv.aof
    aofState := if ok ∧ sv.aofState = .waitRewrite then .on else sv.aofState }

def stopAppendOnly (sv : Server S) : Server S := killAppendOnlyChild { sv with aofState := .off }

/-- `startAppendOnly` once the file is open; without a rewrite the AOF stays off. -/
def startAppendOnly (sv : Server S) (forkOk : Bool) : Server S :=
  if sv.rdbChild then { sv with aofState := .waitRewrite }
  else
    match rewriteAppendOnlyFileBackground (killAppendOnlyChild sv) forkOk with
    | none => killAppendOnlyChild sv
    | some sv => { sv with aofState := .waitRewrite }

/-- Load the snapshot of a master, or some of its scripts before an error. -/
def loadSnapshot (sv : Server S) (scripts : List S) (ok : Bool) : Server S :=
  let sv := { sv with luaScripts := scripts ++ sv.luaScripts }
  if ok then { sv with replState := .connected, replBacklog := true, own := scripts, inherited := some 0 }
  else { sv with replState := .connect }

/-- `readSyncBulkPayload` at the end of the file: the AOF is off while the snapshot is loaded. -/
def readSyncBulkPayload (sv : Server S) (scripts : List S) (ok : Bool) : Server S :=
  if sv.aofState = .off then loadSnapshot sv scripts ok
  else startAppendOnly (loadSnapshot (stopAppendOnly sv) scripts ok) true

/-! ### Runs -/

inductive Event (S : Type)
  | client (cmd : Cmd S) (dirty force : Bool)
  | master (cmd : Cmd S) (dirty force : Bool)
  /-- the part of `replicationCron` that flushes the cache -/
  | cron
  /-- a replica asks for a full resynchronization and waits -/
  | attach (id : Nat)
  | startBgsave (ok : Bool)
  | join (id : Nat)
  /-- a `BGSAVE` for no replica -/
  | bgsave
  | bgsaveDone (ok : Bool)
  | disconnect (id : Nat)
  | resume (id : Nat) (holder : Holder S) (offset : Nat)
  | freeBacklog
  | replicaof
  | replicaofNoOne
  | masterLost
  /-- `+CONTINUE`, perhaps with another replication ID -/
  | continued (idChanged : Bool)
  /-- `+FULLRESYNC` -/
  | fullResync
  /-- the snapshot of the master has been received -/
  | loaded (scripts : List S) (ok : Bool)
  | startAppendOnly (forkOk : Bool)
  | stopAppendOnly
  | rewrite (forkOk : Bool)
  | rewriteDone (ok : Bool)

/-- The master feeds a script by its hash only if this server and all replicas that come from other servers know it. -/
def masterKnows (sv : Server S) (cmd : Cmd S) : Bool :=
  allowed (known Cmd.effect sv.own sv.stream) cmd.effect &&
    sv.holders.all fun h => !h.foreign || allowed (known Cmd.effect h.base (sv.stream.drop h.start)) cmd.effect

/-- A replica that got its snapshot from another server: the history was inherited when the snapshot was taken, the
snapshot had the scripts that the history had defined, and the replica knows what the former master fed. -/
def foreignHolder (sv : Server S) (h : Holder S) : Bool :=
  sv.inherited.any fun inherited =>
    h.foreign && h.start ≤ inherited && (known Cmd.effect [] (sv.stream.take h.start)).all (· ∈ h.base) &&
      closed Cmd.effect h.base ((sv.stream.take inherited).drop h.start)

/-- `SYNC` and `PSYNC` are served by a master, and by a replica that has a master. -/
def servesSync (sv : Server S) (id : Nat) : Bool :=
  (sv.replState = .none || sv.replState = .connected) && sv.slaves.all fun sl => sl.id ≠ id

def scriptsStep (sv : Server S) : Event S → Option (Server S)
  | .client cmd dirty force => some (call sv cmd dirty force)
  | .master cmd dirty force =>
    if sv.replState = .connected ∧ masterKnows sv cmd then
      let sv := call sv cmd dirty force
      -- `replicationFeedSlavesFromMasterStream`
      some { sv with stream := sv.stream ++ [cmd], inherited := some (sv.stream.length + 1) }
    else none
  | .cron =>
    if sv.slaves.isEmpty ∧ sv.aofState = .off then some (replicationScriptCacheFlush sv) else none
  | .attach id =>
    if servesSync sv id then
      some { ensureBacklog sv with slaves := (ensureBacklog sv).slaves ++ [⟨id, .waitBgsaveStart, none⟩] }
    else none
  | .startBgsave ok =>
    if sv.rdbChild ∨ sv.aofChild ∨ sv.replBacklog = false then none else some (startBgsaveForReplication sv ok)
  | .join id =>
    if servesSync sv id then
      (sv.slaves.find? fun sl => sl.replstate = .waitBgsaveEnd).map fun sl =>
        { sv with slaves := sv.slaves ++ [⟨id, .waitBgsaveEnd, sl.holder⟩] }
    else none
  | .bgsave => if sv.rdbChild ∨ sv.aofChild then none else some { sv with rdbChild := true }
  | .bgsaveDone ok => if sv.rdbChild then some (updateSlavesWaitingBgsave sv ok) else none
  | .disconnect id => some { sv with slaves := sv.slaves.filter fun sl => sl.id ≠ id }
  | .resume id h offset =>
    if servesSync sv id ∧ sv.replBacklog ∧ h.start ≤ offset ∧ offset ≤ sv.stream.length ∧
        (h ∈ sv.holders ∨ foreignHolder sv h) then
      some { sv with holders := h :: sv.holders, slaves := sv.slaves ++ [⟨id, .online, some h⟩] }
    else none
  | .freeBacklog =>
    if sv.slaves.isEmpty ∧ sv.replState = .none then some (freeReplicationBacklog sv) else none
  | .replicaof => some { sv with replState := .connect, slaves := [] }
  | .replicaofNoOne => if sv.replState = .none then none else some { sv with replState := .none, slaves := [] }
  | .masterLost => if sv.replState = .none then none else some { sv with replState := .connect }
  | .continued idChanged =>
    -- without a backlog, nobody else has the replication ID
    if sv.replState = .connect ∧ sv.replBacklog then
      some
        { sv with
          replState := .connected
          inherited := some sv.stream.length
          slaves := if idChanged then [] else sv.slaves }
    else none
  | .fullResync =>
    if sv.replState = .connect then
      some { freeReplicationBacklog sv with replState := .transfer, slaves := [] }
    else none
  | .loaded scripts ok =>
    if sv.replState = .transfer then some (readSyncBulkPayload sv scripts ok) else none
  | .startAppendOnly forkOk => if sv.aofState = .off then some (startAppendOnly sv forkOk) else none
  | .stopAppendOnly => if sv.aofState = .off then none else some (stopAppendOnly sv)
  | .rewrite forkOk => rewriteAppendOnlyFileBackground sv forkOk
  | .rewriteDone ok => if sv.aofChild then some (backgroundRewriteDoneHandler sv ok) else none

/-- A server that has just started, with or without an AOF. -/
def scriptsStart (aofState : AofState) : Server S where
  luaScripts := []
  scriptcache := []
  replState := .none
  replBacklog := false
  slaves := []
  rdbChild := false
  aofState := aofState
  aofChild := false
  aof := []
  aofRewriteBuf := []
  stream := []
  own := []
  holders := []
  inherited := none

end JitRedis.Replication.Scripts
