import JitRedis.Lib.RingBuffer
import JitRedis.Lib.Runs
import JitRedis.Replication.Encoding

/-!
# Replicas of a master

Model of the master's side of `src/replication.c`: the backlog, `replicationFeedSlaves`, `syncCommand` with the ways to
attach a replica, `startBgsaveForReplication`, and what happens to waiting replicas when a child that saves the dataset
ends. `src/rdb.c` contributes the children, and `flushallCommand` and `saveCommand`, which write the same file as they.

Output buffers are kept as a whole: a replica is sent from its buffer only when it is online, and others copy the buffer
of a replica only before. The master records what it has fed to the backlog since its start, and for each replica and
for the file of the dataset at which offset the snapshot was forked; no decision depends on these records.
-/

namespace JitRedis.Replication

open Runs

/-- An argument vector: `argc` is an `int`, and the objects are valid. -/
structure Argv where
  objs : List StringObject
  length_lt : objs.length < 2 ^ 31
  valid : ∀ o ∈ objs, o.Valid

/-- What is fed to the replication stream: a `SELECT`, or a command. -/
inductive Item
  | select (dictid : Int)
  | command (argv : Argv)

def Item.text : Item → Bytes
  | .select dictid => selectcmd dictid
  | .command argv => argvText argv.objs

def streamText (items : List Item) : Bytes := items.flatMap Item.text

inductive SlaveState
  | waitBgsaveStart
  | waitBgsaveEnd
  | sendBulk
  | online
  deriving DecidableEq

/-- `slave_capa` -/
structure Capa where
  eof : Bool
  psync2 : Bool
  deriving DecidableEq

def Capa.inter (c d : Capa) : Capa := ⟨c.eof && d.eof, c.psync2 && d.psync2⟩

/-- Where a dataset in the file comes from: a child forked at an offset, or a save in the server itself. -/
inductive Snapshot
  | forked (offset : Nat)
  | saved
  deriving DecidableEq

structure Slave where
  id : Nat
  capa : Capa
  /-- `CLIENT_PRE_PSYNC`: the replica used `SYNC` -/
  prePsync : Bool
  replstate : SlaveState
  psyncInitialOffset : Nat
  /-- all that was ever added to the output buffer -/
  out : Bytes
  /-- `CLIENT_CLOSE_ASAP` -/
  closeAsap : Bool
  /-- the replication ID and the offset of the last `+FULLRESYNC` -/
  told : Option (Nat × Nat)
  /-- the snapshot that the replica is sent or was sent -/
  snapshot : Option Snapshot
  /-- the offset after which a partial resynchronization continued -/
  resumed : Option Nat

/-- `rdb_child_type` -/
inductive ChildType
  | disk
  | socket
  deriving DecidableEq

/-- The child that saves the dataset, where it was forked, and whether it waits for `wait3`. -/
structure Child where
  type : ChildType
  offset : Nat
  exited : Option Bool
  deriving DecidableEq

/-- `repl_backlog` and `repl_backlog_off` -/
structure Backlog where
  ring : RingBuffer UInt8
  off : Nat

structure Master where
  /-- replication IDs are drawn one after the other -/
  replid : Nat
  masterReplOffset : Nat
  replBacklogSize : Nat
  replBacklog : Option Backlog
  slaves : List Slave
  slaveseldb : Int
  rdbChild : Option Child
  aofChild : Bool
  replDisklessSync : Bool
  /-- the snapshot in `rdb_filename` -/
  rdbFile : Option Snapshot
  /-- all that was fed to the backlog -/
  stream : List Item

/-! ### Feeding the stream -/

/-- An empty backlog: the first byte it has is the next byte of the stream. -/
def createReplicationBacklog (size offset : Nat) : Backlog := ⟨⟨List.replicate size 0, size, 0, 0⟩, offset + 1⟩

def feedReplicationBacklog (m : Master) (data : Bytes) : Except Fault Master :=
  match m.replBacklog with
  | none => .error .badAccess
  | some backlog =>
    match backlog.ring.write data with
    | none => .error .diverged
    | some ring =>
      let offset := m.masterReplOffset + data.length
      .ok { m with masterReplOffset := offset, replBacklog := some ⟨ring, offset - ring.histlen + 1⟩ }

/-- Add to the output buffer of every replica that does not wait for a child to start. -/
def Slave.feed (text : Bytes) (sl : Slave) : Slave :=
  if sl.replstate = .waitBgsaveStart then sl else { sl with out := sl.out ++ text }

/-- Feed the backlog with some pieces, and the replicas with a text. -/
def feed (m : Master) (pieces : List Bytes) (text : Bytes) (item : Item) : Except Fault Master := do
  let m ← pieces.foldlM feedReplicationBacklog m
  return { m with slaves := m.slaves.map (Slave.feed text), stream := m.stream ++ [item] }

/-- The `SELECT` before a command in another database than the last. -/
def feedSelect (m : Master) (dictid : Int) : Except Fault Master :=
  if m.slaveseldb ≠ dictid then feed m [selectcmd dictid] (selectcmd dictid) (.select dictid) else .ok m

def replicationFeedSlaves (m : Master) (dictid : Int) (argv : Argv) : Except Fault Master :=
  if m.replBacklog.isNone then if m.slaves.isEmpty then .ok m else .error .assertFailed
  else do
    let m ← feedSelect m dictid
    feed { m with slaveseldb := dictid } (backlogPieces argv.objs) (slaveText argv.objs) (.command argv)

/-! ### Starting a child for replication -/

/-- How starting a child goes: whether `pipe` and `fork` succeed, and to which replicas `+FULLRESYNC` can be written. -/
structure Fork where
  pipeOk : Bool
  ok : Bool
  writeOk : Nat → Bool

/-- `replicationSetupSlaveForFullResync`, what it does to the replica. -/
def Slave.setupForFullResync (sl : Slave) (replid offset : Nat) (writeOk : Bool) : Slave :=
  { sl with
    psyncInitialOffset := offset
    replstate := .waitBgsaveEnd
    told := if sl.prePsync || !writeOk then sl.told else some (replid, offset)
    closeAsap := sl.closeAsap || (!sl.prePsync && !writeOk) }

def Slave.waiting (sl : Slave) : Bool := sl.replstate = .waitBgsaveStart

def setupWaitingSlaves (m : Master) (writeOk : Nat → Bool) : Master :=
  { m with
    slaves := m.slaves.map fun sl =>
      if sl.waiting then sl.setupForFullResync m.replid m.masterReplOffset (writeOk sl.id) else sl
    slaveseldb := if m.slaves.any Slave.waiting then -1 else m.slaveseldb }

def dropWaitingSlaves (m : Master) : Master := { m with slaves := m.slaves.filter fun sl => !sl.waiting }

/-- `startBgsaveForReplication` with `rdbSaveToSlavesSockets` and `rdbSaveBackground`. -/
def startBgsaveForReplication (m : Master) (mincapa : Capa) (fk : Fork) : Master :=
  if m.replBacklog.isNone || m.aofChild || m.rdbChild.isSome then dropWaitingSlaves m
  else if m.replDisklessSync && mincapa.eof then
    if !fk.pipeOk then dropWaitingSlaves m
    else if fk.ok then
      { setupWaitingSlaves m fk.writeOk with rdbChild := some ⟨.socket, m.masterReplOffset, none⟩ }
    else
      -- the replicas were set up before the fork, and are set back and dropped
      { dropWaitingSlaves m with slaveseldb := (setupWaitingSlaves m fk.writeOk).slaveseldb }
  else if fk.ok then { setupWaitingSlaves m fk.writeOk with rdbChild := some ⟨.disk, m.masterReplOffset, none⟩ }
  else dropWaitingSlaves m

/-- What all waiting replicas are capable of. -/
def mincapa (m : Master) : Capa := (m.slaves.filter Slave.waiting).foldl (fun c sl => c.inter sl.capa) ⟨true, true⟩

/-! ### Attaching a replica -/

/-- A `SYNC`, or a `PSYNC` with a replication ID and an offset, of a client. -/
structure SyncRequest where
  id : Nat
  capa : Capa
  psync : Option (Nat × Int)

/-- `masterTryPartialResynchronization`: whether the offset asked for is in the backlog. -/
def acceptsOffset (m : Master) (psync : Nat × Int) : Bool :=
  match m.replBacklog with
  | none => false
  | some backlog =>
    psync.1 = m.replid ∧ backlog.off ≤ psync.2 ∧ psync.2 ≤ backlog.off + backlog.ring.histlen

def addReplyReplicationBacklog (backlog : Backlog) (offset : Nat) : Except Fault Bytes :=
  if backlog.ring.histlen = 0 then .ok []
  else
    match backlog.ring.read (offset - backlog.off) with
    | none => .error .diverged
    | some data => .ok data

/-- A replica that attaches: waiting for a child to start, with an empty output buffer. -/
def SyncRequest.slave (req : SyncRequest) : Slave where
  id := req.id
  capa := req.capa
  prePsync := req.psync.isNone
  replstate := .waitBgsaveStart
  psyncInitialOffset := 0
  out := []
  closeAsap := false
  told := none
  snapshot := none
  resumed := none

/-- A partial resynchronization; nothing is queued for a replica that cannot be told to continue. -/
def resumeSlave (m : Master) (backlog : Backlog) (req : SyncRequest) (offset : Nat) (writeOk : Bool) :
    Except Fault Master := do
  let out ← if writeOk then addReplyReplicationBacklog backlog offset else .ok []
  let sl : Slave :=
    { req.slave with replstate := .online, out := out, closeAsap := !writeOk, resumed := some (offset - 1) }
  return { m with slaves := m.slaves ++ [sl] }

/-- Create the backlog for the first replica, with a new replication ID. -/
def ensureBacklog (m : Master) : Master :=
  if m.slaves.isEmpty && m.replBacklog.isNone then
    { m with
      replid := m.replid + 1
      replBacklog := some (createReplicationBacklog m.replBacklogSize m.masterReplOffset) }
  else m

/-- The first replica that waits for the child, if the new one has all its capabilities. -/
def joinable (m : Master) (capa : Capa) : Option Slave :=
  (m.slaves.find? fun sl => sl.replstate = .waitBgsaveEnd).filter fun sl => capa.inter sl.capa = sl.capa

/-- The full resynchronization of `syncCommand`. -/
def fullResync (m : Master) (req : SyncRequest) (fk : Fork) : Master :=
  let m := ensureBacklog m
  let waits := { m with slaves := m.slaves ++ [req.slave] }
  match m.rdbChild with
  | some ⟨.disk, _, _⟩ =>
    match joinable m req.capa with
    | some other =>
      let sl := { req.slave with out := other.out }.setupForFullResync m.replid other.psyncInitialOffset (fk.writeOk req.id)
      { m with slaves := m.slaves ++ [sl], slaveseldb := -1 }
    | none => waits
  | some ⟨.socket, _, _⟩ => waits
  | none =>
    if m.replDisklessSync && req.capa.eof then waits
    else if m.aofChild then waits
    else startBgsaveForReplication waits req.capa fk

def syncCommand (m : Master) (req : SyncRequest) (fk : Fork) : Except Fault Master :=
  if m.slaves.any fun sl => sl.id = req.id then .ok m
  else
    match req.psync, m.replBacklog with
    | some psync, some backlog =>
      if acceptsOffset m psync then resumeSlave m backlog req psync.2.toNat (fk.writeOk req.id)
      else .ok (fullResync m req fk)
    | _, _ => .ok (fullResync m req fk)

/-! ### The end of a child -/

/-- How the end of a child is handled: which replicas received all of a snapshot sent by the child itself, for which
the file can be opened, and how the next child starts. -/
structure Reaped where
  okSlaves : Nat → Bool
  openOk : Nat → Bool
  fork : Fork

/-- `backgroundSaveDoneHandlerSocket` and `updateSlavesWaitingBgsave` for one replica; it may be freed. -/
def Slave.bgsaveDone (sl : Slave) (type : ChildType) (offset : Nat) (ok : Bool) (file : Option Snapshot) (rp : Reaped) :
    Option Slave :=
  if sl.replstate = .waitBgsaveEnd then
    match type with
    | .socket =>
      if ok && rp.okSlaves sl.id then some { sl with replstate := .online, snapshot := some (.forked offset) } else none
    | .disk => if ok && rp.openOk sl.id then some { sl with replstate := .sendBulk, snapshot := file } else none
  else some sl

/-- `backgroundSaveDoneHandler` and `updateSlavesWaitingBgsave`. -/
def backgroundSaveDoneHandler (m : Master) (ch : Child) (ok : Bool) (rp : Reaped) : Master :=
  let m :=
    { m with
      rdbChild := none
      slaves := m.slaves.filterMap fun sl => sl.bgsaveDone ch.type ch.offset ok m.rdbFile rp }
  if m.slaves.any Slave.waiting then startBgsaveForReplication m (mincapa m) rp.fork else m

/-! ### Runs -/

def pingArgv : Argv := ⟨[.raw (ascii "PING")], by decide, by simp [StringObject.Valid, ascii]⟩

/-- `REPLCONF GETACK *` -/
def getackArgv : Argv :=
  ⟨[.raw (ascii "REPLCONF"), .raw (ascii "GETACK"), .raw (ascii "*")], by decide, by simp [StringObject.Valid, ascii]⟩

def flushallArgv : Argv := ⟨[.raw (ascii "FLUSHALL")], by decide, by simp [StringObject.Valid, ascii]⟩

def CONFIG_REPL_BACKLOG_MIN_SIZE : Nat := 16384

inductive Event
  | propagate (dictid : Nat) (argv : Argv)
  /-- the `PING` of `replicationCron`, or a request for acknowledgements -/
  | keepalive (getack : Bool)
  /-- a `FLUSHALL`, which saves the dataset when there are save points -/
  | flushall (dictid : Nat) (savePoints : Bool)
  | save
  | bgsave (forkOk : Bool)
  | sync (req : SyncRequest) (fk : Fork)
  | childExits (ok : Bool)
  | reap (rp : Reaped)
  /-- the part of `replicationCron` that starts a child -/
  | cronStart (delayPassed : Bool) (fk : Fork)
  | bulkSent (id : Nat)
  | disconnect (id : Nat)
  | freeBacklog
  | resizeBacklog (newsize : Nat)
  | setDisklessSync (on : Bool)
  | setAofChild (on : Bool)

/-- `flushallCommand`: it kills a child that is still running, and may save the dataset itself. -/
def flushallCommand (m : Master) (savePoints : Bool) : Master :=
  { m with
    rdbChild := m.rdbChild.map fun ch => if ch.exited = none then { ch with exited := some false } else ch
    rdbFile := if savePoints then some .saved else m.rdbFile }

/-- The child ends; with success it has renamed its file. -/
def childExits (m : Master) (ok : Bool) : Master :=
  match m.rdbChild with
  | some ⟨type, offset, none⟩ =>
    { m with
      rdbChild := some ⟨type, offset, some ok⟩
      rdbFile := if ok && type = .disk then some (.forked offset) else m.rdbFile }
  | _ => m

/-- `serverCron`: `wait3` returns a child that has ended. -/
def reap (m : Master) (rp : Reaped) : Master :=
  match m.rdbChild with
  | some ⟨type, offset, some ok⟩ => backgroundSaveDoneHandler m ⟨type, offset, some ok⟩ ok rp
  | _ => m

def resizeReplicationBacklog (m : Master) (newsize : Nat) : Master :=
  let size := max newsize CONFIG_REPL_BACKLOG_MIN_SIZE
  if m.replBacklogSize = size then m
  else
    { m with
      replBacklogSize := size
      replBacklog := m.replBacklog.map fun _ => createReplicationBacklog size m.masterReplOffset }

def masterStep (m : Master) : Event → Except Fault Master
  | .propagate dictid argv => replicationFeedSlaves m dictid argv
  | .keepalive getack =>
    if getack then replicationFeedSlaves m m.slaveseldb getackArgv
    else if m.slaves.isEmpty then .ok m else replicationFeedSlaves m m.slaveseldb pingArgv
  | .flushall dictid savePoints => replicationFeedSlaves (flushallCommand m savePoints) dictid flushallArgv
  | .save => .ok (if m.rdbChild.isSome then m else { m with rdbFile := some .saved })
  | .bgsave forkOk =>
    .ok (if m.rdbChild.isSome || m.aofChild || !forkOk then m
      else { m with rdbChild := some ⟨.disk, m.masterReplOffset, none⟩ })
  | .sync req fk => syncCommand m req fk
  | .childExits ok => .ok (childExits m ok)
  | .reap rp => .ok (reap m rp)
  | .cronStart delayPassed fk =>
    .ok (if m.rdbChild.isNone && !m.aofChild && m.slaves.any Slave.waiting && (!m.replDisklessSync || delayPassed) then
        startBgsaveForReplication m (mincapa m) fk
      else m)
  | .bulkSent id =>
    .ok { m with slaves := m.slaves.map fun sl =>
      if sl.id = id ∧ sl.replstate = .sendBulk then { sl with replstate := .online } else sl }
  | .disconnect id => .ok { m with slaves := m.slaves.filter fun sl => sl.id ≠ id }
  | .freeBacklog =>
    .ok (if m.slaves.isEmpty && m.replBacklog.isSome then { m with replid := m.replid + 1, replBacklog := none } else m)
  | .resizeBacklog newsize => .ok (resizeReplicationBacklog m newsize)
  | .setDisklessSync on => .ok { m with replDisklessSync := on }
  | .setAofChild on => .ok { m with aofChild := on }

/-- A master that has just started, with the default size of the backlog. -/
def masterStart : Master where
  replid := 0
  masterReplOffset := 0
  replBacklogSize := 1048576
  replBacklog := none
  slaves := []
  slaveseldb := -1
  rdbChild := none
  aofChild := false
  replDisklessSync := false
  rdbFile := none
  stream := []

end JitRedis.Replication
