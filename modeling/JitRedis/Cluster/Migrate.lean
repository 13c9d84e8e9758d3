import JitRedis.Aof.Format
import JitRedis.Lib.Runs

/-!
# Migrating keys to another instance

Model of `migrateCommand` in `src/cluster.c` with `migrateGetSocket` and `createDumpPayload`. The keys are looked up
once; then an attempt connects, sends one `RESTORE` per key and matches the replies to the keys by their position. An
attempt that fails before the first reply is made once more, with the arrays that the first attempt left.

The clock may show anything at each reading. The network may refuse the connection, fail at any write and lose the
replies from any point on, and the target may accept or refuse each command. Serialization (`rdbSaveObject`, `crc64`) is
a parameter.
-/

namespace JitRedis.Migrate

open Runs

variable {V : Type}

/-- `redisDb`: only keys with a value have an expire time. -/
@[ext] structure Db (V : Type) where
  dict : Bytes → Option V
  expires : Bytes → Option Int
  expires_sub : ∀ {k}, dict k = none → expires k = none

/-- `getExpire`: the expire time in milliseconds, -1 for none. -/
def Db.getExpire (db : Db V) (key : Bytes) : Int := (db.expires key).getD (-1)

/-- `dbDelete`. -/
def Db.delete (db : Db V) (key : Bytes) : Db V where
  dict := Function.update db.dict key none
  expires := Function.update db.expires key none
  expires_sub := by
    intro k h
    by_cases hk : k = key
    · rw [hk, Function.update_self]
    · rw [Function.update_of_ne hk] at h ⊢
      exact db.expires_sub h

/-- What the target replies to a command: `+OK`, or `-` and a text. -/
inductive TargetReply
  | ok
  | err (text : Bytes)
  deriving DecidableEq

/-- `migrateCachedSocket`, with the replies that the target has sent over it and that are not read yet. -/
structure CachedSocket where
  lastDbid : Int
  unread : List TargetReply

/-- The part of the server that `MIGRATE` works on. -/
structure Server (V : Type) where
  db : Db V
  migrateCachedSockets : List (Bytes × CachedSocket)

/-- Settings of the server, and the functions that serialize a value. -/
structure Config (V : Type) where
  /-- `server.masterhost != NULL` -/
  slave : Bool
  clusterEnabled : Bool
  lazyfreeLazyExpire : Bool
  rdbSaveObjectType : V → Bytes
  rdbSaveObject : V → Bytes → Bytes
  crc64 : Bytes → UInt64

def RDB_VERSION : Nat := 9

def littleEndian64 (n : UInt64) : Bytes := (List.range 8).map fun i => UInt8.ofNat (n.toNat / 256 ^ i)

/-- `createDumpPayload`: the value, the version and a checksum over both. -/
def createDumpPayload (cfg : Config V) (o : V) (key : Bytes) : Bytes :=
  let payload := cfg.rdbSaveObjectType o ++ cfg.rdbSaveObject o key ++
    [UInt8.ofNat (RDB_VERSION % 256), UInt8.ofNat (RDB_VERSION / 256 % 256)]
  payload ++ littleEndian64 (cfg.crc64 payload)

/-! ### The arguments -/

/-- The arguments of `MIGRATE`; the command table asks for at least these five. -/
structure Request where
  host : Bytes
  port : Bytes
  key : Bytes
  dbid : Bytes
  timeout : Bytes
  options : List Bytes

structure Options where
  copy : Bool
  replace : Bool
  password : Option Bytes
  keys : List Bytes

def syntaxerr : Bytes := ascii "-ERR syntax error\r\n"

def keysOptionErr : Bytes :=
  ascii "-ERR When using MIGRATE KEYS option, the key argument must be set to the empty string\r\n"

def notIntegerErr : Bytes := ascii "-ERR value is not an integer or out of range\r\n"

def parseOptions (key : Bytes) : List Bytes → Options → Except Bytes Options
  | [], o => .ok o
  | arg :: rest, o =>
    if strcaseeq arg "copy" then parseOptions key rest { o with copy := true }
    else if strcaseeq arg "replace" then parseOptions key rest { o with replace := true }
    else if strcaseeq arg "auth" then
      match rest with
      | [] => .error syntaxerr
      | password :: rest => parseOptions key rest { o with password := some password }
    else if strcaseeq arg "keys" then
      if key.length ≠ 0 then .error keysOptionErr else .ok { o with keys := rest }
    else .error syntaxerr

/-- What the command works on: the options, and the number of the target's database. -/
structure Job extends Options where
  name : Bytes
  dbid : Int

/-- Parse the whole request. The timeout only bounds how long the system calls wait. -/
def parseRequest (q : Request) : Except Bytes Job := do
  let o ← parseOptions q.key q.options { copy := false, replace := false, password := none, keys := [q.key] }
  match string2ll q.timeout, string2ll q.dbid with
  | some _, some dbid => .ok { o with name := q.host ++ ascii ":" ++ q.port, dbid }
  | _, _ => .error notIntegerErr

/-! ### Looking up the keys -/

def Db.keyIsExpired (db : Db V) (now : Int) (key : Bytes) : Bool :=
  0 ≤ db.getExpire key && db.getExpire key < now

/-- The key is deleted when it is looked up: `expireIfNeeded` on a master. -/
def Db.expiresNow (cfg : Config V) (db : Db V) (now : Int) (key : Bytes) : Bool :=
  !cfg.slave && db.keyIsExpired now key

/-- What the first loop leaves: the keys found, the keyspace, and what `propagateExpire` sent for expired keys. The
array `ov` has the same keys: an object is named by the key it is stored under, and is freed with it. -/
structure Found (V : Type) where
  kv : List Bytes
  db : Db V
  propagated : List (List Bytes)

/-- The first loop: `lookupKeyRead` for every key. A slave keeps an expired key, and hands it out to a writer. -/
def lookupKeys (cfg : Config V) (clock : Nat → Int) : Nat → List Bytes → Db V → Found V
  | _, [], db => { kv := [], db, propagated := [] }
  | j, key :: keys, db =>
    if db.expiresNow cfg (clock j) key then
      let found := lookupKeys cfg clock (j + 1) keys (db.delete key)
      let cmd := if cfg.lazyfreeLazyExpire then ascii "UNLINK" else ascii "DEL"
      { found with propagated := [cmd, key] :: found.propagated }
    else
      let found := lookupKeys cfg clock (j + 1) keys db
      if (db.dict key).isSome then { found with kv := key :: found.kv } else found

/-! ### One attempt -/

inductive Connect
  | ok
  | refused (neterr : Bytes)
  | timedOut
  deriving DecidableEq

/-- How the network and the target behave during one attempt. -/
structure Attempt where
  connect : Connect
  /-- the cached socket that is dropped at random when there are too many -/
  dropped : Nat
  /-- the error of writing a chunk, if any: whether it is `ETIMEDOUT` -/
  write : Nat → Option Bool
  /-- the reply of the target to each command it is sent -/
  answer : Nat → TargetReply
  /-- how many replies arrive before reading fails, and whether the error is `ETIMEDOUT` -/
  lost : Option (Nat × Bool)

inductive Command
  | auth (password : Bytes)
  | select (dbid : Int)
  | restore (asking : Bool) (key : Bytes) (ttl : Int) (payload : Bytes) (replace : Bool)
  deriving DecidableEq

def Command.argv : Command → List Bytes
  | .auth password => [ascii "AUTH", password]
  | .select dbid => [ascii "SELECT", ll2string dbid]
  | .restore asking key ttl payload replace =>
    [if asking then ascii "RESTORE-ASKING" else ascii "RESTORE", key, ll2string ttl, payload] ++
      if replace then [ascii "REPLACE"] else []

def MIGRATE_SOCKET_CACHE_ITEMS : Nat := 64

/-- `migrateCloseSocket`. -/
def closeSocket (name : Bytes) (sockets : List (Bytes × CachedSocket)) : List (Bytes × CachedSocket) :=
  sockets.filter fun e => e.1 ≠ name

def putSocket (name : Bytes) (cs : CachedSocket) (sockets : List (Bytes × CachedSocket)) :
    List (Bytes × CachedSocket) :=
  (name, cs) :: closeSocket name sockets

/-- Drop a socket at random when the cache is full. -/
def makeRoom (att : Attempt) (sockets : List (Bytes × CachedSocket)) : List (Bytes × CachedSocket) :=
  if sockets.length = MIGRATE_SOCKET_CACHE_ITEMS then sockets.eraseIdx (att.dropped % MIGRATE_SOCKET_CACHE_ITEMS)
  else sockets

/-- `migrateGetSocket`: a cached socket, or a new one; otherwise the error for the client. -/
def migrateGetSocket (att : Attempt) (name : Bytes) (sockets : List (Bytes × CachedSocket)) :
    Except Bytes CachedSocket × List (Bytes × CachedSocket) :=
  match sockets.find? fun e => e.1 = name with
  | some e => (.ok e.2, sockets)
  | none =>
    match att.connect with
    | .refused neterr => (.error (ascii "-ERR Can't connect to target node: " ++ neterr ++ crlf), makeRoom att sockets)
    | .timedOut => (.error (ascii "-IOERR error or timeout connecting to the client\r\n"), makeRoom att sockets)
    | .ok => (.ok ⟨-1, []⟩, putSocket name ⟨-1, []⟩ (makeRoom att sockets))

/-- The key has expired since it was looked up. -/
def Db.skips (db : Db V) (now : Int) (key : Bytes) : Bool :=
  db.getExpire key ≠ -1 && decide (db.getExpire key - now < 0)

def Db.ttl (db : Db V) (now : Int) (key : Bytes) : Int :=
  if db.getExpire key = -1 then 0 else max (db.getExpire key - now) 1

/-- The array of keys, the number of keys not expired, and the commands created so far. -/
structure Buffered where
  kv : List Bytes
  nonExpired : Nat
  cmds : List Command

/-- A key that has not expired moves to the front of the array; the array of values stays as it is. -/
def Buffered.add (b : Buffered) (cfg : Config V) (replace : Bool) (key : Bytes) (ttl : Int) (o : V) : Buffered where
  kv := b.kv.set b.nonExpired key
  nonExpired := b.nonExpired + 1
  cmds := b.cmds ++ [.restore cfg.clusterEnabled key ttl (createDumpPayload cfg o key) replace]

/-- The loop that creates the `RESTORE` commands, with `left` keys to go. -/
def createRestores (cfg : Config V) (replace : Bool) (db : Db V) (clock : Nat → Int) (ov : List Bytes) :
    Nat → Nat → Buffered → Except Fault Buffered
  | 0, _, b => .ok b
  | left + 1, j, b =>
    match b.kv[j]?, ov[j]? with
    | some key, some obj =>
      if db.skips (clock j) key then createRestores cfg replace db clock ov left (j + 1) b
      else
        match db.dict obj with
        -- the object was freed when its key expired
        | none => .error .badAccess
        | some o =>
          createRestores cfg replace db clock ov left (j + 1) (b.add cfg replace key (db.ttl (clock j) key) o)
    | _, _ => .error .badAccess

/-- `AUTH` and `SELECT`, where needed. -/
def preamble (job : Job) (select : Bool) : List Command :=
  (job.password.map Command.auth).toList ++ if select then [.select job.dbid] else []

/-- The number of chunks of 64K that the commands are written in. -/
def chunks (cmds : List Command) : Nat := ((commandsText (cmds.map Command.argv)).length + 65535) / 65536

/-- The loop that writes the chunks: the first error, if any. -/
def writeChunks (write : Nat → Option Bool) : Nat → Nat → Option Bool
  | 0, _ => none
  | left + 1, i =>
    match write i with
    | some timedOut => some timedOut
    | none => writeChunks write left (i + 1)

/-- What is to be read from the socket, and how many lines were read. -/
structure Reader where
  unread : List TargetReply
  line : Nat

/-- `syncReadLine`: a line, or the error of reading: whether it is `ETIMEDOUT`. -/
def syncReadLine (att : Attempt) (rd : Reader) : Except Bool (TargetReply × Reader) :=
  match att.lost with
  | some (n, timedOut) => if n ≤ rd.line then .error timedOut else next
  | none => next
where
  next : Except Bool (TargetReply × Reader) :=
    match rd.unread with
    | [] => .error true
    | reply :: unread => .ok (reply, ⟨unread, rd.line + 1⟩)

def readIfSent (att : Attempt) (sent : Bool) (rd : Reader) : Except Bool (Option TargetReply × Reader) :=
  if sent then (syncReadLine att rd).map fun r => (some r.1, r.2) else .ok (none, rd)

/-- The error that counts for a key: that of `AUTH`, else that of `SELECT`, else that of its own `RESTORE`. -/
def errorText (buf0 buf1 : Option TargetReply) (buf2 : TargetReply) : Option Bytes :=
  match buf0, buf1, buf2 with
  | some (.err text), _, _ => some text
  | _, some (.err text), _ => some text
  | _, _, .err text => some text
  | _, _, .ok => none

/-- The state of the loop that reads the replies to the `RESTORE` commands. -/
structure Replies (V : Type) where
  db : Db V
  reader : Reader
  j : Nat
  /-- the keys in `newargv` -/
  deleted : List Bytes
  errorFromTarget : Option Bytes
  /-- whether reading failed, and with `ETIMEDOUT` -/
  socketError : Option Bool

def Replies.take (r : Replies V) (copy : Bool) (key : Bytes) (reader : Reader) : Option Bytes → Replies V
  | some text =>
    { r with reader, j := r.j + 1, errorFromTarget := some (r.errorFromTarget.getD text) }
  | none =>
    if copy then { r with reader, j := r.j + 1 }
    else { r with reader, j := r.j + 1, db := r.db.delete key, deleted := r.deleted ++ [key] }

/-- The loop that reads the replies to the `RESTORE` commands. -/
def readReplies (att : Attempt) (copy : Bool) (buf0 buf1 : Option TargetReply) : List Bytes → Replies V → Replies V
  | [], r => r
  | key :: keys, r =>
    match syncReadLine att r.reader with
    | .error timedOut => { r with socketError := some timedOut }
    | .ok (buf2, reader) => readReplies att copy buf0 buf1 keys (r.take copy key reader (errorText buf0 buf1 buf2))

inductive Exit
  /-- without a socket, with the error for the client -/
  | noSocket (reply : Bytes)
  /-- at the label `socket_err` -/
  | socketErr (writeError timedOut mayRetry : Bool)
  | returned (reply : Bytes)
  deriving DecidableEq

/-- What an attempt leaves: the server, the arrays, the commands it wrote, and the keys deleted. -/
structure Attempted (V : Type) where
  server : Server V
  kv : List Bytes
  numKeys : Nat
  sent : List Command
  deleted : List Bytes
  exit : Exit

/-- An attempt that ends before the first key was deleted, and closes the socket. -/
def Attempted.failed (job : Job) (s : Server V) (b : Buffered) (writeError timedOut mayRetry : Bool) : Attempted V where
  server := { s with migrateCachedSockets := closeSocket job.name s.migrateCachedSockets }
  kv := b.kv
  numKeys := b.nonExpired
  sent := b.cmds
  deleted := []
  exit := .socketErr writeError timedOut mayRetry

/-- The end of an attempt in which all replies to the `RESTORE` commands were read, or reading them failed. -/
def concludeReplies (job : Job) (mayRetry : Bool) (s : Server V) (b : Buffered) (r : Replies V) : Attempted V :=
  let sockets := s.migrateCachedSockets
  let put lastDbid := putSocket job.name ⟨lastDbid, r.reader.unread⟩ sockets
  let done sockets exit : Attempted V :=
    { server := ⟨r.db, sockets⟩, kv := b.kv, numKeys := b.nonExpired, sent := b.cmds, deleted := r.deleted, exit }
  match r.errorFromTarget, r.socketError with
  | none, some timedOut =>
    -- nothing was processed: `socket_err` tries again
    if r.j = 0 ∧ mayRetry ∧ ¬timedOut then .failed job s b false timedOut true
    else done (closeSocket job.name sockets) (.socketErr false timedOut false)
  | none, none => done (put job.dbid) (.returned (ascii "+OK\r\n"))
  | some text, some _ => done (closeSocket job.name sockets) (.returned (targetErr text))
  | some text, none => done (put (-1)) (.returned (targetErr text))
where
  targetErr (text : Bytes) : Bytes := ascii "-ERR Target instance replied with error: " ++ text ++ crlf

/-- Write the commands and read the replies. -/
def exchange (job : Job) (mayRetry : Bool) (att : Attempt) (select : Bool) (s : Server V) (cs : CachedSocket)
    (b : Buffered) : Attempted V :=
  match writeChunks att.write (chunks b.cmds) 0 with
  | some timedOut => .failed job s b true timedOut mayRetry
  | none =>
    -- the target has all the commands, and replies in their order
    let rd : Reader := ⟨cs.unread ++ (List.range b.cmds.length).map att.answer, 0⟩
    match readIfSent att job.password.isSome rd with
    | .error timedOut => .failed job s b false timedOut mayRetry
    | .ok (buf0, rd) =>
      match readIfSent att select rd with
      | .error timedOut => .failed job s b false timedOut mayRetry
      | .ok (buf1, rd) =>
        concludeReplies job mayRetry s b
          (readReplies att job.copy buf0 buf1 (b.kv.take b.nonExpired) ⟨s.db, rd, 0, [], none, none⟩)

/-- One attempt, from the label `try_again` on. -/
def attempt (cfg : Config V) (job : Job) (mayRetry : Bool) (att : Attempt) (clock : Nat → Int) (s : Server V)
    (ov kv : List Bytes) (numKeys : Nat) : Except Fault (Attempted V) :=
  match migrateGetSocket att job.name s.migrateCachedSockets with
  | (.error reply, sockets) =>
    .ok { server := ⟨s.db, sockets⟩, kv, numKeys, sent := [], deleted := [], exit := .noSocket reply }
  | (.ok cs, sockets) => do
    let select := decide (cs.lastDbid ≠ job.dbid)
    let b ← createRestores cfg job.replace s.db clock ov numKeys 0 ⟨kv, 0, preamble job select⟩
    return exchange job mayRetry att select ⟨s.db, sockets⟩ cs b

/-! ### The command -/

/-- The readings of the clock: when each key is looked up, and when each attempt comes to each key. -/
structure Clock where
  lookup : Nat → Int
  attempt : Nat → Nat → Int

/-- What the command leaves: the server, the commands of each attempt, what is propagated, and the reply. -/
structure Migrated (V : Type) where
  server : Server V
  sent : List (List Command)
  propagated : List (List Bytes)
  reply : Bytes

def Exit.reply : Exit → Bytes
  | .noSocket reply => reply
  | .returned reply => reply
  | .socketErr true _ _ => ascii "-IOERR error or timeout writing to target instance\r\n"
  | .socketErr false _ _ => ascii "-IOERR error or timeout reading to target instance\r\n"

/-- The command is over. If it deleted keys it was rewritten as a `DEL` of them, which `call` propagates. -/
def conclude (found : Found V) (sent : List (List Command)) (r : Attempted V) : Migrated V where
  server := r.server
  sent
  propagated := found.propagated ++ if r.deleted = [] then [] else [ascii "DEL" :: r.deleted]
  reply := r.exit.reply

/-- From the label `try_again` on, with the one attempt that may be made again. -/
def migrateKeys (cfg : Config V) (job : Job) (clock : Clock) (net : Nat → Attempt) (s : Server V) (found : Found V) :
    Except Fault (Migrated V) := do
  let r ← attempt cfg job true (net 0) (clock.attempt 0) s found.kv found.kv found.kv.length
  match r.exit with
  | .socketErr _ false true =>
    let r' ← attempt cfg job false (net 1) (clock.attempt 1) r.server found.kv r.kv r.numKeys
    return conclude found [r.sent, r'.sent] r'
  | _ => return conclude found [r.sent] r

def migrateCommand (cfg : Config V) (s : Server V) (q : Request) (clock : Clock) (net : Nat → Attempt) :
    Except Fault (Migrated V) :=
  match parseRequest q with
  | .error reply => .ok { server := s, sent := [], propagated := [], reply }
  | .ok job =>
    let found := lookupKeys cfg clock.lookup 0 job.keys s.db
    let s' := { s with db := found.db }
    if found.kv = [] then .ok { server := s', sent := [], propagated := found.propagated, reply := ascii "+NOKEY\r\n" }
    else migrateKeys cfg job clock net s' found

/-! ### Runs -/

/-- What happens to the server: a `MIGRATE`, any other change of the keyspace, or `migrateCloseTimedoutSockets`. -/
inductive Event (V : Type)
  | migrate (q : Request) (clock : Clock) (net : Nat → Attempt)
  | otherCommand (db : Db V)
  | closeSockets (names : List Bytes)

/-- One event. A `MIGRATE` that touches freed memory has no successor. -/
def serverStep (cfg : Config V) (s : Server V) : Event V → Option (Server V)
  | .migrate q clock net => (migrateCommand cfg s q clock net).toOption.map Migrated.server
  | .otherCommand db => some { s with db }
  | .closeSockets names =>
    some { s with migrateCachedSockets := s.migrateCachedSockets.filter fun e => e.1 ∉ names }

def serverStart (db : Db V) : Server V := ⟨db, []⟩

end JitRedis.Migrate
