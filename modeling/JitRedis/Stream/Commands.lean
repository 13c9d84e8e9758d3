import JitRedis.Stream.Groups

/-!
# The stream commands

Model of the commands of `src/t_stream.c` from their argument vectors, and of what `call` of `src/server.c`
propagates after them. The keyspace has streams only. Blocked clients are left out: a read that blocks replies
nothing.
-/

namespace JitRedis

open Fallible

abbrev StreamDb := SortedMap Bytes Stream

/-- What a command leaves, with its arguments as it rewrote them and the commands passed to `propagate`. -/
structure CmdResult where
  db : StreamDb
  reply : Reply
  dirty : Nat
  argv : List Bytes
  prevented : Bool
  propagated : List (List Bytes)

def replyOnly (db : StreamDb) (argv : List Bytes) (reply : Reply) : CmdResult := ⟨db, reply, 0, argv, false, []⟩

/-- An argument; `argc` is checked before. -/
def argAt (argv : List Bytes) (i : Nat) : Bytes := argv.getD i []

/-- The maximal length (`-1` if there is none), whether it is approximate, and the index of the length. -/
structure TrimArgs where
  maxlen : Int
  approx : Bool
  idx : Nat

def maxlenValue (arg : Bytes) : Except Reply Int :=
  match string2ll arg with
  | none => .error (addReplyError "value is not an integer or out of range")
  | some maxlen => if maxlen < 0 then .error (addReplyError "The MAXLEN argument must be >= 0.") else .ok maxlen

/-- The arguments of `XADD` behind the key: the ID if it is given, its index, and fields and values. -/
structure XaddArgs where
  id : Option StreamID
  idIdx : Nat
  trim : TrimArgs
  fields : List Bytes

def xaddID (i : Nat) (arg : Bytes) (trim : TrimArgs) (rest : List Bytes) : Except Reply XaddArgs :=
  match streamParseStrictID arg 0 with
  | none => .error invalidID
  | some id => .ok ⟨some id, i, trim, rest⟩

/-- The option loop of `xaddCommand` from the argument `i` on. -/
def xaddParse : Nat → List Bytes → TrimArgs → Except Reply XaddArgs
  | i, [], trim => .ok ⟨none, i, trim, []⟩
  | i, opt :: rest, trim =>
    if streq opt "*" then .ok ⟨none, i, trim, rest⟩
    else if strcaseeq opt "maxlen" then
      match rest with
      | [] => xaddID i opt trim rest
      | [arg] => do
        let maxlen ← maxlenValue arg
        xaddParse (i + 2) [] ⟨maxlen, false, i + 1⟩
      | next :: arg :: rest =>
        if streq next "~" || streq next "=" then do
          let maxlen ← maxlenValue arg
          xaddParse (i + 3) rest ⟨maxlen, streq next "~", i + 2⟩
        else do
          let maxlen ← maxlenValue next
          xaddParse (i + 2) (arg :: rest) ⟨maxlen, false, i + 1⟩
    else xaddID i opt trim rest

def fieldPairs : List Bytes → List (Bytes × Bytes)
  | field :: value :: rest => (field, value) :: fieldPairs rest
  | _ => []

def xaddTrim (s : Stream) (trim : TrimArgs) : Except Fault (Stream × Nat) :=
  if 0 ≤ trim.maxlen then streamTrimByLength s trim.maxlen.toNat trim.approx else .ok (s, 0)

def streamRewriteApproxMaxlen (argv : List Bytes) (s : Stream) (idx : Nat) : List Bytes :=
  (argv.set idx (ll2string s.length)).set (idx - 1) (ascii "=")

def xaddCommand (cfg : StreamConfig) (db : StreamDb) (now : Int) (argv : List Bytes) : Except Fault CmdResult :=
  match xaddParse 2 (argv.drop 2) ⟨-1, false, 0⟩ with
  | .error reply => .ok (replyOnly db argv reply)
  | .ok args =>
    if args.fields.length < 2 ∨ args.fields.length % 2 = 1 then
      .ok (replyOnly db argv (addReplyError "wrong number of arguments for XADD"))
    else do
      let key := argAt argv 1
      -- `streamTypeLookupWriteOrCreate` adds the key before it is known whether there will be an entry.
      let s := (db.find? key).getD streamNew
      match ← streamAppendItem cfg s (fieldPairs args.fields) args.id (UInt64.ofInt now) with
      | (s, none) => .ok (replyOnly (db.insert key s) argv
          (addReplyError "The ID specified in XADD is equal or smaller than the target stream top item"))
      | (s, some id) => do
        let (s, _) ← xaddTrim s args.trim
        let argv := if 0 ≤ args.trim.maxlen ∧ args.trim.approx then streamRewriteApproxMaxlen argv s args.trim.idx
          else argv
        .ok ⟨db.insert key s, [.bulk (streamIDText id)], 1, argv.set args.idIdx (streamIDText id), false, []⟩

/-- The option loop of `xtrimCommand`; the flag says whether there was one. -/
def xtrimParse : Nat → List Bytes → TrimArgs → Bool → Except Reply (TrimArgs × Bool)
  | _, [], trim, given => .ok (trim, given)
  | i, opt :: rest, _, _ =>
    if strcaseeq opt "maxlen" then
      match rest with
      | [] => .error (addReplyError "syntax error")
      | [arg] => do
        let maxlen ← maxlenValue arg
        xtrimParse (i + 2) [] ⟨maxlen, false, i + 1⟩ true
      | next :: arg :: rest =>
        if streq next "~" || streq next "=" then do
          let maxlen ← maxlenValue arg
          xtrimParse (i + 3) rest ⟨maxlen, streq next "~", i + 2⟩ true
        else do
          let maxlen ← maxlenValue next
          xtrimParse (i + 2) (arg :: rest) ⟨maxlen, false, i + 1⟩ true
    else .error (addReplyError "syntax error")

def xtrimCommand (db : StreamDb) (argv : List Bytes) : Except Fault CmdResult :=
  let key := argAt argv 1
  match db.find? key with
  | none => .ok (replyOnly db argv [.longLong 0])
  | some s =>
    match xtrimParse 2 (argv.drop 2) ⟨-1, false, 0⟩ false with
    | .error reply => .ok (replyOnly db argv reply)
    | .ok (_, false) => .ok (replyOnly db argv (addReplyError "XTRIM called without an option to trim the stream"))
    | .ok (trim, true) => do
      let (s, deleted) ← streamTrimByLength s trim.maxlen.toNat trim.approx
      let argv := if deleted ≠ 0 ∧ trim.approx then streamRewriteApproxMaxlen argv s trim.idx else argv
      .ok ⟨db.insert key s, [.longLong deleted], deleted, argv, false, []⟩

def parseIDs (args : List Bytes) : Option (List StreamID) := args.mapM fun arg => streamParseStrictID arg 0

def xdelLoop : List StreamID → Stream → Nat → Except Fault (Stream × Nat)
  | [], s, deleted => .ok (s, deleted)
  | id :: ids, s, deleted => do
    let (s, found) ← streamDeleteItem s id
    xdelLoop ids s (if found then deleted + 1 else deleted)

def xdelCommand (db : StreamDb) (argv : List Bytes) : Except Fault CmdResult :=
  let key := argAt argv 1
  match db.find? key with
  | none => .ok (replyOnly db argv [.longLong 0])
  | some s =>
    match parseIDs (argv.drop 2) with
    | none => .ok (replyOnly db argv invalidID)
    | some ids => do
      let (s, deleted) ← xdelLoop ids s 0
      .ok ⟨db.insert key s, [.longLong deleted], deleted, argv, false, []⟩

/-- `addReplySubcommandSyntaxError` -/
def subcommandSyntaxError (argv : List Bytes) : Reply :=
  [.error (ascii "Unknown subcommand or wrong number of arguments for '" ++ cstr (argAt argv 1) ++ ascii "'. Try " ++
    (cstr (argAt argv 0)).map toupper ++ ascii " HELP.")]

/-- `addReplyHelp` with the help of `XGROUP`. -/
def xgroupHelp (argv : List Bytes) : Reply :=
  [.multiBulkLen 7,
    .status ((cstr (argAt argv 0)).map toupper ++ ascii " <subcommand> arg arg ... arg. Subcommands are:"),
    .status (ascii "CREATE      <key> <groupname> <id or $> [opt] -- Create a new consumer group."),
    .status (ascii "            option MKSTREAM: create the empty stream if it does not exist."),
    .status (ascii "SETID       <key> <groupname> <id or $>  -- Set the current group ID."),
    .status (ascii "DESTROY     <key> <groupname>            -- Remove the specified group."),
    .status (ascii "DELCONSUMER <key> <groupname> <consumer> -- Remove the specified consumer."),
    .status (ascii "HELP                                     -- Prints this help.")]

/-- The ID of `XGROUP CREATE` and `XGROUP SETID`; `$` is the last ID of the stream. -/
def xgroupID (s : Option Stream) (arg : Bytes) (strict : Bool) : Option StreamID :=
  if streq arg "$" then some ((s.map Stream.lastId).getD ⟨0, 0⟩) else streamGenericParseID arg 0 strict

/-- `XGROUP CREATE` once the key and the options are checked. -/
def xgroupCreate (db : StreamDb) (argv : List Bytes) (s : Option Stream) (mkstream : Bool) : Except Fault CmdResult :=
  let key := argAt argv 2
  match xgroupID s (argAt argv 4) true with
  | none => .ok (replyOnly db argv invalidID)
  | some id =>
    if s.isNone ∧ mkstream = false then .error .assertFailed
    else
      match streamCreateCG (s.getD streamNew) (argAt argv 3) id with
      | some s => .ok ⟨db.insert key s, [.status (ascii "OK")], 1, argv, false, []⟩
      | none => .ok (replyOnly (db.insert key (s.getD streamNew)) argv
          [.error (ascii "-BUSYGROUP Consumer Group name already exists")])

def Stream.setGroup (s : Stream) (name : Bytes) (cg : StreamCG) : Stream :=
  { s with cgroups := s.cgroups.insert name cg }

/-- The subcommands of `XGROUP` that need the stream. -/
def xgroupStream (db : StreamDb) (now : Int) (argv : List Bytes) (s : Stream) (cg : Option StreamCG) :
    Except Fault CmdResult :=
  let opt := argAt argv 1
  let key := argAt argv 2
  let groupname := argAt argv 3
  if strcaseeq opt "SETID" ∧ argv.length = 5 then
    match xgroupID (some s) (argAt argv 4) false with
    | none => .ok (replyOnly db argv invalidID)
    | some id =>
      match cg with
      | none => .error .badAccess
      | some cg => .ok ⟨db.insert key (s.setGroup groupname { cg with lastId := id }), [.status (ascii "OK")], 1, argv,
          false, []⟩
  else if strcaseeq opt "DESTROY" ∧ argv.length = 4 then
    match cg with
    | none => .ok (replyOnly db argv [.longLong 0])
    | some _ => .ok ⟨db.insert key { s with cgroups := s.cgroups.erase groupname }, [.longLong 1], 1, argv, false, []⟩
  else if strcaseeq opt "DELCONSUMER" ∧ argv.length = 5 then
    match cg with
    | none => .error .badAccess
    | some cg => do
      let (cg, pending) ← streamDelConsumer cg (argAt argv 4) now
      .ok ⟨db.insert key (s.setGroup groupname cg), [.longLong pending], 1, argv, false, []⟩
  else if strcaseeq opt "HELP" then .ok (replyOnly db argv (xgroupHelp argv))
  else .ok (replyOnly db argv (subcommandSyntaxError argv))

def xgroupCommand (db : StreamDb) (now : Int) (argv : List Bytes) : Except Fault CmdResult :=
  let opt := argAt argv 1
  let key := argAt argv 2
  let groupname := argAt argv 3
  let create := strcaseeq opt "CREATE"
  let mkstream := argv.length = 6 ∧ create
  if mkstream ∧ ¬ strcaseeq (argAt argv 5) "MKSTREAM" then .ok (replyOnly db argv (subcommandSyntaxError argv))
  else if mkstream then xgroupCreate db argv (db.find? key) true
  else if argv.length < 4 then
    if strcaseeq opt "HELP" then .ok (replyOnly db argv (xgroupHelp argv))
    else .ok (replyOnly db argv (subcommandSyntaxError argv))
  else
    match db.find? key with
    | none => .ok (replyOnly db argv (addReplyError ("The XGROUP subcommand requires the key to exist. " ++
        "Note that for CREATE you may want to use the MKSTREAM option to create an empty stream automatically.")))
    | some s =>
      let cg := streamLookupCG s groupname
      if cg.isNone ∧ (strcaseeq opt "SETID" ∨ strcaseeq opt "DELCONSUMER") then
        .ok (replyOnly db argv [.error (ascii "-NOGROUP No such consumer group '" ++ cstr groupname ++
          ascii "' for key name '" ++ cstr key ++ ascii "'")])
      else if create ∧ argv.length = 5 then xgroupCreate db argv (some s) false
      else xgroupStream db now argv s cg

/-- The largest ID of a stream that has entries. -/
def xsetidTop (s : Stream) : Except Fault (Option StreamID) :=
  if s.length = 0 then .ok none
  else do
    match ← streamIteratorGetID (streamIteratorStart s none none true) with
    | (_, some (maxid, _)) => .ok (some maxid)
    -- Otherwise `maxid` would be compared without a value.
    | (_, none) => .error .badAccess

def xsetidCommand (db : StreamDb) (argv : List Bytes) : Except Fault CmdResult :=
  let key := argAt argv 1
  match db.find? key with
  | none => .ok (replyOnly db argv (addReplyError "no such key"))
  | some s =>
    match streamParseStrictID (argAt argv 2) 0 with
    | none => .ok (replyOnly db argv invalidID)
    | some id => do
      let top ← xsetidTop s
      if top.any (fun maxid => streamCompareID id maxid < 0) then
        .ok (replyOnly db argv
          (addReplyError "The ID specified in XSETID is smaller than the target stream top item"))
      else .ok ⟨db.insert key { s with lastId := id }, [.status (ascii "OK")], 1, argv, false, []⟩

def streamAck (cg : StreamCG) (buf : Bytes) : Except Fault (StreamCG × Nat) :=
  match cg.pel.find? buf with
  | none => .ok (cg, 0)
  | some p => do
    let cg := { cg with pel := cg.pel.erase buf }
    let nack ← cg.nack p
    match nack.consumer with
    | none => .error .badAccess
    | some c => do
      let cg ← cg.removePel c buf
      let cg ← streamFreeNACK cg p
      .ok (cg, 1)

/-- The loop of `xackCommand`; it stops at an invalid ID, which is the flag. -/
def xackLoop : List Bytes → StreamCG → Nat → Except Fault (StreamCG × Nat × Bool)
  | [], cg, acknowledged => .ok (cg, acknowledged, true)
  | arg :: args, cg, acknowledged =>
    match streamParseStrictID arg 0 with
    | none => .ok (cg, acknowledged, false)
    | some id => do
      let (cg, acked) ← streamAck cg (streamEncodeID id)
      xackLoop args cg (acknowledged + acked)

def xackCommand (db : StreamDb) (argv : List Bytes) : Except Fault CmdResult :=
  let key := argAt argv 1
  let groupname := argAt argv 2
  match db.find? key with
  | none => .ok (replyOnly db argv [.longLong 0])
  | some s =>
    match streamLookupCG s groupname with
    | none => .ok (replyOnly db argv [.longLong 0])
    | some cg => do
      let (cg, acknowledged, valid) ← xackLoop (argv.drop 3) cg 0
      .ok ⟨db.insert key (s.setGroup groupname cg), if valid then [.longLong acknowledged] else invalidID, acknowledged,
        argv, false, []⟩

structure XclaimOpts where
  deliverytime : Int
  retrycount : Int
  force : Bool
  justid : Bool
  lastId : StreamID

def xclaimValue (name : String) (arg : Bytes) : Except Reply Int :=
  match string2ll arg with
  | none => .error (addReplyError ("Invalid " ++ name ++ " option argument for XCLAIM"))
  | some value => .ok value

def xclaimUnrecognized (opt : Bytes) : Reply :=
  [.error (ascii "Unrecognized XCLAIM option '" ++ cstr opt ++ ascii "'")]

/-- The option loop of `xclaimCommand`. -/
def xclaimParse (now : Int) : List Bytes → XclaimOpts → Except Reply XclaimOpts
  | [], o => .ok o
  | opt :: rest, o =>
    if strcaseeq opt "FORCE" then xclaimParse now rest { o with force := true }
    else if strcaseeq opt "JUSTID" then xclaimParse now rest { o with justid := true }
    else
      match rest with
      | [] => .error (xclaimUnrecognized opt)
      | arg :: rest =>
        if strcaseeq opt "IDLE" then do
          let idle ← xclaimValue "IDLE" arg
          xclaimParse now rest { o with deliverytime := (now - idle).bmod (2 ^ 64) }
        else if strcaseeq opt "TIME" then do
          let deliverytime ← xclaimValue "TIME" arg
          xclaimParse now rest { o with deliverytime }
        else if strcaseeq opt "RETRYCOUNT" then do
          let retrycount ← xclaimValue "RETRYCOUNT" arg
          xclaimParse now rest { o with retrycount }
        else if strcaseeq opt "LASTID" then
          match streamParseStrictID arg 0 with
          | none => .error invalidID
          | some lastId => xclaimParse now rest { o with lastId }
        else .error (xclaimUnrecognized opt)

/-- What `xclaimCommand` has done so far. -/
structure ClaimState where
  group : StreamCG
  reply : Reply
  arraylen : Nat
  propagateLastId : Bool
  dirty : Nat
  propagated : List (List Bytes)

/-- Look up the NACK of an entry, or create one for `FORCE` if the entry exists. -/
def xclaimNACK (s : Stream) (cg : StreamCG) (id : StreamID) (force : Bool) (now : Int) :
    Except Fault (StreamCG × Option Nat) :=
  match cg.pel.find? (streamEncodeID id) with
  | some p => .ok (cg, some p)
  | none =>
    if force then do
      let (_, item) ← streamIteratorGetID (streamIteratorStart s (some id) (some id) false)
      if item.isNone then .ok (cg, none)
      else
        let (cg, p) := streamCreateNACK cg none now
        .ok ({ cg with pel := cg.pel.insert (streamEncodeID id) p }, some p)
    else .ok (cg, none)

/-- Remove an entry from the PEL of its old consumer, if it has one. -/
def xclaimLeave (cg : StreamCG) (old : Option Nat) (buf : Bytes) : Except Fault StreamCG :=
  match old with
  | some c => cg.removePel c buf
  | none => .ok cg

def xclaimReply (s : Stream) (id : StreamID) (justid : Bool) : Except Fault Reply :=
  if justid then .ok [.bulk (streamIDText id)]
  else do
    let (entry, emitted) ← streamReplyRaw s (some id) (some id) 1 false
    .ok (if emitted = 0 then [.nullBulk] else entry)

def xclaimCount (o : XclaimOpts) (count : Nat) : Nat :=
  if 0 ≤ o.retrycount then o.retrycount.toNat else if o.justid then count else (count + 1) % 2 ^ 64

def xclaimEntry (s : Stream) (key groupname : Bytes) (consumer : Nat) (minidle now : Int) (o : XclaimOpts)
    (st : ClaimState) (arg : Bytes) : Except Fault ClaimState :=
  match streamParseStrictID arg 0 with
  | none => .error .assertFailed
  | some id => do
    let (cg, found) ← xclaimNACK s st.group id o.force now
    match found with
    | none => .ok { st with group := cg }
    | some p => do
      let nack ← cg.nack p
      if nack.consumer.isSome ∧ minidle ≠ 0 ∧ now - nack.deliveryTime < minidle then .ok { st with group := cg }
      else do
        let cg ← xclaimLeave cg nack.consumer (streamEncodeID id)
        let cg ← (cg.setNack p ⟨o.deliverytime, xclaimCount o nack.deliveryCount, some consumer⟩).insertPel consumer
          (streamEncodeID id) p
        let entry ← xclaimReply s id o.justid
        let argv ← streamPropagateXCLAIM key groupname cg arg p
        .ok ⟨cg, st.reply ++ entry, st.arraylen + 1, false, st.dirty + 1, st.propagated ++ [argv]⟩

def xclaimTime (now deliverytime : Int) : Int :=
  if deliverytime ≠ -1 then if deliverytime < 0 ∨ now < deliverytime then now else deliverytime else now

/-- `xclaimCommand` on a group. -/
def xclaimGroup (db : StreamDb) (now : Int) (argv : List Bytes) (s : Stream) (cg : StreamCG) : Except Fault CmdResult :=
  let key := argAt argv 1
  let groupname := argAt argv 2
  match string2ll (argAt argv 4) with
  | none => .ok (replyOnly db argv (addReplyError "Invalid min-idle-time argument for XCLAIM"))
  | some minidle =>
    let ids := (argv.drop 5).takeWhile fun arg => (streamParseStrictID arg 0).isSome
    let opts := (argv.drop 5).dropWhile fun arg => (streamParseStrictID arg 0).isSome
    match xclaimParse now opts ⟨-1, -1, false, false, ⟨0, 0⟩⟩ with
    | .error reply => .ok (replyOnly db argv reply)
    | .ok o => do
      let newer := 0 < streamCompareID o.lastId cg.lastId
      let cg := if newer then { cg with lastId := o.lastId } else cg
      match ← streamLookupConsumer cg (argAt argv 3) true now with
      | (_, none) => .error .badAccess
      | (cg, some consumer) => do
        let o := { o with deliverytime := xclaimTime now o.deliverytime }
        let st ← ids.foldlM (xclaimEntry s key groupname consumer (max minidle 0) now o) ⟨cg, [], 0, newer, 0, []⟩
        let last := if st.propagateLastId then [streamPropagateGroupID key groupname st.group] else []
        .ok ⟨db.insert key (s.setGroup groupname st.group), .multiBulkLen st.arraylen :: st.reply,
          st.dirty + last.length, argv, true, st.propagated ++ last⟩

def xclaimCommand (db : StreamDb) (now : Int) (argv : List Bytes) : Except Fault CmdResult :=
  let key := argAt argv 1
  let groupname := argAt argv 2
  match db.find? key with
  | none => .ok (replyOnly db argv [.error (ascii "-NOGROUP No such key '" ++ cstr key ++ ascii "' or consumer group '" ++
      cstr groupname ++ ascii "'")])
  | some s =>
    match streamLookupCG s groupname with
    | none => .ok (replyOnly db argv [.error (ascii "-NOGROUP No such key '" ++ cstr key ++
        ascii "' or consumer group '" ++ cstr groupname ++ ascii "'")])
    | some cg => xclaimGroup db now argv s cg

/-- The options of `XREAD` and `XREADGROUP`; the group comes with the consumer. -/
structure XreadOpts where
  timeout : Int
  count : Nat
  group : Option (Bytes × Bytes)
  noack : Bool

/-- `getTimeoutFromObjectOrReply` in milliseconds. -/
def getTimeout (arg : Bytes) (now : Int) : Except Reply Int :=
  match string2ll arg with
  | none => .error (addReplyError "timeout is not an integer or out of range")
  | some tval => if tval < 0 then .error (addReplyError "timeout is negative") else
      .ok (if 0 < tval then tval + now else tval)

def xreadCount (arg : Bytes) : Except Reply Nat :=
  match string2ll arg with
  | none => .error (addReplyError "value is not an integer or out of range")
  | some count => .ok count.toNat

/-- The option loop of `xreadCommand`; with what follows `STREAMS`. -/
def xreadParse (xreadgroup : Bool) (now : Int) : List Bytes → XreadOpts → Except Reply (XreadOpts × List Bytes)
  | [], _ => .error (addReplyError "syntax error")
  | o :: rest, opts =>
    if strcaseeq o "NOACK" then
      if xreadgroup then xreadParse xreadgroup now rest { opts with noack := true }
      else .error (addReplyError
        "The NOACK option is only supported by XREADGROUP. You called XREAD instead.")
    else
      match rest with
      | [] => .error (addReplyError "syntax error")
      | arg :: more =>
        if strcaseeq o "BLOCK" then do
          let timeout ← getTimeout arg now
          xreadParse xreadgroup now more { opts with timeout }
        else if strcaseeq o "COUNT" then do
          let count ← xreadCount arg
          xreadParse xreadgroup now more { opts with count }
        else if strcaseeq o "STREAMS" then
          if (arg :: more).length % 2 ≠ 0 then .error (addReplyError ("Unbalanced XREAD list of streams: " ++
            "for each stream key an ID or '$' must be specified."))
          else .ok (opts, arg :: more)
        else if strcaseeq o "GROUP" then
          match more with
          | [] => .error (addReplyError "syntax error")
          | consumer :: more =>
            if xreadgroup then xreadParse xreadgroup now more { opts with group := some (arg, consumer) }
            else .error (addReplyError
              "The GROUP option is only supported by XREADGROUP. You called XREAD instead.")
        else .error (addReplyError "syntax error")

/-- The IDs of `xreadCommand`, `>` being the maximal one, and the check of the groups. -/
def xreadResolve (db : StreamDb) (xreadgroup : Bool) (group : Option (Bytes × Bytes)) :
    List (Bytes × Bytes) → Except Reply (List (Bytes × StreamID))
  | [] => .ok []
  | (key, arg) :: rest => do
    let s := db.find? key
    if group.any (fun g => (s.bind fun s => streamLookupCG s g.1).isNone) then
      .error [.error (ascii "-NOGROUP No such key '" ++ cstr key ++ ascii "' or consumer group '" ++
        cstr ((group.map Prod.fst).getD []) ++ ascii "' in XREADGROUP with GROUP option")]
    else if streq arg "$" then
      if xreadgroup then .error (addReplyError ("The $ ID is meaningless in the context of XREADGROUP: you want to " ++
        "read the history of this consumer by specifying a proper ID, or use the > ID to get new messages. The $ ID " ++
        "would just return an empty result set."))
      else do
        let ids ← xreadResolve db xreadgroup group rest
        .ok ((key, (s.map Stream.lastId).getD ⟨0, 0⟩) :: ids)
    else if streq arg ">" then
      if xreadgroup then do
        let ids ← xreadResolve db xreadgroup group rest
        .ok ((key, ⟨-1, -1⟩) :: ids)
      else .error (addReplyError
        "The > ID can be specified only when calling XREADGROUP using the GROUP <group> <consumer> option.")
    else
      match streamParseStrictID arg 0 with
      | none => .error invalidID
      | some id => do
        let ids ← xreadResolve db xreadgroup group rest
        .ok ((key, id) :: ids)

/-- What `xreadCommand` has done so far. -/
structure ReadState where
  db : StreamDb
  reply : Reply
  arraylen : Nat
  dirty : Nat
  propagated : List (List Bytes)

def ReadState.serve (st : ReadState) (key : Bytes) (entries : Reply) : ReadState :=
  { st with reply := st.reply ++ [.multiBulkLen 2, .bulk key] ++ entries, arraylen := st.arraylen + 1 }

def xreadGroupStream (opts : XreadOpts) (now : Int) (groupname consumername : Bytes) (st : ReadState) (key : Bytes)
    (s : Stream) (gt : StreamID) : Except Fault ReadState :=
  match streamLookupCG s groupname with
  | none => .error .badAccess
  | some cg =>
    let history := gt ≠ ⟨-1, -1⟩
    if ¬ history ∧ ¬ (s.length ≠ 0 ∧ 0 < streamCompareID s.lastId cg.lastId) then .ok st
    else do
      let gt := if history then gt else cg.lastId
      match ← streamLookupConsumer cg consumername true now with
      | (_, none) => .error .badAccess
      | (cg, some consumer) => do
        let r ← streamReplyWithRange s ⟨gt.ms, gt.seq + 1⟩ opts.count key groupname cg consumer opts.noack history now
        let st := st.serve key r.reply
        .ok { st with
          db := st.db.insert key (s.setGroup groupname r.group)
          dirty := st.dirty + 1
          propagated := st.propagated ++ r.propagated }

/-- A turn of the loop of `xreadCommand` that serves the client. -/
def xreadStream (opts : XreadOpts) (now : Int) (st : ReadState) (arg : Bytes × StreamID) : Except Fault ReadState :=
  let (key, gt) := arg
  match st.db.find? key with
  | none => .ok st
  | some s =>
    match opts.group with
    | some (groupname, consumername) => xreadGroupStream opts now groupname consumername st key s gt
    | none =>
      if s.length ≠ 0 ∧ 0 < streamCompareID s.lastId gt then do
        let (entries, arraylen) ← streamReplyRaw s (some ⟨gt.ms, gt.seq + 1⟩) none opts.count false
        .ok (st.serve key (.multiBulkLen arraylen :: entries))
      else .ok st

def xreadCommand (db : StreamDb) (now : Int) (argv : List Bytes) : Except Fault CmdResult :=
  let xreadgroup : Bool := (argAt argv 0).length = 10
  match xreadParse xreadgroup now (argv.drop 1) ⟨-1, 0, none, false⟩ with
  | .error reply => .ok (replyOnly db argv reply)
  | .ok (opts, streams) =>
    if xreadgroup ∧ opts.group.isNone then
      .ok (replyOnly db argv (addReplyError "Missing GROUP option for XREADGROUP"))
    else
      let half := streams.length / 2
      match xreadResolve db xreadgroup opts.group ((streams.take half).zip (streams.drop half)) with
      | .error reply => .ok ⟨db, reply, 0, argv, true, []⟩
      | .ok ids => do
        let st ← ids.foldlM (xreadStream opts now) ⟨db, [], 0, 0, []⟩
        let reply := if st.arraylen ≠ 0 then .multiBulkLen st.arraylen :: st.reply
          else if opts.timeout ≠ -1 then [] else [.nullMultiBulk]
        .ok ⟨st.db, reply, st.dirty, argv, true, st.propagated⟩

inductive StreamCommand where
  | xadd | xdel | xtrim | xgroup | xsetid | xack | xclaim | xread | xreadgroup
  deriving DecidableEq

namespace StreamCommand

/-- Name and arity, which is a minimum if negative. -/
def entry : StreamCommand → String × Int
  | xadd => ("xadd", -5)
  | xdel => ("xdel", -3)
  | xtrim => ("xtrim", -2)
  | xgroup => ("xgroup", -2)
  | xsetid => ("xsetid", 3)
  | xack => ("xack", -4)
  | xclaim => ("xclaim", -6)
  | xread => ("xread", -4)
  | xreadgroup => ("xreadgroup", -7)

def all : List StreamCommand := [xadd, xdel, xtrim, xgroup, xsetid, xack, xclaim, xread, xreadgroup]

def proc (cmd : StreamCommand) (cfg : StreamConfig) (db : StreamDb) (now : Int) (argv : List Bytes) :
    Except Fault CmdResult :=
  match cmd with
  | xadd => xaddCommand cfg db now argv
  | xdel => xdelCommand db argv
  | xtrim => xtrimCommand db argv
  | xgroup => xgroupCommand db now argv
  | xsetid => xsetidCommand db argv
  | xack => xackCommand db argv
  | xclaim => xclaimCommand db now argv
  | xread => xreadCommand db now argv
  | xreadgroup => xreadCommand db now argv

end StreamCommand

def lookupCommand (name : Bytes) : Option StreamCommand :=
  StreamCommand.all.find? fun cmd => name.map tolower = ascii cmd.entry.1

def arityOk (arity : Int) (argc : Nat) : Bool := ¬ (0 < arity ∧ arity ≠ argc ∨ (argc : Int) < -arity)

/-- The arguments in the reply to an unknown command. -/
def unknownArgs : Bytes → List Bytes → Bytes
  | args, [] => args
  | args, arg :: rest =>
    if args.length < 128 then
      unknownArgs (args ++ ascii "`" ++ (cstr arg).take (128 - args.length) ++ ascii "`, ") rest
    else args

/-- `processCommand` for a stream command. -/
def processStreamCommand (cfg : StreamConfig) (db : StreamDb) (now : Int) (argv : List Bytes) :
    Except Fault CmdResult :=
  match lookupCommand (argAt argv 0) with
  | none => .ok (replyOnly db argv [.error (ascii "unknown command `" ++ cstr (argAt argv 0) ++
      ascii "`, with args beginning with: " ++ unknownArgs [] (argv.drop 1))])
  | some cmd =>
    if arityOk cmd.entry.2 argv.length then cmd.proc cfg db now argv
    else .ok (replyOnly db argv [.error (ascii "wrong number of arguments for '" ++ ascii cmd.entry.1 ++
      ascii "' command")])

/-- What reaches the replicas and the AOF: the calls of `propagate`, and then the command if it was dirty. -/
def CmdResult.feeds (r : CmdResult) : List (List Bytes) :=
  r.propagated ++ if r.dirty ≠ 0 ∧ r.prevented = false then [r.argv] else []

section Parsing

variable {i : Nat} {opts rest : List Bytes} {trim : TrimArgs} {args : XaddArgs}

section Maxlen

variable {opt next arg : Bytes} (ho : ¬ streq opt "*" = true) (hm : strcaseeq opt "maxlen" = true)
include ho hm

lemma xaddParse_sign (hn : (streq next "~" || streq next "=") = true) :
    xaddParse i (opt :: next :: arg :: rest) trim =
      (maxlenValue arg >>= fun maxlen => xaddParse (i + 3) rest ⟨maxlen, streq next "~", i + 2⟩) := by
  rw [xaddParse.eq_def]
  simp only [ho, hm, hn, Bool.false_eq_true, if_false, if_true]

lemma xaddParse_plain (hn : ¬ (streq next "~" || streq next "=") = true) :
    xaddParse i (opt :: next :: arg :: rest) trim =
      (maxlenValue next >>= fun maxlen => xaddParse (i + 2) (arg :: rest) ⟨maxlen, false, i + 1⟩) := by
  rw [xaddParse.eq_def]
  simp only [ho, hm, hn, Bool.false_eq_true, if_false, if_true]

end Maxlen

lemma xaddID_fields {opt : Bytes} (h : xaddID i opt trim rest = .ok args) :
    args.idIdx = i ∧ args.fields = rest ∧ args.trim = trim := by
  rw [xaddID] at h
  split at h
  · cases h
  · cases h
    exact ⟨rfl, rfl, rfl⟩

lemma xaddParse_idx (h : xaddParse i opts trim = .ok args) : args.trim = trim ∨
    i < args.trim.idx ∧ (args.trim.approx = true → i + 2 ≤ args.trim.idx) := by
  fun_induction xaddParse i opts trim with
  | case1 | case2 =>
    cases h
    exact .inl rfl
  | case3 | case7 => exact .inl (xaddID_fields h).2.2
  | case4 i opt trim ho hm arg ih =>
    obtain ⟨maxlen, -, ⟨⟩⟩ := bind_eq_ok.mp h
    exact .inr ⟨Nat.lt_succ_self i, fun h => (nomatch h)⟩
  | case5 i opt trim ho hm next arg rest hn ih =>
    obtain ⟨maxlen, -, h⟩ := bind_eq_ok.mp h
    right
    rcases ih maxlen h with heq | ⟨hlt, -⟩
    · rw [heq]
      exact ⟨by simp only; omega, fun _ => le_rfl⟩
    · exact ⟨by omega, fun _ => by omega⟩
  | case6 i opt trim ho hm next arg rest hn ih =>
    obtain ⟨maxlen, -, h⟩ := bind_eq_ok.mp h
    right
    rcases ih maxlen h with heq | ⟨hlt, -⟩
    · rw [heq]
      exact ⟨Nat.lt_succ_self i, fun h => (nomatch h)⟩
    · exact ⟨by omega, fun _ => by omega⟩

section Maxlen

variable {opt next arg : Bytes} {given : Bool} (hm : strcaseeq opt "maxlen" = true)
include hm

lemma xtrimParse_sign (hn : (streq next "~" || streq next "=") = true) :
    xtrimParse i (opt :: next :: arg :: rest) trim given =
      (maxlenValue arg >>= fun maxlen => xtrimParse (i + 3) rest ⟨maxlen, streq next "~", i + 2⟩ true) := by
  rw [xtrimParse.eq_def]
  simp only [hm, hn, if_true]

lemma xtrimParse_plain (hn : ¬ (streq next "~" || streq next "=") = true) :
    xtrimParse i (opt :: next :: arg :: rest) trim given =
      (maxlenValue next >>= fun maxlen => xtrimParse (i + 2) (arg :: rest) ⟨maxlen, false, i + 1⟩ true) := by
  rw [xtrimParse.eq_def]
  simp only [hm, hn, Bool.false_eq_true, if_false, if_true]

end Maxlen

lemma xtrimParse_idx {given : Bool} {r} (h : xtrimParse i opts trim given = .ok r) :
    r = (trim, given) ∧ opts = [] ∨ i < r.1.idx ∧ (r.1.approx = true → i + 2 ≤ r.1.idx) := by
  fun_induction xtrimParse i opts trim given with
  | case1 =>
    cases h
    exact .inl ⟨rfl, rfl⟩
  | case2 => cases h
  | case3 =>
    obtain ⟨maxlen, -, ⟨⟩⟩ := bind_eq_ok.mp h
    exact .inr ⟨Nat.lt_succ_self _, fun h => (nomatch h)⟩
  | case4 i opt _ _ hm next arg rest hn ih =>
    obtain ⟨maxlen, -, h⟩ := bind_eq_ok.mp h
    right
    rcases ih maxlen h with ⟨rfl, -⟩ | ⟨hlt, -⟩
    · exact ⟨by simp only; omega, fun _ => le_rfl⟩
    · exact ⟨by omega, fun _ => by omega⟩
  | case5 i opt _ _ hm next arg rest hn ih =>
    obtain ⟨maxlen, -, h⟩ := bind_eq_ok.mp h
    right
    rcases ih maxlen h with ⟨-, hnil⟩ | ⟨hlt, -⟩
    · cases hnil
    · exact ⟨by omega, fun _ => by omega⟩
  | case6 => cases h

end Parsing

end JitRedis
