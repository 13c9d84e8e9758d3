import JitRedis.Aof.Format

/-!
# Feeding the append only file

Model of `feedAppendOnlyFile` of `src/aof.c`: what a command that was executed is written as. Relative expire times
become absolute, and a `SELECT` is written when the database is not the one of the command before.
-/

open Fallible List

namespace JitRedis

/-- The procedures of the commands that are translated. -/
inductive FeedProc where
  | expire
  | pexpire
  | expireat
  | setex
  | psetex
  | set
  | other
  deriving DecidableEq

/-- A call of `feedAppendOnlyFile`, with the clock it reads. -/
structure AofFeed where
  proc : FeedProc
  dictid : Fin (2 ^ 31)
  argv : List Bytes
  /-- `mstime()` -/
  now : Int
  deriving DecidableEq

/-- The arguments of the command that `catAppendOnlyExpireAtCommand` appends. -/
def pexpireatArgv (proc : FeedProc) (key seconds : Bytes) (now : Int) : List Bytes :=
  let time := strtol seconds
  let time :=
    if proc = .expire ∨ proc = .setex ∨ proc = .expireat then (time * 1000).bmod (2 ^ 64) else time
  let time :=
    if proc = .expire ∨ proc = .pexpire ∨ proc = .setex ∨ proc = .psetex then (time + now).bmod (2 ^ 64) else time
  [ascii "PEXPIREAT", key, ll2string time]

/-- The loop over the options of `SET`: `exarg` and `pxarg`, each the argument behind its option. -/
def setOptions : List Bytes → Option (Option Bytes) → Option (Option Bytes) →
    Option (Option Bytes) × Option (Option Bytes)
  | [], exarg, pxarg => (exarg, pxarg)
  | arg :: rest, exarg, pxarg =>
    setOptions rest (if strcaseeq arg "ex" then some rest.head? else exarg)
      (if strcaseeq arg "px" then some rest.head? else pxarg)

/-- `argv[i]` -/
def AofFeed.arg (f : AofFeed) (i : Nat) : Except Fault Bytes :=
  match f.argv[i]? with
  | some arg => .ok arg
  | none => .error .badAccess

/-- The commands that a command is written as. -/
def AofFeed.commands (f : AofFeed) : Except Fault (List (List Bytes)) :=
  match f.proc with
  | .expire | .pexpire | .expireat => do
    let key ← f.arg 1
    let seconds ← f.arg 2
    .ok [pexpireatArgv f.proc key seconds f.now]
  | .setex | .psetex => do
    let key ← f.arg 1
    let val ← f.arg 3
    let seconds ← f.arg 2
    .ok [[ascii "SET", key, val], pexpireatArgv f.proc key seconds f.now]
  | .set =>
    if 3 < f.argv.length then do
      let key ← f.arg 1
      match setOptions (f.argv.drop 3) none none with
      | (some _, some _) => .error .assertFailed
      | (some (some exarg), none) => .ok [f.argv.take 3, pexpireatArgv .expire key exarg f.now]
      | (none, some (some pxarg)) => .ok [f.argv.take 3, pexpireatArgv .pexpire key pxarg f.now]
      | (none, none) => .ok [f.argv.take 3]
      | _ => .error .badAccess
    else .ok [f.argv]
  | .other => .ok [f.argv]

/-- The `SELECT` that `feedAppendOnlyFile` prints; `selected` is `server.aof_selected_db`. -/
def selectText (selected : Int) (dictid : Fin (2 ^ 31)) : Bytes :=
  if (dictid.val : Int) ≠ selected then
    let seldb := decimal dictid
    ascii "*2" ++ crlf ++ ascii "$6" ++ crlf ++ ascii "SELECT" ++ crlf ++ ascii "$" ++ decimal seldb.length ++ crlf ++
      seldb ++ crlf
  else []

/-- The bytes that `feedAppendOnlyFile` appends to the buffers. -/
def feedBuf (selected : Int) (f : AofFeed) : Except Fault Bytes := do
  let cmds ← f.commands
  .ok (cmds.foldl catAppendOnlyGenericCommand (selectText selected f.dictid))

/-- The `SELECT` in front of a command, if there is one. -/
def selectCommand (selected : Int) (dictid : Fin (2 ^ 31)) : List (List Bytes) :=
  if (dictid.val : Int) ≠ selected then [[ascii "SELECT", decimal dictid]] else []

/-- What a sequence of commands is written as, each one once and in order. -/
def fedCommands : Int → List AofFeed → List (List Bytes)
  | _, [] => []
  | selected, f :: fs =>
    selectCommand selected f.dictid ++ f.commands.toOption.getD [] ++ fedCommands f.dictid.val fs

/-- The database that is selected behind a sequence of commands. -/
def fedDb (selected : Int) (fs : List AofFeed) : Int := fs.foldl (fun _ f => f.dictid.val) selected

variable {selected : Int} {f : AofFeed} {fs : List AofFeed}

lemma selectText_eq (selected : Int) (dictid : Fin (2 ^ 31)) :
    selectText selected dictid = commandsText (selectCommand selected dictid) := by
  have hlen : (decimal dictid).length < 2 ^ 62 := by
    have := length_decimal_le (n := dictid) (by omega)
    omega
  rw [selectText, selectCommand]
  split
  · have hselect : bulkText (ascii "SELECT") = ascii "$6" ++ crlf ++ ascii "SELECT" ++ crlf := by decide
    have htwo : headerText 42 2 = ascii "*2" ++ crlf := by decide
    have hdollar : ascii "$" = [36] := by decide
    have htext : commandText [ascii "SELECT", decimal dictid] =
        headerText 42 2 ++ (bulkText (ascii "SELECT") ++ bulkText (decimal dictid)) := by
      rw [commandText_eq (by simp)]
      simp
    rw [commandsText, flatMap_singleton, htext, htwo, hselect, bulkText_eq hlen, headerText, hdollar]
    simp
  · rfl

lemma foldl_catAppendOnlyGenericCommand (cmds : List (List Bytes)) (dst : Bytes) :
    cmds.foldl catAppendOnlyGenericCommand dst = dst ++ commandsText cmds := by
  induction cmds generalizing dst with
  | nil => exact (append_nil dst).symm
  | cons argv cmds ih =>
    rw [foldl_cons, ih, catAppendOnlyGenericCommand_eq, append_assoc]
    rfl

lemma feedBuf_eq {buf : Bytes} (h : feedBuf selected f = .ok buf) : buf = commandsText (fedCommands selected [f]) := by
  obtain ⟨cmds, hcmds, h⟩ := bind_eq_ok.mp h
  rw [foldl_catAppendOnlyGenericCommand, selectText_eq, ← commandsText_append] at h
  cases h
  rw [fedCommands, fedCommands, hcmds, append_nil]
  rfl

lemma feedBuf_toOption {buf : Bytes} (h : (feedBuf selected f).toOption = some buf) :
    buf = commandsText (fedCommands selected [f]) := feedBuf_eq (toOption_eq_some.mp h)

lemma fedDb_snoc : fedDb selected (fs ++ [f]) = f.dictid.val := by
  rw [fedDb, foldl_append]
  rfl

lemma fedCommands_append (fs gs : List AofFeed) :
    fedCommands selected (fs ++ gs) = fedCommands selected fs ++ fedCommands (fedDb selected fs) gs := by
  induction fs generalizing selected with
  | nil => rfl
  | cons f fs ih =>
    rw [cons_append, fedCommands, fedCommands, ih, append_assoc _ _ (fedCommands _ gs)]
    rfl

end JitRedis
