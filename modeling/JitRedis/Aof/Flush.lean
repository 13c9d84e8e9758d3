import JitRedis.Lib.Runs
import JitRedis.Aof.Feed

/-!
# Flushing the append only file

Model of `flushAppendOnlyFile` of `src/aof.c` with any outcome of its system calls. A write that was cut short is undone
by `ftruncate`, or the bytes that were written are dropped from the buffer. Whatever happens, the file and the buffer
together have all that was fed.
-/

open Fallible Runs List

namespace JitRedis.Aof

/-- `appendfsync` -/
inductive Fsync where
  | no
  | always
  | everysec
  deriving DecidableEq

/-- The outcome of a call of `write`. -/
inductive Write where
  | written (n : Nat)
  | interrupted
  | failed

structure Server where
  /-- `aof_state == AOF_ON` -/
  on : Bool
  aofFsync : Fsync
  aofBuf : Bytes
  aofFile : Bytes
  aofCurrentSize : Nat
  aofSelectedDb : Int
  aofFsyncOffset : Nat
  aofLastFsync : Int
  aofFlushPostponedStart : Int
  aofLastWriteStatus : Bool

/-- What a call of `flushAppendOnlyFile` finds. -/
structure Flush where
  force : Bool
  unixtime : Int
  /-- `aofFsyncInProgress()` -/
  syncInProgress : Bool
  /-- `aof_no_fsync_on_rewrite`, and a child is running -/
  noFsync : Bool
  writes : List Write
  /-- `ftruncate` succeeds -/
  truncated : Bool

/-- The loop of `aofWrite`: the bytes written, or `some none` for -1. A `write` that does not return has no outcome. -/
def aofWrite : List Write → Nat → Nat → Option (Option Nat)
  | _, 0, totwritten => some (some totwritten)
  | [], _, _ => none
  | .interrupted :: writes, len, totwritten => aofWrite writes len totwritten
  | .failed :: _, _, totwritten => some (if totwritten = 0 then none else some totwritten)
  | .written n :: writes, len, totwritten => aofWrite writes (len - min n len) (totwritten + min n len)

def ftruncate (file : Bytes) (size : Nat) : Bytes := file.take size ++ List.replicate (size - file.length) 0

/-- `try_fsync` and what follows it. -/
def tryFsync (s : Server) (fl : Flush) (syncInProgress : Bool) : Server :=
  if fl.noFsync then s
  else if s.aofFsync = .always then { s with aofFsyncOffset := s.aofCurrentSize, aofLastFsync := fl.unixtime }
  else if s.aofFsync = .everysec ∧ s.aofLastFsync < fl.unixtime then
    { s with
      aofFsyncOffset := if syncInProgress then s.aofFsyncOffset else s.aofCurrentSize
      aofLastFsync := fl.unixtime }
  else s

/-- The file and the buffer after `aofWrite`. With `appendfsync always` the server exits if not all was written. -/
def afterWrite (s : Server) (fl : Flush) (syncInProgress : Bool) (nwritten : Option Nat) : Option Server :=
  let file := s.aofFile ++ s.aofBuf.take (nwritten.getD 0)
  let s := { s with aofFlushPostponedStart := 0 }
  if nwritten = some s.aofBuf.length then
    some (tryFsync { s with
      aofFile := file, aofBuf := [], aofCurrentSize := s.aofCurrentSize + s.aofBuf.length, aofLastWriteStatus := true }
      fl syncInProgress)
  else if s.aofFsync = .always then none
  else
    let undone := nwritten.isSome && fl.truncated
    let kept := if undone then 0 else nwritten.getD 0
    some { s with
      aofFile := if undone then ftruncate file s.aofCurrentSize else file
      aofBuf := s.aofBuf.drop kept
      aofCurrentSize := s.aofCurrentSize + kept
      aofLastWriteStatus := false }

def flushAppendOnlyFile (s : Server) (fl : Flush) : Option Server :=
  if s.aofBuf = [] then
    if s.aofFsync = .everysec ∧ s.aofFsyncOffset ≠ s.aofCurrentSize ∧ s.aofLastFsync < fl.unixtime ∧ !fl.syncInProgress then
      some (tryFsync s fl false)
    else some s
  else
    let syncInProgress := s.aofFsync = .everysec && fl.syncInProgress
    if syncInProgress ∧ !fl.force ∧ s.aofFlushPostponedStart = 0 then
      some { s with aofFlushPostponedStart := fl.unixtime }
    else if syncInProgress ∧ !fl.force ∧ fl.unixtime - s.aofFlushPostponedStart < 2 then some s
    else do
      let nwritten ← aofWrite fl.writes s.aofBuf.length 0
      afterWrite s fl syncInProgress nwritten

def feedAppendOnlyFile (s : Server) (f : AofFeed) : Option Server := do
  let buf ← (feedBuf s.aofSelectedDb f).toOption
  some { s with aofSelectedDb := f.dictid.val, aofBuf := if s.on then s.aofBuf ++ buf else s.aofBuf }

inductive Event where
  | feed (f : AofFeed)
  | flush (fl : Flush)

def step (s : Server) : Event → Option Server
  | .feed f => feedAppendOnlyFile s f
  | .flush fl => flushAppendOnlyFile s fl

/-- The commands that were fed. -/
def feeds (evs : List Event) : List AofFeed :=
  evs.filterMap fun
    | .feed f => some f
    | .flush _ => none

/-- The append only file has just been opened, with what it held before. -/
def start (file : Bytes) (fsync : Fsync) (selected now : Int) : Server where
  on := true
  aofFsync := fsync
  aofBuf := []
  aofFile := file
  aofCurrentSize := file.length
  aofSelectedDb := selected
  aofFsyncOffset := 0
  aofLastFsync := now
  aofFlushPostponedStart := 0
  aofLastWriteStatus := true

/-- A flush moves bytes from the buffer to the end of the file, and nothing else. -/
structure Moved (s s' : Server) : Prop where
  on : s'.on = s.on
  db : s'.aofSelectedDb = s.aofSelectedDb
  text : s'.aofFile ++ s'.aofBuf = s.aofFile ++ s.aofBuf
  size : s'.aofCurrentSize = s'.aofFile.length

/-- Nothing is lost or doubled, and the size is that of the file. -/
structure Exact (base : Bytes) (selected : Int) (evs : List Event) (s : Server) : Prop where
  on : s.on = true
  db : s.aofSelectedDb = fedDb selected (feeds evs)
  text : s.aofFile ++ s.aofBuf = base ++ commandsText (fedCommands selected (feeds evs))
  size : s.aofCurrentSize = s.aofFile.length

variable {base : Bytes} {selected : Int} {evs : List Event} {s s' : Server} {fl : Flush}

lemma aofWrite_le {writes : List Write} {len tot n} (h : aofWrite writes len tot = some (some n)) : n ≤ tot + len := by
  fun_induction aofWrite writes len tot with
  | case1 writes tot =>
    cases h
    exact Nat.le_add_right ..
  | case2 => cases h
  | case3 len tot writes hlen ih => exact ih h
  | case4 len tot writes hlen =>
    split at h
    · cases h
    · cases h
      exact Nat.le_add_right ..
  | case5 len tot n writes hlen ih =>
    have := ih h
    omega

lemma Moved.tryFsync {sync : Bool} (h : Moved s s') : Moved s (tryFsync s' fl sync) := by
  unfold Aof.tryFsync
  split_ifs <;> exact { h with }

/-- The file had the size that is kept before the write, so `ftruncate` removes what was written and no more. -/
lemma ftruncate_append {file b : Bytes} : ftruncate (file ++ b) file.length = file := by
  rw [ftruncate, take_left, length_append, Nat.sub_eq_zero_of_le (Nat.le_add_right ..), replicate_zero, append_nil]

lemma afterWrite_moved {sync : Bool} {n : Option Nat} (hsize : s.aofCurrentSize = s.aofFile.length)
    (hn : n.getD 0 ≤ s.aofBuf.length) (h : afterWrite s fl sync n = some s') : Moved s s' := by
  rw [afterWrite] at h
  dsimp only at h
  split_ifs at h with hall halways hundone
  · cases h
    rw [hall, Option.getD_some, take_length]
    refine Moved.tryFsync ⟨rfl, rfl, append_nil _, ?_⟩
    rw [length_append, hsize]
  · cases h
    rw [hsize, ftruncate_append]
    exact ⟨rfl, rfl, rfl, rfl⟩
  · cases h
    refine ⟨rfl, rfl, ?_, ?_⟩
    · rw [append_assoc, take_append_drop]
    · rw [length_append, length_take, Nat.min_eq_left hn, hsize]

lemma flushAppendOnlyFile_moved (hsize : s.aofCurrentSize = s.aofFile.length)
    (h : flushAppendOnlyFile s fl = some s') : Moved s s' := by
  have here : Moved s s := ⟨rfl, rfl, rfl, hsize⟩
  rw [flushAppendOnlyFile] at h
  dsimp only at h
  split_ifs at h
  · cases h
    exact here.tryFsync
  · cases h
    exact here
  · cases h
    exact { here with }
  · cases h
    exact here
  · obtain ⟨n, hwrite, h⟩ := Option.bind_eq_some_iff.mp h
    refine afterWrite_moved hsize ?_ h
    cases n with
    | none => exact Nat.zero_le _
    | some n => exact (aofWrite_le hwrite).trans_eq (Nat.zero_add _)

lemma Exact.feed {f : AofFeed} (h : Exact base selected evs s) (hfeed : feedAppendOnlyFile s f = some s') :
    Exact base selected (evs ++ [.feed f]) s' := by
  obtain ⟨buf, hbuf, ⟨⟩⟩ := Option.bind_eq_some_iff.mp hfeed
  have hfeeds : feeds (evs ++ [.feed f]) = feeds evs ++ [f] := filterMap_append
  refine ⟨h.on, ?_, ?_, h.size⟩
  · rw [hfeeds, fedDb_snoc]
  · rw [hfeeds, fedCommands_append, commandsText_append, ← append_assoc, ← h.text, ← h.db, ← feedBuf_toOption hbuf]
    rw [if_pos h.on, append_assoc]

lemma Exact.step {e : Event} (h : Exact base selected evs s) (hstep : step s e = some s') :
    Exact base selected (evs ++ [e]) s' := by
  cases e with
  | feed f => exact h.feed hstep
  | flush fl =>
    have moved := flushAppendOnlyFile_moved h.size hstep
    have hfeeds : feeds (evs ++ [.flush fl]) = feeds evs := filterMap_append.trans (append_nil _)
    refine ⟨moved.on.trans h.on, ?_, ?_, moved.size⟩
    · rw [hfeeds, moved.db, h.db]
    · rw [hfeeds, moved.text, h.text]

/-- Whatever the writes and truncations do, the file followed by the buffer is what the file held at the start and then
each command that was fed, once and in order. `aof_current_size` is the length of the file. -/
theorem aof_loses_nothing (file : Bytes) (fsync : Fsync) (selected now : Int) (evs : List Event) {s : Server}
    (hrun : run step (start file fsync selected now) evs = some s) :
    s.aofFile ++ s.aofBuf = file ++ commandsText (fedCommands selected (feeds evs)) ∧
      s.aofCurrentSize = s.aofFile.length := by
  have first : Exact file selected [] (start file fsync selected now) := ⟨rfl, rfl, rfl, rfl⟩
  have h := run_history (h := []) Exact.step first hrun
  exact ⟨h.text, h.size⟩

/-- A flush whose write is cut short. -/
def cutShort (n : Nat) (truncated : Bool) : Flush where
  force := false
  unixtime := 1
  syncInProgress := false
  noFsync := false
  writes := [.interrupted, .written n, .failed]
  truncated := truncated

/-- The first cut write stays in the file, the second is undone. -/
theorem aof_loses_nothing_cut_short :
    ∃ s, (run step (start [] .everysec (-1) 0)
        [.feed ⟨.other, 0, [ascii "INCR", ascii "k"], 0⟩, .flush (cutShort 3 false), .flush (cutShort 5 true)] = some s ∧
      s.aofFile.length = 3 ∧ s.aofLastWriteStatus = false) ∧
      s.aofFile ++ s.aofBuf = commandsText [[ascii "SELECT", ascii "0"], [ascii "INCR", ascii "k"]] := by
  obtain ⟨s, hrun, hs⟩ := run_checked step (start [] .everysec (-1) 0)
    [.feed ⟨.other, 0, [ascii "INCR", ascii "k"], 0⟩, .flush (cutShort 3 false), .flush (cutShort 5 true)]
    (p := fun s => decide (s.aofFile.length = 3 ∧ s.aofLastWriteStatus = false)) (by decide +kernel)
  refine ⟨s, ⟨hrun, of_decide_eq_true hs⟩, (aof_loses_nothing _ _ _ _ _ hrun).1.trans ?_⟩
  decide +kernel

end JitRedis.Aof
