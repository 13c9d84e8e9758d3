import JitRedis.Aof.Feed
import JitRedis.Lib.Runs

/-!
# The background rewrite of the append only file

Model of the two processes of a background rewrite, after `src/aof.c`. The parent keeps what is fed since the fork in a
list of blocks and sends it through a pipe; the child writes a snapshot, collects what it reads from the pipe, and asks
the parent to stop. Events are the handlers of the parent's event loop and the system calls of the child, in any order.
What a system call returns is part of its event.
-/

open Fallible Runs List

namespace JitRedis

def aofRwBufBlockSize : Nat := 1024 * 1024 * 10

/-- `aofrwblock`; `used` is the length of `buf`. -/
structure AofrwBlock where
  buf : Bytes
  free : Nat
  size : buf.length + free = aofRwBufBlockSize
  deriving DecidableEq

namespace AofrwBlock

def empty : AofrwBlock := ⟨[], aofRwBufBlockSize, by simp⟩

/-- Copying into a block what fits into it. -/
def fill (block : AofrwBlock) (s : Bytes) : AofrwBlock :=
  ⟨block.buf ++ s.take block.free, block.free - s.length, by
    have := block.size
    rw [length_append, length_take]
    omega⟩

/-- Removing from a block the `n` bytes that were written. -/
def sent (block : AofrwBlock) (n : Nat) : AofrwBlock :=
  ⟨block.buf.drop n, block.free + min n block.buf.length, by
    have := block.size
    rw [length_drop]
    omega⟩

end AofrwBlock

/-- The loop of `aofRewriteBufferAppend`. Each turn but the first one copies at least a byte. -/
def aofRewriteBufferAppend : Nat → List AofrwBlock → Bytes → List AofrwBlock
  | 0, blocks, _ => blocks
  | fuel + 1, blocks, s =>
    if s = [] then blocks
    else
      let (blocks, s) :=
        match blocks.getLast? with
        | some block => (blocks.dropLast ++ [block.fill s], s.drop block.free)
        | none => (blocks, s)
      if s = [] then blocks else aofRewriteBufferAppend fuel (blocks ++ [.empty]) s

/-- The loop of `aofChildWriteDiffData`, on what each `write` returns; the flag tells whether the handler stays. -/
def aofChildWriteDiffLoop : List Nat → List AofrwBlock → Bytes → List AofrwBlock × Bytes × Bool
  | [], blocks, pipe =>
    let blocks := blocks.dropWhile (·.buf = [])
    (blocks, pipe, blocks ≠ [])
  | nwritten :: results, blocks, pipe =>
    match blocks.dropWhile (·.buf = []) with
    | [] => ([], pipe, false)
    | block :: rest =>
      if nwritten = 0 then (block :: rest, pipe, true)
      else aofChildWriteDiffLoop results (block.sent nwritten :: rest) (pipe ++ block.buf.take nwritten)

/-- `aofRewriteBufferWrite`: whether all of the buffer was written, and the file. -/
def aofRewriteBufferWrite : List Nat → List AofrwBlock → Bytes → Bool × Bytes
  | _, [], file => (true, file)
  | results, block :: rest, file =>
    if block.buf = [] then aofRewriteBufferWrite results rest file
    else
      let nwritten := results.headD 0
      if nwritten = block.buf.length then aofRewriteBufferWrite results.tail rest (file ++ block.buf)
      else (false, file ++ block.buf.take nwritten)

inductive AofState where
  | off
  | on
  | waitRewrite
  deriving DecidableEq

/-- Where the child is in `rewriteAppendOnlyFile`. -/
inductive ChildPhase where
  /-- In `rewriteAppendOnlyFileRio` or `rdbSaveRio`. -/
  | snapshot
  /-- Reading again, for a second at most. -/
  | catchUp
  /-- It has asked the parent to stop. -/
  | waitAck
  /-- Reading the final difference. -/
  | finalRead
  /-- Writing the difference to the file. -/
  | concat
  | exited (exitcode : Bool)
  deriving DecidableEq

structure RewriteChild where
  phase : ChildPhase
  /-- In the loop of `aofReadDiffFromParent`. -/
  reading : Bool
  /-- What is left to write of the snapshot. -/
  left : Bytes
  /-- The temporary file of the child. -/
  tmpfile : Bytes
  aofChildDiff : Bytes
  deriving DecidableEq

structure RewriteState where
  aofState : AofState
  /-- `aof_fd != -1` -/
  aofFd : Bool
  aofBuf : Bytes
  /-- The contents of `aof_filename`. -/
  aofFile : Bytes
  aofSelectedDb : Int
  /-- `aof_child_pid != -1` -/
  aofChildPid : Bool
  aofRewriteBufBlocks : List AofrwBlock
  aofStopSendingDiff : Bool
  /-- A handler is installed on the pipe to the child. -/
  dataEvent : Bool
  /-- A handler is installed on the pipe from the child. -/
  ackEvent : Bool
  dataPipe : Bytes
  ackToParent : Bytes
  ackToChild : Bytes
  child : RewriteChild
  /-- `temp-rewriteaof-bg-%d.aof`, which is there once the child has renamed its file to it. -/
  bgFile : Option Bytes
  deriving DecidableEq

inductive RewriteEvent where
  | feed (f : AofFeed)
  /-- `flushAppendOnlyFile`; `nwritten` bytes are written, and a short write is removed by `ftruncate` or not. -/
  | flush (nwritten : Nat) (truncated : Bool)
  /-- `rewriteAppendOnlyFileBackground`; the snapshot is what the child writes for the dataset. -/
  | fork (snapshot : Bytes)
  /-- `aofChildWriteDiffData` -/
  | sendDiff (results : List Nat)
  /-- `aofChildPipeReadable` -/
  | ack (sent : Bool)
  | childWrites (n : Nat)
  | childSnapshotDone
  | childStartsReading
  /-- A `read` of the child; 0 for nothing to read. -/
  | childReads (n : Nat)
  | childAsks
  | childGetsAck
  | childConcats
  | childFails
  /-- `backgroundRewriteDoneHandler` -/
  | done (opened : Bool) (results : List Nat) (renamed : Bool)
  deriving DecidableEq

/-- `aofReadDiffFromParent` has nothing more to read. -/
def RewriteChild.readEnds (c : RewriteChild) : RewriteChild :=
  { c with reading := false, phase := if c.phase = .finalRead then .concat else c.phase }

/-- The label `cleanup` of `backgroundRewriteDoneHandler`. -/
def RewriteState.cleanup (s : RewriteState) : RewriteState :=
  { s with
    dataEvent := false, ackEvent := false, dataPipe := [], ackToParent := [], ackToChild := []
    aofRewriteBufBlocks := [], bgFile := none, aofChildPid := false }

/-- What `backgroundRewriteDoneHandler` does once the new file is in place. -/
def RewriteState.installed (s : RewriteState) (file : Bytes) : RewriteState :=
  { s with
    aofFile := file
    aofSelectedDb := if s.aofFd then -1 else s.aofSelectedDb
    aofBuf := if s.aofFd then [] else s.aofBuf
    aofState := if s.aofState = .waitRewrite then .on else s.aofState }

/-- The file that `backgroundRewriteDoneHandler` puts in place, if the child has succeeded and no system call fails. -/
def RewriteState.newFile (s : RewriteState) (opened : Bool) (results : List Nat) (renamed : Bool) : Option Bytes :=
  match s.child.phase, s.bgFile with
  | .exited true, some file =>
    if opened then
      let (ok, file) := aofRewriteBufferWrite results s.aofRewriteBufBlocks file
      if ok ∧ renamed then some file else none
    else none
  | _, _ => none

def rewriteStep (s : RewriteState) : RewriteEvent → Option RewriteState
  | .feed f => do
    -- `propagate` does not call `feedAppendOnlyFile` with the file switched off
    guard (s.aofState ≠ .off)
    let buf ← (feedBuf s.aofSelectedDb f).toOption
    let aofBuf := if s.aofState = .on then s.aofBuf ++ buf else s.aofBuf
    let s := { s with aofSelectedDb := f.dictid.val, aofBuf }
    some <| if s.aofChildPid then
      { s with aofRewriteBufBlocks := aofRewriteBufferAppend (buf.length + 2) s.aofRewriteBufBlocks buf, dataEvent := true }
    else s
  | .flush nwritten truncated => do
    guard (s.aofFd = true ∧ s.aofBuf ≠ [])
    some <| if s.aofBuf.length ≤ nwritten then { s with aofFile := s.aofFile ++ s.aofBuf, aofBuf := [] }
      else if truncated then s
      else { s with aofFile := s.aofFile ++ s.aofBuf.take nwritten, aofBuf := s.aofBuf.drop nwritten }
  | .fork snapshot => do
    guard (s.aofChildPid = false)
    some { s with
      aofStopSendingDiff := false, dataEvent := false, ackEvent := true
      dataPipe := [], ackToParent := [], ackToChild := []
      child := ⟨.snapshot, false, snapshot, [], []⟩, bgFile := none
      aofChildPid := true, aofSelectedDb := -1 }
  | .sendDiff results => do
    guard (s.dataEvent = true)
    if s.aofStopSendingDiff then some { s with dataEvent := false }
    else
      let (blocks, pipe, stays) := aofChildWriteDiffLoop results s.aofRewriteBufBlocks s.dataPipe
      some { s with aofRewriteBufBlocks := blocks, dataPipe := pipe, dataEvent := stays }
  | .ack sent => do
    guard (s.ackEvent = true)
    match s.ackToParent with
    | [] => none
    | byte :: rest =>
      let s := { s with ackToParent := rest, ackEvent := false }
      some <| if byte = 33 then
        { s with aofStopSendingDiff := true, ackToChild := if sent then s.ackToChild ++ [33] else s.ackToChild }
      else s
  | .childWrites n => do
    guard (s.aofChildPid = true ∧ s.child.phase = .snapshot ∧ s.child.reading = false)
    some { s with
      child := { s.child with tmpfile := s.child.tmpfile ++ s.child.left.take n, left := s.child.left.drop n } }
  | .childSnapshotDone => do
    guard (s.aofChildPid = true ∧ s.child.phase = .snapshot ∧ s.child.reading = false ∧ s.child.left = [])
    some { s with child := { s.child with phase := .catchUp } }
  | .childStartsReading => do
    guard (s.aofChildPid = true ∧ (s.child.phase = .snapshot ∨ s.child.phase = .catchUp) ∧ s.child.reading = false)
    some { s with child := { s.child with reading := true } }
  | .childReads n => do
    guard (s.aofChildPid = true ∧ s.child.reading = true ∧ n ≤ min s.dataPipe.length 65536 ∧ (n = 0 → s.dataPipe = []))
    some <| if n = 0 then { s with child := s.child.readEnds }
      else { s with
        dataPipe := s.dataPipe.drop n
        child := { s.child with aofChildDiff := s.child.aofChildDiff ++ s.dataPipe.take n } }
  | .childAsks => do
    guard (s.aofChildPid = true ∧ s.child.phase = .catchUp ∧ s.child.reading = false)
    some { s with ackToParent := s.ackToParent ++ [33], child := { s.child with phase := .waitAck } }
  | .childGetsAck => do
    guard (s.aofChildPid = true ∧ s.child.phase = .waitAck)
    match s.ackToChild with
    | [] => none
    | byte :: rest =>
      let s := { s with ackToChild := rest }
      some <| if byte = 33 then { s with child := { s.child with phase := .finalRead, reading := true } }
        else { s with child := { s.child with phase := .exited false } }
  | .childConcats => do
    guard (s.aofChildPid = true ∧ s.child.phase = .concat)
    some { s with
      bgFile := some (s.child.tmpfile ++ s.child.aofChildDiff), child := { s.child with phase := .exited true } }
  | .childFails => do
    guard (s.aofChildPid = true ∧ ∀ exitcode, s.child.phase ≠ .exited exitcode)
    some { s with child := { s.child with phase := .exited false } }
  | .done opened results renamed => do
    guard (s.aofChildPid = true ∧ (s.child.phase = .exited true ∨ s.child.phase = .exited false))
    some (match s.newFile opened results renamed with
      | some file => s.installed file
      | none => s).cleanup

def RewriteState.start (aofState : AofState) (aofFile : Bytes) : RewriteState where
  aofState := aofState
  aofFd := aofState ≠ .off
  aofBuf := []
  aofFile := aofFile
  aofSelectedDb := -1
  aofChildPid := false
  aofRewriteBufBlocks := []
  aofStopSendingDiff := false
  dataEvent := false
  ackEvent := false
  dataPipe := []
  ackToParent := []
  ackToChild := []
  child := ⟨.exited false, false, [], [], []⟩
  bgFile := none

def fedEvents (evs : List RewriteEvent) : List AofFeed :=
  evs.filterMap fun
    | .feed f => some f
    | _ => none

def RewriteEvent.isDone : RewriteEvent → Bool
  | .done .. => true
  | _ => false

def blocksText (blocks : List AofrwBlock) : Bytes := blocks.flatMap (·.buf)

section Blocks

variable {blocks rest : List AofrwBlock} {block : AofrwBlock} {results : List Nat} {pipe file t : Bytes}

lemma blocksText_append (blocks rest : List AofrwBlock) : blocksText (blocks ++ rest) = blocksText blocks ++ blocksText rest :=
  flatMap_append ..

lemma blocksText_cons (block : AofrwBlock) (rest : List AofrwBlock) :
    blocksText (block :: rest) = block.buf ++ blocksText rest := flatMap_cons ..

lemma blocksText_singleton (block : AofrwBlock) : blocksText [block] = block.buf := flatMap_singleton ..

def LastHasRoom (blocks : List AofrwBlock) : Prop := ∃ block, blocks.getLast? = some block ∧ 0 < block.free

lemma aofRewriteBufferAppend_text {fuel : Nat} (blocks : List AofrwBlock) (t : Bytes) (hfuel : t.length + 1 < fuel ∨ LastHasRoom blocks ∧ t.length < fuel) :
    blocksText (aofRewriteBufferAppend fuel blocks t) = blocksText blocks ++ t := by
  induction fuel generalizing blocks t with
  | zero => omega
  | succ fuel ih =>
    rw [aofRewriteBufferAppend]
    split_ifs with hnil
    · rw [hnil, append_nil]
    have hpos := length_pos_of_ne_nil hnil
    have room : ∀ blocks, LastHasRoom (blocks ++ [AofrwBlock.empty]) := fun blocks =>
      ⟨.empty, getLast?_concat .., by decide⟩
    have hempty : ∀ blocks, blocksText (blocks ++ [AofrwBlock.empty]) = blocksText blocks := by
      intro blocks
      rw [blocksText_append]
      exact append_nil _
    cases hlast : blocks.getLast? with
    | none =>
      have hfuel : t.length < fuel := by
        rcases hfuel with h | ⟨⟨block, hroom, -⟩, -⟩
        · omega
        · rw [hlast] at hroom
          cases hroom
      dsimp only
      rw [if_neg hnil, ih _ _ (.inr ⟨room _, hfuel⟩), hempty]
    | some block =>
      obtain ⟨init, rfl⟩ : ∃ init, blocks = init ++ [block] := by
        rw [getLast?_eq_some_iff] at hlast
        exact hlast
      have hfill : blocksText (init ++ [block.fill t]) ++ t.drop block.free = blocksText (init ++ [block]) ++ t := by
        rw [blocksText_append, blocksText_append, blocksText_singleton, blocksText_singleton, AofrwBlock.fill]
        simp
      dsimp only
      rw [dropLast_concat]
      split_ifs with hdrop
      · rw [← hfill, hdrop, append_nil]
      have hlen : (t.drop block.free).length < fuel := by
        rw [length_drop]
        rcases hfuel with h | ⟨⟨block', hroom, hfree⟩, h⟩
        · omega
        · rw [hlast] at hroom
          cases hroom
          omega
      rw [ih _ _ (.inr ⟨room _, hlen⟩), hempty, hfill]

lemma blocksText_dropWhile (blocks : List AofrwBlock) :
    blocksText (blocks.dropWhile (·.buf = [])) = blocksText blocks := by
  induction blocks with
  | nil => rfl
  | cons block rest ih =>
    rw [dropWhile_cons]
    split_ifs with hnil
    · rw [ih, blocksText_cons, of_decide_eq_true hnil, nil_append]
    · rfl

lemma aofChildWriteDiffLoop_text (results : List Nat) (blocks : List AofrwBlock) (pipe : Bytes) :
    (aofChildWriteDiffLoop results blocks pipe).2.1 ++ blocksText (aofChildWriteDiffLoop results blocks pipe).1 =
      pipe ++ blocksText blocks := by
  induction results generalizing blocks pipe with
  | nil =>
    rw [aofChildWriteDiffLoop]
    rw [blocksText_dropWhile]
  | cons nwritten results ih =>
    rw [← blocksText_dropWhile blocks, aofChildWriteDiffLoop]
    split
    · rename_i hnil
      rw [hnil]
    rename_i block rest hcons
    rw [hcons]
    split
    · rfl
    · rw [ih, blocksText_cons, blocksText_cons, AofrwBlock.sent, append_assoc, ← append_assoc (List.take ..),
        take_append_drop]

lemma aofRewriteBufferWrite_text (h : (aofRewriteBufferWrite results blocks file).1 = true) :
    (aofRewriteBufferWrite results blocks file).2 = file ++ blocksText blocks := by
  induction blocks generalizing results file with
  | nil =>
    exact (append_nil file).symm
  | cons block rest ih =>
    rw [aofRewriteBufferWrite] at h ⊢
    rw [blocksText_cons]
    split_ifs at h with hnil
    · rw [if_pos hnil, ih h, hnil, nil_append]
    rw [if_neg hnil]
    dsimp only at h ⊢
    split at h
    · rename_i hall
      rw [if_pos hall, ih h, append_assoc]
    · cases h

end Blocks

section Invariant

def ChildPhase.Acked (phase : ChildPhase) : Prop := phase = .finalRead ∨ phase = .concat ∨ phase = .exited true

instance : DecidablePred ChildPhase.Acked := fun _ => inferInstanceAs (Decidable (_ ∨ _ ∨ _))

def ChildPhase.Drained (phase : ChildPhase) : Prop := phase = .concat ∨ phase = .exited true

/-- A rewrite under way: the bytes fed since the fork are in the child, in the pipe and in the blocks, in this order. -/
structure Rewriting (snapshot : Bytes) (fs : List AofFeed) (s : RewriteState) : Prop where
  pid : s.aofChildPid = true
  db : s.aofSelectedDb = fedDb (-1) fs
  diff : s.child.aofChildDiff ++ (s.dataPipe ++ blocksText s.aofRewriteBufBlocks) = commandsText (fedCommands (-1) fs)
  snapshot : s.child.tmpfile ++ s.child.left = snapshot
  written : s.child.phase = .snapshot ∨ s.child.phase = .exited false ∨ s.child.left = []
  asked : s.ackToChild ≠ [] → s.aofStopSendingDiff = true
  acked : s.child.phase.Acked → s.aofStopSendingDiff = true
  drained : s.child.phase.Drained → s.dataPipe = []
  file : s.child.phase = .exited true → s.bgFile = some (s.child.tmpfile ++ s.child.aofChildDiff)

variable {snapshot : Bytes} {fs : List AofFeed} {s s' : RewriteState} {e : RewriteEvent}

lemma guard_then {α : Type} {p : Prop} [Decidable p] {x} {a : α} (h : (do guard p; x) = some a) :
    p ∧ x = some a := by
  by_cases hp : p
  · rw [guard, if_pos hp] at h
    exact ⟨hp, h⟩
  · rw [guard, if_neg hp] at h
    cases h

lemma append_fedEvents (h : fedEvents [e] = []) : fs ++ fedEvents [e] = fs := by rw [h, append_nil]

section

variable (h : Rewriting snapshot fs s)
include h

lemma Rewriting.feed {f : AofFeed} (hstep : rewriteStep s (.feed f) = some s') :
    Rewriting snapshot (fs ++ [f]) s' := by
  obtain ⟨-, hs⟩ := guard_then hstep
  obtain ⟨buf, hbuf, hs⟩ := Option.bind_eq_some_iff.mp hs
  dsimp only at hs
  rw [if_pos h.pid] at hs
  cases hs
  refine { h with db := fedDb_snoc.symm, diff := ?_ }
  have htext := aofRewriteBufferAppend_text s.aofRewriteBufBlocks buf (.inl (Nat.lt_succ_self _))
  rw [htext, feedBuf_toOption hbuf, h.db, fedCommands_append, commandsText_append, ← h.diff]
  simp only [append_assoc]

lemma Rewriting.left_of (hphase : s.child.phase ≠ .snapshot)
    (hexit : s.child.phase ≠ .exited false) : s.child.left = [] := by
  rcases h.written with hw | hw | hw
  · exact absurd hw hphase
  · exact absurd hw hexit
  · exact hw

lemma Rewriting.readEnds (hempty : s.dataPipe = []) :
    Rewriting snapshot fs { s with child := s.child.readEnds } := by
  have hphase : s.child.readEnds.phase = s.child.phase ∨ s.child.phase = .finalRead ∧ s.child.readEnds.phase = .concat := by
    rw [RewriteChild.readEnds]
    split
    · exact .inr ⟨‹_›, rfl⟩
    · exact .inl rfl
  refine { h with written := ?_, acked := ?_, drained := fun _ => hempty, file := ?_ }
  · rcases hphase with hphase | ⟨hfinal, -⟩
    · rw [hphase]
      exact h.written
    · exact .inr (.inr (h.left_of (by rw [hfinal]; decide) (by rw [hfinal]; decide)))
  · rcases hphase with hphase | ⟨hfinal, -⟩
    · rw [hphase]
      exact h.acked
    · exact fun _ => h.acked (.inl hfinal)
  · rcases hphase with hphase | ⟨-, hconcat⟩
    · rw [hphase]
      exact h.file
    · rw [hconcat]
      exact fun h => (nomatch h)

lemma Rewriting.turn {phase} (hleft : phase = .exited false ∨ s.child.left = [])
    (hphase : ¬phase.Acked) : Rewriting snapshot fs { s with child := { s.child with phase } } :=
  { h with
    written := .inr hleft
    acked := fun h => absurd h hphase
    drained := fun h => absurd (.inr h) hphase
    file := fun h => absurd (.inr (.inr h)) hphase }

lemma Rewriting.step (hstep : rewriteStep s e = some s') (hdone : e.isDone = false) :
    Rewriting snapshot (fs ++ fedEvents [e]) s' := by
  cases e with
  | feed f => exact h.feed hstep
  | flush nwritten truncated =>
    obtain ⟨-, hs⟩ := guard_then hstep
    rw [append_fedEvents rfl]
    split at hs
    · cases hs
      exact { h with }
    split at hs
    · cases hs
      exact h
    · cases hs
      exact { h with }
  | fork snapshot =>
    obtain ⟨hpid, -⟩ := guard_then hstep
    rw [h.pid] at hpid
    cases hpid
  | sendDiff results =>
    obtain ⟨-, hs⟩ := guard_then hstep
    rw [append_fedEvents rfl]
    split at hs
    · cases hs
      exact { h with }
    -- the parent goes on sending, so that the child has not got its acknowledgement
    rename_i hstop
    cases hs
    have hdiff := h.diff
    rw [← aofChildWriteDiffLoop_text results] at hdiff
    refine { h with diff := hdiff, drained := fun hdrained => ?_ }
    exact absurd (h.acked (.inr hdrained)) hstop
  | ack sent =>
    obtain ⟨-, hs⟩ := guard_then hstep
    rw [append_fedEvents rfl]
    split at hs
    · cases hs
    split at hs
    · cases hs
      exact { h with asked := fun _ => rfl, acked := fun _ => rfl }
    · cases hs
      exact { h with }
  | childWrites n =>
    obtain ⟨⟨-, hphase, -⟩, ⟨⟩⟩ := guard_then hstep
    rw [append_fedEvents rfl]
    refine { h with snapshot := ?_, written := .inl hphase, file := fun hexit => ?_ }
    · simpa using h.snapshot
    · rw [hphase] at hexit
      cases hexit
  | childSnapshotDone =>
    obtain ⟨⟨-, -, -, hleft⟩, ⟨⟩⟩ := guard_then hstep
    rw [append_fedEvents rfl]
    exact h.turn (.inr hleft) (by decide)
  | childStartsReading =>
    obtain ⟨-, ⟨⟩⟩ := guard_then hstep
    rw [append_fedEvents rfl]
    exact { h with }
  | childReads n =>
    obtain ⟨⟨-, -, hn, hempty⟩, hs⟩ := guard_then hstep
    rw [append_fedEvents rfl]
    split at hs
    · rename_i hzero
      cases hs
      exact h.readEnds (hempty hzero)
    rename_i hpos
    cases hs
    have hpipe : s.dataPipe ≠ [] := by
      intro hnil
      rw [hnil] at hn
      exact hpos (Nat.le_zero.mp hn)
    refine { h with diff := ?_, drained := fun hdrained => absurd (h.drained hdrained) hpipe, file := fun hexit => ?_ }
    · rw [← h.diff, append_assoc, ← append_assoc (List.take ..), take_append_drop]
    · exact absurd (h.drained (.inr hexit)) hpipe
  | childAsks =>
    obtain ⟨⟨-, hphase, -⟩, ⟨⟩⟩ := guard_then hstep
    rw [append_fedEvents rfl]
    have hleft := h.left_of (by rw [hphase]; decide) (by rw [hphase]; decide)
    exact { h.turn (.inr hleft) (by decide) with }
  | childGetsAck =>
    obtain ⟨⟨-, hphase⟩, hs⟩ := guard_then hstep
    rw [append_fedEvents rfl]
    split at hs
    · cases hs
    rename_i byte rest hbyte
    have hstop := h.asked (by rw [hbyte]; exact cons_ne_nil _ _)
    have hleft := h.left_of (by rw [hphase]; decide) (by rw [hphase]; decide)
    split at hs
    · cases hs
      exact { h with
        written := .inr (.inr hleft)
        asked := fun _ => hstop
        acked := fun _ => hstop
        drained := fun h => by rcases h with h | h <;> cases h
        file := fun h => (nomatch h) }
    · cases hs
      exact { h.turn (.inl rfl) (by decide) with asked := fun _ => hstop }
  | childConcats =>
    obtain ⟨⟨-, hphase⟩, ⟨⟩⟩ := guard_then hstep
    rw [append_fedEvents rfl]
    have hleft := h.left_of (by rw [hphase]; decide) (by rw [hphase]; decide)
    exact { h with
      written := .inr (.inr hleft)
      acked := fun _ => h.acked (.inr (.inl hphase))
      drained := fun _ => h.drained (.inl hphase)
      file := fun _ => rfl }
  | childFails =>
    obtain ⟨-, ⟨⟩⟩ := guard_then hstep
    rw [append_fedEvents rfl]
    exact h.turn (.inl rfl) (by decide)
  | done opened results renamed => cases hdone

end

/-- There are blocks only during a rewrite. -/
def Quiet (s : RewriteState) : Prop := s.aofChildPid = false → s.aofRewriteBufBlocks = []

lemma rewriteStep_frame (hstep : rewriteStep s e = some s') (hdone : e.isDone = false) (hfeed : ∀ f, e ≠ .feed f)
    (hflush : ∀ n t, e ≠ .flush n t) :
    s'.aofState = s.aofState ∧ s'.aofFile = s.aofFile ∧ s'.aofBuf = s.aofBuf ∧ (Quiet s → Quiet s') := by
  cases e with
  | feed f => exact absurd rfl (hfeed f)
  | flush n t => exact absurd rfl (hflush n t)
  | fork snapshot =>
    obtain ⟨-, ⟨⟩⟩ := guard_then hstep
    exact ⟨rfl, rfl, rfl, fun _ => nofun⟩
  | sendDiff results =>
    obtain ⟨-, hs⟩ := guard_then hstep
    split at hs <;> cases hs
    · exact ⟨rfl, rfl, rfl, id⟩
    · refine ⟨rfl, rfl, rfl, fun quiet hno => ?_⟩
      have hnil : s.aofRewriteBufBlocks = [] := quiet hno
      cases results <;> simp [hnil, aofChildWriteDiffLoop]
  | ack sent | childGetsAck =>
    obtain ⟨-, hs⟩ := guard_then hstep
    split at hs
    · cases hs
    · split at hs <;> cases hs <;> exact ⟨rfl, rfl, rfl, id⟩
  | childReads n =>
    obtain ⟨-, hs⟩ := guard_then hstep
    split at hs <;> cases hs <;> exact ⟨rfl, rfl, rfl, id⟩
  | done opened results renamed => cases hdone
  | _ =>
    obtain ⟨-, ⟨⟩⟩ := guard_then hstep
    exact ⟨rfl, rfl, rfl, id⟩

/-- With the file switched on, what was fed is in the file and its buffer, behind what they held before. -/
structure AofAppended (base : Bytes) (fs : List AofFeed) (s : RewriteState) : Prop where
  state : s.aofState = .on
  text : s.aofFile ++ s.aofBuf = base ++ commandsText (fedCommands (-1) fs)

lemma AofAppended.step {base : Bytes} (h : AofAppended base fs s) (hdb : s.aofSelectedDb = fedDb (-1) fs)
    (hstep : rewriteStep s e = some s') (hdone : e.isDone = false) : AofAppended base (fs ++ fedEvents [e]) s' := by
  cases e with
  | feed f =>
    obtain ⟨-, hs⟩ := guard_then hstep
    obtain ⟨buf, hbuf, hs⟩ := Option.bind_eq_some_iff.mp hs
    have htext : s.aofFile ++ (s.aofBuf ++ buf) = base ++ commandsText (fedCommands (-1) (fs ++ [f])) := by
      rw [feedBuf_toOption hbuf, hdb, fedCommands_append, commandsText_append, ← append_assoc, h.text,
        append_assoc]
    dsimp only at hs
    rw [if_pos h.state] at hs
    split at hs <;> cases hs <;> exact ⟨h.state, htext⟩
  | flush nwritten truncated =>
    obtain ⟨-, hs⟩ := guard_then hstep
    rw [append_fedEvents rfl]
    split at hs
    · cases hs
      exact ⟨h.state, (append_nil _).trans h.text⟩
    split at hs
    · cases hs
      exact h
    · cases hs
      refine ⟨h.state, ?_⟩
      rw [append_assoc, take_append_drop, h.text]
  | _ =>
    obtain ⟨hstate, hfile, hbuf, -⟩ := rewriteStep_frame hstep hdone nofun nofun
    rw [append_fedEvents rfl]
    exact ⟨hstate.trans h.state, by rw [hfile, hbuf, h.text]⟩

lemma Quiet.step (h : Quiet s) (hstep : rewriteStep s e = some s') : Quiet s' := by
  cases e with
  | feed f =>
    obtain ⟨-, hs⟩ := guard_then hstep
    obtain ⟨buf, -, hs⟩ := Option.bind_eq_some_iff.mp hs
    dsimp only at hs
    split at hs
    · rename_i hpid
      cases hs
      intro hno
      rw [show s.aofChildPid = false from hno] at hpid
      cases hpid
    · cases hs
      exact h
  | flush nwritten truncated =>
    obtain ⟨-, hs⟩ := guard_then hstep
    split at hs
    · cases hs
      exact h
    · split at hs <;> cases hs <;> exact h
  | done opened results renamed =>
    obtain ⟨-, ⟨⟩⟩ := guard_then hstep
    exact fun _ => rfl
  | _ => exact (rewriteStep_frame hstep rfl nofun nofun).2.2.2 h

lemma rewriting_fork (h : Quiet s) (hstep : rewriteStep s (.fork snapshot) = some s') :
    Rewriting snapshot [] s' ∧ s'.aofState = s.aofState ∧ s'.aofFile = s.aofFile ∧ s'.aofBuf = s.aofBuf := by
  obtain ⟨hpid, ⟨⟩⟩ := guard_then hstep
  have hblocks : s.aofRewriteBufBlocks = [] := h hpid
  refine ⟨⟨rfl, rfl, ?_, rfl, .inl rfl, fun h => absurd rfl h, ?_, fun _ => rfl, nofun⟩, rfl, rfl, rfl⟩
  · rw [hblocks]
    rfl
  · exact fun h => absurd h (by decide : ¬ChildPhase.snapshot.Acked)

lemma Rewriting.newFile (h : Rewriting snapshot fs s) {opened renamed : Bool} {results} {file : Bytes}
    (hnew : s.newFile opened results renamed = some file) :
    file = snapshot ++ commandsText (fedCommands (-1) fs) := by
  rw [RewriteState.newFile] at hnew
  split at hnew
  · rename_i tmp hphase hbg
    split at hnew
    · dsimp only at hnew
      split at hnew
      · rename_i hok
        cases hnew
        have hleft := h.left_of (by rw [hphase]; decide) (by rw [hphase]; decide)
        have hsnap := h.snapshot
        have hdiff := h.diff
        rw [hleft, append_nil] at hsnap
        rw [h.drained (.inr hphase), nil_append] at hdiff
        have hfile := h.file hphase
        rw [hbg] at hfile
        cases hfile
        rw [aofRewriteBufferWrite_text hok.1, ← hdiff, hsnap, append_assoc]
      · cases hnew
    · cases hnew
  · cases hnew

lemma fedCommands_select (f : AofFeed) (fs : List AofFeed) :
    ∃ rest, fedCommands (-1) (f :: fs) = [ascii "SELECT", decimal f.dictid] :: rest := by
  have hne : (f.dictid.val : Int) ≠ -1 := by omega
  exact ⟨_, rfl⟩

end Invariant

section Runs

lemma rewriting_run {aofState} {aofFile snapshot : Bytes} {evs₀ evs s₀ s}
    (h₀ : run rewriteStep (.start aofState aofFile) evs₀ = some s₀)
    (hrun : run rewriteStep s₀ (.fork snapshot :: evs) = some s) (hevs : ∀ e ∈ evs, e.isDone = false) :
    Rewriting snapshot (fedEvents evs) s ∧
      (s₀.aofState = .on → AofAppended (s₀.aofFile ++ s₀.aofBuf) (fedEvents evs) s) := by
  have quiet : Quiet s₀ := run_invariant Quiet.step (fun _ => rfl) h₀
  obtain ⟨s₁, hfork, hrun⟩ := Option.bind_eq_some_iff.mp hrun
  obtain ⟨rewriting, hstate, hfile, hbuf⟩ := rewriting_fork quiet hfork
  -- the events so far are all among those of the run, so that none of them ends the rewrite
  have kept := run_history
    (P := fun h s => (∀ e ∈ h, e.isDone = false) → Rewriting snapshot (fedEvents h) s ∧
      (s₀.aofState = .on → AofAppended (s₀.aofFile ++ s₀.aofBuf) (fedEvents h) s))
    (fun {h s e s'} ih hstep hno => by
      obtain ⟨rewriting, appended⟩ := ih fun e' he' => hno e' (mem_append_left _ he')
      have hdone := hno e (mem_append_right _ (mem_singleton_self e))
      rw [fedEvents, filterMap_append]
      exact ⟨rewriting.step hstep hdone, fun hon => (appended hon).step rewriting.db hstep hdone⟩)
    (h := []) (fun _ => ⟨rewriting, fun hon => ⟨hstate.trans hon, by rw [hfile, hbuf]; exact (append_nil _).symm⟩⟩)
    hrun
  exact kept hevs

/-- A file that is put in place is the snapshot, with what was fed since the fork behind it; if nothing is put in place
while the file is switched on, the old file and its buffer hold all that was fed. -/
theorem aofRewrite_lossless (aofState : AofState) (aofFile snapshot : Bytes) (evs₀ evs : List RewriteEvent)
    (opened renamed : Bool) (results : List Nat) (s₀ s s' : RewriteState)
    (h₀ : run rewriteStep (.start aofState aofFile) evs₀ = some s₀)
    (hrun : run rewriteStep s₀ (.fork snapshot :: evs) = some s) (hevs : ∀ e ∈ evs, e.isDone = false)
    (hdone : rewriteStep s (.done opened results renamed) = some s') :
    (s.newFile opened results renamed ≠ none →
      s'.aofFile = snapshot ++ commandsText (fedCommands (-1) (fedEvents evs))) ∧
    (∀ f fs, fedEvents evs = f :: fs →
      ∃ rest, fedCommands (-1) (fedEvents evs) = [ascii "SELECT", decimal f.dictid] :: rest) ∧
    (s.newFile opened results renamed = none → s₀.aofState = .on →
      s'.aofFile ++ s'.aofBuf = s₀.aofFile ++ s₀.aofBuf ++ commandsText (fedCommands (-1) (fedEvents evs))) := by
  obtain ⟨rewriting, appended⟩ := rewriting_run h₀ hrun hevs
  obtain ⟨-, ⟨⟩⟩ := guard_then hdone
  refine ⟨fun hnew => ?_, fun f fs hfs => ?_, fun hnew hon => ?_⟩
  · obtain ⟨file, hnew⟩ := Option.ne_none_iff_exists'.mp hnew
    rw [hnew]
    exact rewriting.newFile hnew
  · rw [hfs]
    exact fedCommands_select f fs
  · rw [hnew]
    exact (appended hon).text

/-- The child reads the first command in time and the second in its final read; the third stays with the parent. -/
def rewriteEvents : List RewriteEvent :=
  [.feed ⟨.other, 0, [ascii "INCR", ascii "a"], 0⟩, .childWrites 2, .sendDiff [60], .childStartsReading, .childReads 44,
    .childReads 0, .childWrites 9, .childSnapshotDone, .flush 100 false, .childAsks,
    .feed ⟨.expire, 1, [ascii "EXPIRE", ascii "a", ascii "5"], 1000⟩, .sendDiff [40, 40], .ack true, .childGetsAck,
    .feed ⟨.other, 1, [ascii "INCR", ascii "a"], 0⟩, .childReads 40, .childReads 19, .childReads 0, .childConcats]

theorem aofRewrite_lossless_sample : ∃ s₀ s s',
    run rewriteStep (.start .on []) [] = some s₀ ∧
    run rewriteStep s₀ (.fork (ascii "snapshot") :: rewriteEvents) = some s ∧
    rewriteStep s (.done true [21] true) = some s' ∧ s.newFile true [21] true ≠ none ∧
    s'.aofFile = ascii "snapshot" ++ commandsText (fedCommands (-1) (fedEvents rewriteEvents)) := by
  obtain ⟨s, hs, hok⟩ := run_checked rewriteStep (.start .on []) (.fork (ascii "snapshot") :: rewriteEvents)
    (p := fun s => (s.newFile true [21] true).isSome && (rewriteStep s (.done true [21] true)).isSome)
    (by decide +kernel)
  rw [Bool.and_eq_true] at hok
  obtain ⟨s', hs'⟩ := Option.isSome_iff_exists.mp hok.2
  have hnew : s.newFile true [21] true ≠ none := Option.isSome_iff_ne_none.mp hok.1
  have lossless := aofRewrite_lossless .on [] (ascii "snapshot") [] rewriteEvents true true [21] _ s s' rfl hs
    (by decide) hs'
  exact ⟨_, s, s', rfl, hs, hs', hnew, lossless.1 hnew⟩

/-- While the file waits for its first rewrite, what is fed is not in its buffer: a rewrite whose file cannot be renamed
leaves it nowhere. -/
theorem aofRewrite_waiting_loses :
    (run rewriteStep (.start .waitRewrite []) (.fork (ascii "snapshot") ::
        rewriteEvents.filter (fun e => e ≠ .flush 100 false) ++ [.done true [21] false])).map
      (fun s => s.aofFile ++ s.aofBuf) = some [] ∧ (fedEvents rewriteEvents).length = 3 := by
  decide +kernel

end Runs

end JitRedis
