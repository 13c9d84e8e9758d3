import JitRedis.Aof.Format

/-!
# Loading the append only file

Model of `loadAppendOnlyFile` of `src/aof.c`, on a file that can be read. The commands are executed by a fake client,
whose transaction state is that of `src/multi.c`; what a command does to the dataset, and how `rdbLoadRio` reads a
preamble, are parameters.
-/

open Fallible List Option

namespace JitRedis

/-- The procedure of a command, as far as transactions go. -/
inductive Proc where
  | multi
  | exec
  | discard
  | other
  deriving DecidableEq

/-- The server that loads the file. -/
structure LoadEnv (σ : Type) where
  lookupCommand : Bytes → Option Proc
  /-- The dataset, and the database that the fake client has selected, after a command. -/
  call : σ → List Bytes → σ
  /-- The dataset and the offset behind the RDB; `none` for `C_ERR`. -/
  rdbLoadRio : Bytes → σ → Option (σ × Nat)
  aofLoadTruncated : Bool

/-- The flag `CLIENT_MULTI` and the queue of `createFakeClient`. -/
structure FakeClient where
  multi : Bool
  commands : List (Proc × List Bytes)
  deriving DecidableEq

structure LoadState (σ : Type) where
  fp : FILE
  fakeClient : FakeClient
  data : σ
  validUpTo : Nat
  validBeforeMulti : Nat

/-- What is left when `loadAppendOnlyFile` returns: whether it returns `C_OK`, the dataset and the file. -/
structure LoadResult (σ : Type) where
  rc : Bool
  data : σ
  file : Bytes
  deriving DecidableEq

namespace LoadEnv

variable {σ : Type} (env : LoadEnv σ)

def procOf (argv : List Bytes) : Option Proc := env.lookupCommand (argv.headD [])

/-- The loop of `execCommand`. -/
def execQueued : List (Proc × List Bytes) → σ → Except Fault σ
  | [], s => .ok s
  | (.other, argv) :: commands, s => execQueued commands (env.call s argv)
  -- `MULTI calls can not be nested`
  | (.multi, _) :: commands, s => execQueued commands s
  -- `discardTransaction` frees the queue
  | (.discard, _) :: _, _ => .error .badAccess
  -- `EXEC` is not queued; it would start the queue again
  | (.exec, _) :: _, _ => .error .diverged

/-- `multiCommand`, `execCommand`, `discardCommand` and the others. -/
def proc (argv : List Bytes) (c : FakeClient) (s : σ) : Proc → Except Fault (FakeClient × σ)
  | .multi => .ok (if c.multi then c else ⟨true, c.commands⟩, s)
  | .exec => if c.multi then (env.execQueued c.commands s).map fun s => (⟨false, []⟩, s) else .ok (c, s)
  | .discard => .ok (if c.multi then ⟨false, []⟩ else c, s)
  | .other => .ok (c, env.call s argv)

/-- The body of the loop of `loadAppendOnlyFile`. -/
def loadCommand (st : LoadState σ) : Except (LoadExit × FILE) (LoadState σ) := do
  let (argv, fp) ← readCommand st.fp
  match env.procOf argv with
  | none => .error (.unknownCommand, fp)
  | some p =>
    let validBeforeMulti := if p = .multi then st.validUpTo else st.validBeforeMulti
    let called :=
      if st.fakeClient.multi ∧ p ≠ .exec then
        .ok (⟨true, st.fakeClient.commands ++ [(p, argv)]⟩, st.data)
      else env.proc argv st.fakeClient st.data p
    match called with
    | .error f => .error (.fault f, fp)
    | .ok (c, data) =>
      .ok ⟨fp, c, data, if env.aofLoadTruncated then fp.pos else st.validUpTo, validBeforeMulti⟩

/-- The loop; each turn reads at least a byte, so that `fuel` is the length of the file. -/
def loadCommands : Nat → LoadState σ → LoadExit × LoadState σ
  | 0, st => (.fault .diverged, st)
  | fuel + 1, st =>
    match env.loadCommand st with
    | .error (exit, fp) => (exit, { st with fp })
    | .ok st => loadCommands fuel st

/-- `uxeof`: the file is cut at `validUpTo`, or the server exits. -/
def uxeof (file : Bytes) (validUpTo : Nat) (data : σ) : Except LoadExit (LoadResult σ) :=
  if env.aofLoadTruncated then .ok ⟨true, data, file.take validUpTo⟩ else .error .eof

/-- What follows the loop. An error is an `exit(1)`. -/
def afterLoop (file : Bytes) : LoadExit × LoadState σ → Except LoadExit (LoadResult σ)
  | (.eof, st) =>
    if st.fakeClient.multi then env.uxeof file st.validBeforeMulti st.data else .ok ⟨true, st.data, file⟩
  | (.readerr, st) => if st.fp.eof then env.uxeof file st.validUpTo st.data else .error .readerr
  | (exit, _) => .error exit

def loadAppendOnlyFile (file : Bytes) (s : σ) : Except LoadExit (LoadResult σ) :=
  if file = [] then .ok ⟨false, s, file⟩
  else
    let opened :=
      if (FILE.fread 5 (FILE.start file)).1 ≠ some (ascii "REDIS") then some (s, FILE.start file)
      else (env.rdbLoadRio file s).map fun (s, offset) => (s, FILE.seek file offset)
    match opened with
    | none => .error .readerr
    | some (s, fp) => env.afterLoop file (env.loadCommands (file.length + 1) ⟨fp, ⟨false, []⟩, s, 0, 0⟩)

/-- Whether a transaction is open behind a command; `none` if the command cannot stand there. -/
def txStep (inMulti : Bool) (argv : List Bytes) : Option Bool :=
  match env.procOf argv, inMulti with
  | some .multi, false => some true
  | some .exec, true => some false
  | some .other, inMulti => some inMulti
  | _, _ => none

/-- Whether commands leave a transaction open. -/
def inMulti (cmds : List (List Bytes)) : Option Bool := cmds.foldlM env.txStep false

/-- Commands that can be written, in which every `MULTI` is closed by its `EXEC`. -/
structure WellFormed (cmds : List (List Bytes)) : Prop where
  writable : ∀ argv ∈ cmds, Writable argv
  closed : env.inMulti cmds = some false

/-- What executing commands leads to: each one is called once, in order; `MULTI` and `EXEC` call nothing themselves. -/
def execute (s : σ) (cmds : List (List Bytes)) : σ :=
  (cmds.filter fun argv => env.procOf argv = some .other).foldl env.call s

/-- An RDB preamble, which `rdbLoadRio` reads to its end and no further; or none. -/
inductive Preamble : Bytes → (σ → σ) → Prop where
  | none : Preamble [] id
  | rdb {pre : Bytes} {load : σ → σ} (signature : ascii "REDIS" <+: pre)
      (reads : ∀ rest s, env.rdbLoadRio (pre ++ rest) s = some (load s, pre.length)) : Preamble pre load

/-- The commands are the longest ones, complete and with no transaction left open, that the file holds. -/
structure LongestComplete (pre file : Bytes) (kept : List (List Bytes)) : Prop where
  wellFormed : env.WellFormed kept
  held : pre ++ commandsText kept <+: file
  longest : ∀ cmds, env.WellFormed cmds → pre ++ commandsText cmds <+: file →
    (commandsText cmds).length ≤ (commandsText kept).length

end LoadEnv

/-- The commands that lie in the first `n` bytes. -/
def completeCommands : List (List Bytes) → Nat → List (List Bytes)
  | [], _ => []
  | argv :: cmds, n =>
    if (commandText argv).length ≤ n then argv :: completeCommands cmds (n - (commandText argv).length) else []

namespace LoadEnv

variable {σ : Type} (env : LoadEnv σ)

/-- Where the file may end. At the end of what is kept; or else behind the first command that is kept, if there is a
preamble, and not within a command of an open transaction. -/
def Recoverable (pre : Bytes) (cmds : List (List Bytes)) (file : Bytes) (kept : List (List Bytes)) : Prop :=
  let complete := completeCommands cmds (file.length - pre.length)
  file = pre ++ commandsText kept ∨
    (pre = [] ∨ kept ≠ []) ∧ (env.inMulti complete = some false ∨ file = pre ++ commandsText complete)

variable {env} {pre t rest : Bytes} {cmds cs ds body kept : List (List Bytes)} {argv m : List Bytes} {s : σ}
  {st : LoadState σ} {base : Nat} {eof o : Bool} {load : σ → σ}

section Texts

lemma commandsText_cons (argv : List Bytes) (cs : List (List Bytes)) :
    commandsText (argv :: cs) = commandText argv ++ commandsText cs := flatMap_cons ..

lemma commandText_ne_nil (argv : List Bytes) : commandText argv ≠ [] := by
  rw [commandText, catAppendOnlyGenericCommand]
  simp

lemma length_commandText_pos (argv : List Bytes) : 0 < (commandText argv).length :=
  length_pos_of_ne_nil (commandText_ne_nil argv)

lemma length_le_commandsText (cs : List (List Bytes)) : cs.length ≤ (commandsText cs).length := by
  induction cs with
  | nil => exact Nat.zero_le _
  | cons argv cs ih =>
    have := length_commandText_pos argv
    rw [commandsText_cons, length_cons, length_append]
    omega

lemma head?_commandsText (hcs : cs ≠ []) : (commandsText cs).head? = some 42 := by
  obtain ⟨argv, cs, rfl⟩ := exists_cons_of_ne_nil hcs
  rw [commandsText_cons, commandText, catAppendOnlyGenericCommand, foldl_bulkText]
  rfl

lemma prefix_of_commandsText (hcs : ∀ argv ∈ cs, Writable argv) (hds : ∀ argv ∈ ds, Writable argv)
    (h : commandsText cs <+: commandsText ds) : cs <+: ds := by
  induction cs generalizing ds with
  | nil => exact nil_prefix
  | cons argv cs ih =>
    obtain ⟨rest, h⟩ := h
    rw [commandsText_cons, append_assoc] at h
    cases ds with
    | nil =>
      have := append_eq_nil_iff.mp h
      exact absurd this.1 (commandText_ne_nil argv)
    | cons argv' ds =>
      rw [commandsText_cons] at h
      have read := readCommand_text 0 (commandsText cs ++ rest) false
        (hcs argv (mem_cons_self ..))
      rw [h, readCommand_text _ _ _ (hds argv' (mem_cons_self ..))] at read
      obtain rfl : argv' = argv := congrArg (fun r => r.toOption.map Prod.fst) read |> fun h => some.inj h
      have hrest := append_cancel_left h
      obtain ⟨es, rfl⟩ := ih (fun a ha => hcs a (mem_cons_of_mem _ ha))
        (fun a ha => hds a (mem_cons_of_mem _ ha)) ⟨rest, hrest⟩
      exact ⟨es, rfl⟩

lemma completeCommands_spec (h : t <+: commandsText cmds) :
    ∃ ds t', cmds = completeCommands cmds t.length ++ ds ∧ t = commandsText (completeCommands cmds t.length) ++ t' ∧
      (t' = [] ∨ ∃ argv ds', ds = argv :: ds' ∧ t' <+: commandText argv ∧ t' ≠ commandText argv ∧ t' ≠ []) := by
  induction cmds generalizing t with
  | nil =>
    rw [prefix_nil.mp h]
    exact ⟨[], [], rfl, rfl, .inl rfl⟩
  | cons argv cmds ih =>
    rw [completeCommands]
    rcases prefix_append_cases h with ⟨ht, hne⟩ | ⟨t', rfl, ht'⟩
    · have hlt : t.length < (commandText argv).length :=
        Nat.lt_of_le_of_ne ht.length_le fun heq => hne (ht.eq_of_length heq)
      rw [if_neg (Nat.not_le.mpr hlt)]
      refine ⟨argv :: cmds, t, rfl, rfl, ?_⟩
      by_cases hnil : t = []
      · exact .inl hnil
      · exact .inr ⟨argv, cmds, rfl, ht, hne, hnil⟩
    obtain ⟨ds, t'', hcmds, htext, hcut⟩ := ih ht'
    have hsub : (commandText argv ++ t').length - (commandText argv).length = t'.length := by simp
    rw [if_pos (by simp), hsub]
    refine ⟨ds, t'', ?_, ?_, hcut⟩
    · rw [cons_append, ← hcmds]
    · rw [commandsText_cons, append_assoc, ← htext]

lemma prefix_complete (hcs : cs <+: cmds) (hds : ds <+: cmds) (h : commandsText ds <+: commandsText cs ++ t)
    (hcut : t = [] ∨ ∃ argv, cs ++ [argv] <+: cmds ∧ t.length < (commandText argv).length) : ds <+: cs := by
  rcases prefix_or_prefix_of_prefix hds hcs with h' | ⟨es, rfl⟩
  · exact h'
  cases es with
  | nil => rw [append_nil]
  | cons argv es =>
    exfalso
    have hlen := h.length_le
    have hpos := length_commandText_pos argv
    rw [commandsText_append, commandsText_cons] at hlen
    simp only [length_append] at hlen
    rcases hcut with rfl | ⟨argv', hnext, hlt⟩
    · rw [length_nil] at hlen
      omega
    have hsame : argv = argv' := by
      obtain ⟨r, hr⟩ := hnext
      obtain ⟨r', hr'⟩ := hds
      rw [← hr', append_assoc, append_assoc] at hr
      have := append_cancel_left hr
      exact (List.cons.inj this).1.symm
    rw [hsame] at hlen
    omega

end Texts

section Transactions

lemma inMulti_append : env.inMulti (cs ++ ds) = (env.inMulti cs).bind fun o => ds.foldlM env.txStep o :=
  foldlM_append ..

lemma inMulti_snoc : env.inMulti (cs ++ [argv]) = (env.inMulti cs).bind fun o => env.txStep o argv := by
  rw [inMulti_append]
  congr 1
  funext o
  simp

lemma txStep_other (h : env.procOf argv = some .other) : env.txStep o argv = some o := by
  unfold txStep
  rw [h]

lemma txStep_inv {o' : Bool} (h : env.txStep o argv = some o') :
    env.procOf argv = some .multi ∧ o = false ∨ env.procOf argv = some .exec ∧ o = true ∨
      env.procOf argv = some .other := by
  unfold txStep at h
  split at h
  · exact .inl ⟨‹_›, rfl⟩
  · exact .inr (.inl ⟨‹_›, rfl⟩)
  · exact .inr (.inr ‹_›)
  · cases h

lemma inMulti_body (hcs : env.inMulti cs = some false) (hm : env.procOf m = some .multi)
    (hbody : ∀ argv ∈ body, env.procOf argv = some .other) : env.inMulti (cs ++ m :: body) = some true := by
  have hopen : env.txStep false m = some true := by
    unfold txStep
    rw [hm]
  have hrest : body.foldlM env.txStep true = some true := by
    induction body with
    | nil => rfl
    | cons argv body ih =>
      rw [foldlM_cons, txStep_other (hbody argv (mem_cons_self ..))]
      exact ih fun a ha => hbody a (mem_cons_of_mem _ ha)
  rw [inMulti_append, hcs, bind_some, foldlM_cons, hopen]
  exact hrest

lemma execute_append (s : σ) (cs ds : List (List Bytes)) :
    env.execute s (cs ++ ds) = env.execute (env.execute s cs) ds := by
  rw [execute, filter_append, foldl_append]
  rfl

lemma execute_other (s : σ) (h : env.procOf argv = some .other) : env.execute s [argv] = env.call s argv := by
  simp [execute, h]

lemma execute_tx (s : σ) (h : env.procOf argv ≠ some .other) : env.execute s [argv] = s := by
  simp [execute, h]

lemma execQueued_body (hbody : ∀ argv ∈ body, env.procOf argv = some .other) (s : σ) :
    env.execQueued (body.map (Proc.other, ·)) s = .ok (env.execute s body) := by
  induction body generalizing s with
  | nil => rfl
  | cons argv body ih =>
    rw [map_cons, execQueued, ih fun a ha => hbody a (mem_cons_of_mem _ ha), ← singleton_append,
      execute_append, execute_other s (hbody argv (mem_cons_self ..))]

end Transactions

section Loop

/-- The offset behind the last complete command, which is 0 until the first one is loaded. -/
def upTo (base : Nat) (cs : List (List Bytes)) : Nat := if cs = [] then 0 else base + (commandsText cs).length

lemma upTo_snoc : upTo base (cs ++ [argv]) = base + (commandsText (cs ++ [argv])).length :=
  if_neg (append_ne_nil_of_right_ne_nil _ (cons_ne_nil _ _))

/-- The state of the loop once some commands are loaded: outside of a transaction, or inside of one. -/
inductive Loaded (env : LoadEnv σ) (base : Nat) (s : σ) : List (List Bytes) → LoadState σ → Prop where
  | outside {cs : List (List Bytes)} {st : LoadState σ} (closed : env.inMulti cs = some false)
      (client : st.fakeClient = ⟨false, []⟩) (data : st.data = env.execute s cs) (valid : st.validUpTo = upTo base cs) :
      Loaded env base s cs st
  | inside {cs body : List (List Bytes)} {m : List Bytes} {st : LoadState σ} (closed : env.inMulti cs = some false)
      (multi : env.procOf m = some .multi) (other : ∀ argv ∈ body, env.procOf argv = some .other)
      (client : st.fakeClient = ⟨true, body.map (Proc.other, ·)⟩) (data : st.data = env.execute s cs)
      (valid : st.validUpTo = upTo base (cs ++ m :: body)) (before : st.validBeforeMulti = upTo base cs) :
      Loaded env base s (cs ++ m :: body) st

lemma Loaded.step (h : Loaded env base s cs st) (htrunc : env.aofLoadTruncated = true) (hargv : Writable argv)
    (hnext : env.inMulti (cs ++ [argv]) = some o)
    (hfp : st.fp = ⟨base + (commandsText cs).length, commandText argv ++ rest, eof⟩) :
    ∃ st', env.loadCommand st = .ok st' ∧ Loaded env base s (cs ++ [argv]) st' ∧
      st'.fp = ⟨base + (commandsText (cs ++ [argv])).length, rest, eof⟩ := by
  have hlen : base + (commandsText cs).length + (commandText argv).length = base + (commandsText (cs ++ [argv])).length := by
    simp [commandsText, Nat.add_assoc]
  rw [loadCommand, hfp, readCommand_text _ _ _ hargv, ok_bind, hlen]
  dsimp only
  rw [htrunc]
  cases h with
  | outside closed client data valid =>
    rw [inMulti_snoc, closed] at hnext
    rw [client]
    obtain ⟨hproc, -⟩ | ⟨-, hopen⟩ | hproc := txStep_inv hnext
    · rw [hproc]
      have hbody : ∀ argv ∈ ([] : List (List Bytes)), env.procOf argv = some .other := fun _ h => (nomatch h)
      exact ⟨_, rfl, .inside closed hproc hbody rfl data upTo_snoc.symm valid, rfl⟩
    · cases hopen
    · rw [hproc]
      refine ⟨_, rfl, .outside ?_ rfl ?_ upTo_snoc.symm, rfl⟩
      · rw [inMulti_snoc, closed, bind_some, txStep_other hproc]
      · rw [execute_append, execute_other _ hproc, ← data]
  | @inside cs body m _ closed multi other client data valid before =>
    rw [inMulti_snoc, inMulti_body closed multi other] at hnext
    rw [client]
    obtain ⟨-, hopen⟩ | ⟨hproc, -⟩ | hproc := txStep_inv hnext
    · cases hopen
    · rw [hproc]
      have hexec := execQueued_body other st.data
      simp only [ne_eq, not_true_eq_false, and_false, if_false, proc, if_true, hexec, Except.map]
      refine ⟨_, rfl, .outside ?_ rfl ?_ upTo_snoc.symm, rfl⟩
      · rw [inMulti_snoc, inMulti_body closed multi other, bind_some]
        unfold txStep
        rw [hproc]
      · have hm := execute_tx (env.execute s cs) (show env.procOf m ≠ some .other by rw [multi]; decide)
        have he := execute_tx (env.execute (env.execute s cs) body)
          (show env.procOf argv ≠ some .other by rw [hproc]; decide)
        rw [execute_append, execute_append, ← singleton_append (l := body), execute_append, hm, he, data]
    · rw [hproc]
      have hqueue : body.map (Proc.other, ·) ++ [(Proc.other, argv)] = (body ++ [argv]).map (Proc.other, ·) := by
        rw [map_append, map_singleton]
      refine ⟨_, rfl, ?_, rfl⟩
      have hbody : ∀ a ∈ body ++ [argv], env.procOf a = some .other :=
        forall_mem_append.mpr ⟨other, forall_mem_singleton.mpr hproc⟩
      rw [append_assoc, cons_append]
      refine .inside closed multi hbody ?_ data ?_ before
      · rw [← hqueue]
      · rw [← cons_append, ← append_assoc, upTo_snoc]
        rfl

lemma inMulti_of_append (h : env.inMulti (cs ++ ds) = some o) : ∃ o', env.inMulti cs = some o' := by
  rw [inMulti_append] at h
  obtain ⟨o', h, -⟩ := bind_eq_some_iff.mp h
  exact ⟨o', h⟩

lemma Loaded.run {ds} (h : Loaded env base s cs st) (htrunc : env.aofLoadTruncated = true) (hds : ∀ argv ∈ ds, Writable argv)
    (hnext : env.inMulti (cs ++ ds) = some o)
    (hfp : st.fp = ⟨base + (commandsText cs).length, commandsText ds ++ rest, eof⟩) (fuel : Nat) :
    ∃ st', env.loadCommands (ds.length + fuel) st = env.loadCommands fuel st' ∧ Loaded env base s (cs ++ ds) st' ∧
      st'.fp = ⟨base + (commandsText (cs ++ ds)).length, rest, eof⟩ := by
  induction ds generalizing cs st with
  | nil =>
    rw [append_nil, length_nil, Nat.zero_add]
    exact ⟨st, rfl, h, hfp⟩
  | cons argv ds ih =>
    rw [← singleton_append, ← append_assoc] at hnext
    rw [commandsText_cons, append_assoc] at hfp
    obtain ⟨o', hargv⟩ := inMulti_of_append hnext
    obtain ⟨st₁, hload, loaded, hfp₁⟩ := h.step htrunc (hds argv (mem_cons_self ..)) hargv hfp
    obtain ⟨st₂, hrun, loaded, hfp₂⟩ := ih loaded (fun a ha => hds a (mem_cons_of_mem _ ha)) hnext hfp₁
    rw [append_assoc] at loaded hfp₂
    refine ⟨st₂, ?_, loaded, hfp₂⟩
    rw [← hrun, length_cons, Nat.add_right_comm, loadCommands, hload]

/-- What follows the complete commands: nothing, or a part of a command. -/
def Cut (t : Bytes) : Prop :=
  t = [] ∨ ∃ argv, Writable argv ∧ t <+: commandText argv ∧ t ≠ commandText argv ∧ t ≠ []

lemma loadCommands_cut (env : LoadEnv σ) (ht : Cut t) (hfp : st.fp = ⟨base, t, eof⟩) (fuel : Nat) : ∃ fp, fp.eof = true ∧
    env.loadCommands (fuel + 1) st = (if t = [] then .eof else .readerr, { st with fp }) := by
  rw [loadCommands, loadCommand, hfp]
  rcases ht with rfl | ⟨argv, hargv, ht, hshort, hne⟩
  · exact ⟨_, rfl, by rw [readCommand, FILE.fgets_nil (by norm_num)]; rfl⟩
  · obtain ⟨fp, hread, heof⟩ := readCommand_torn base eof hargv ht hshort hne
    exact ⟨fp, heof, by rw [hread, if_neg hne]; rfl⟩

end Loop

section Files

lemma loadAppendOnlyFile_start (hpre : env.Preamble pre load) (ht : t <+: commandsText cmds) (hne : pre ++ t ≠ []) :
    env.loadAppendOnlyFile (pre ++ t) s = env.afterLoop (pre ++ t)
      (env.loadCommands ((pre ++ t).length + 1) ⟨⟨pre.length, t, false⟩, ⟨false, []⟩, load s, 0, 0⟩) := by
  rw [loadAppendOnlyFile, if_neg hne]
  cases hpre with
  | none =>
    have hsig : (FILE.fread 5 (FILE.start ([] ++ t))).1 ≠ some (ascii "REDIS") := by
      intro hread
      rw [FILE.fread] at hread
      split at hread
      · have htake : t.take 5 = ascii "REDIS" := some.inj hread
        obtain ⟨c, t', rfl⟩ := exists_cons_of_ne_nil hne
        have hcmds : cmds ≠ [] := by
          rintro rfl
          cases prefix_nil.mp ht
        have hhead := head?_commandsText hcmds
        obtain ⟨r, hr⟩ := ht
        rw [← hr] at hhead
        have h1 : c = 42 := some.inj hhead
        have h2 : c = 82 := (List.cons.inj htake).1
        rw [h1] at h2
        cases h2
      · cases hread
    rw [if_pos hsig]
    rfl
  | rdb signature reads =>
    obtain ⟨r, rfl⟩ := signature
    have hsig : (FILE.fread 5 (FILE.start (ascii "REDIS" ++ r ++ t))).1 = some (ascii "REDIS") := by
      exact congrArg Prod.fst (FILE.fread_append 0 (ascii "REDIS") (r ++ t) false)
    have hseek : FILE.seek (ascii "REDIS" ++ r ++ t) (ascii "REDIS" ++ r).length =
        ⟨(ascii "REDIS" ++ r).length, t, false⟩ := by
      rw [FILE.seek, drop_left]
    rw [if_neg (fun h => h hsig), reads, map_some]
    dsimp only
    rw [hseek]

lemma loadAppendOnlyFile_cut (hpre : env.Preamble pre load) (htrunc : env.aofLoadTruncated = true)
    (hcs : ∀ argv ∈ cs, Writable argv) (hopen : env.inMulti cs = some o) (ht : Cut t)
    (hcmds : commandsText cs ++ t <+: commandsText cmds) (s : σ) :
    ∃ st r, Loaded env pre.length (load s) cs st ∧ env.loadAppendOnlyFile (pre ++ (commandsText cs ++ t)) s = .ok r ∧
      r.data = st.data ∧ r.file = (pre ++ (commandsText cs ++ t)).take
        (if t = [] then if st.fakeClient.multi then st.validBeforeMulti else (pre ++ (commandsText cs ++ t)).length
          else st.validUpTo) := by
  have start : Loaded env pre.length (load s) [] ⟨⟨pre.length, commandsText cs ++ t, false⟩, ⟨false, []⟩, load s, 0, 0⟩ :=
    .outside rfl rfl rfl rfl
  by_cases hne : pre ++ (commandsText cs ++ t) = []
  · -- the empty file is not read at all
    obtain ⟨rfl, hrest⟩ := append_eq_nil_iff.mp hne
    obtain ⟨hcsnil, rfl⟩ := append_eq_nil_iff.mp hrest
    have hcs : cs = [] := by
      cases cs with
      | nil => rfl
      | cons argv cs =>
        rw [commandsText_cons, append_eq_nil_iff] at hcsnil
        exact absurd hcsnil.1 (commandText_ne_nil argv)
    subst hcs
    cases hpre with
    | none => exact ⟨_, ⟨false, s, []⟩, start, rfl, rfl, rfl⟩
    | rdb signature => cases prefix_nil.mp signature
  · obtain ⟨fuel, hfuel⟩ : ∃ fuel, (pre ++ (commandsText cs ++ t)).length + 1 = cs.length + (fuel + 1) := by
      have hle := length_le_commandsText cs
      rw [length_append, length_append]
      exact ⟨pre.length + ((commandsText cs).length + t.length) - cs.length, by omega⟩
    obtain ⟨st, hrun, loaded, hfp⟩ := start.run htrunc hcs hopen rfl (fuel + 1)
    obtain ⟨fp, heof, hend⟩ := loadCommands_cut env ht hfp fuel
    rw [loadAppendOnlyFile_start hpre hcmds hne, hfuel, hrun, hend]
    refine ⟨st, ?_⟩
    by_cases hnil : t = []
    · simp only [if_pos hnil, afterLoop, uxeof, htrunc, if_true]
      split
      · exact ⟨_, loaded, rfl, rfl, rfl⟩
      · exact ⟨_, loaded, rfl, rfl, (take_length ..).symm⟩
    · simp only [if_neg hnil, afterLoop, heof, uxeof, htrunc, if_true]
      exact ⟨_, loaded, rfl, rfl, rfl⟩

lemma loadAppendOnlyFile_complete (hpre : env.Preamble pre load) (htrunc : env.aofLoadTruncated = true)
    (hcmds : env.WellFormed cmds) (s : σ) : ∃ r, env.loadAppendOnlyFile (pre ++ commandsText cmds) s = .ok r ∧
      r.data = env.execute (load s) cmds ∧ r.file = pre ++ commandsText cmds := by
  obtain ⟨st, r, loaded, hload, hdata, hfile⟩ := loadAppendOnlyFile_cut hpre htrunc hcmds.writable hcmds.closed
    (.inl rfl) (show commandsText cmds ++ [] <+: commandsText cmds by rw [append_nil]) s
  rw [append_nil] at hload hfile
  refine ⟨r, hload, ?_⟩
  rw [hdata, hfile]
  cases loaded with
  | outside closed client data valid =>
    rw [client]
    exact ⟨data, take_length ..⟩
  | inside closed multi other =>
    have hopen := hcmds.closed
    rw [inMulti_body closed multi other] at hopen
    cases hopen

lemma take_upTo (pre t : Bytes) (hkept : kept <+: cs) :
    (pre ++ (commandsText cs ++ t)).take (upTo pre.length kept) = pre ++ commandsText kept ↔ pre = [] ∨ kept ≠ [] := by
  obtain ⟨ds, rfl⟩ := hkept
  rw [upTo]
  split
  · rename_i hnil
    rw [hnil]
    simp [commandsText, eq_comm]
  · rename_i hne
    rw [commandsText_append, append_assoc, ← append_assoc pre, ← length_append, take_left]
    simp [hne]

lemma longestComplete (hcmds : env.WellFormed (cs ++ ds)) (hkept : kept <+: cs) (hclosed : env.inMulti kept = some false)
    (hcut : t = [] ∨ ∃ argv ds', ds = argv :: ds' ∧ t <+: commandText argv ∧ t ≠ commandText argv ∧ t ≠ [])
    (hmax : ∀ us, us <+: cs → env.inMulti us = some false → us <+: kept) :
    env.LongestComplete pre (pre ++ (commandsText cs ++ t)) kept where
  wellFormed := ⟨fun a ha => hcmds.writable a (mem_append_left _ (hkept.subset ha)), hclosed⟩
  held := by
    obtain ⟨rest, rfl⟩ := hkept
    rw [commandsText_append, append_assoc, ← append_assoc]
    exact prefix_append ..
  longest us hus h := by
    have h := (prefix_append_right_inj pre).mp h
    have htext : commandsText cs ++ t <+: commandsText (cs ++ ds) := by
      rw [commandsText_append, prefix_append_right_inj]
      rcases hcut with rfl | ⟨argv, ds', rfl, ht, -⟩
      · exact nil_prefix
      · exact ht.trans (prefix_append ..)
    have hall := prefix_of_commandsText hus.writable hcmds.writable (h.trans htext)
    have hcs : us <+: cs := by
      apply prefix_complete (prefix_append cs ds) hall h
      rcases hcut with rfl | ⟨argv, ds', rfl, ht, hne, -⟩
      · exact .inl rfl
      · exact .inr ⟨argv, ⟨ds', by simp⟩, Nat.lt_of_le_of_ne ht.length_le fun heq => hne (ht.eq_of_length heq)⟩
    obtain ⟨rest, rfl⟩ := hmax us hcs hus.closed
    rw [commandsText_append, length_append]
    exact Nat.le_add_right ..

lemma WellFormed.append (h : env.WellFormed cs) (h' : env.WellFormed ds) : env.WellFormed (cs ++ ds) where
  writable := forall_mem_append.mpr ⟨h.writable, h'.writable⟩
  closed := by
    rw [inMulti_append, h.closed]
    exact h'.closed

lemma reload (hpre : env.Preamble pre load) (htrunc : env.aofLoadTruncated = true) (hkept : env.WellFormed kept)
    {more} (hmore : env.WellFormed more) (s : σ) :
    ∃ r, env.loadAppendOnlyFile (pre ++ commandsText kept ++ commandsText more) s = .ok r ∧
      r.data = env.execute (load s) (kept ++ more) := by
  obtain ⟨r, hload, hdata, -⟩ := loadAppendOnlyFile_complete hpre htrunc (hkept.append hmore) s
  rw [append_assoc, ← commandsText_append]
  exact ⟨r, hload, hdata⟩

end Files

/-- Loading a file that is cut anywhere behind the preamble executes the longest complete part of it; the file is cut
down to that part, and can be appended to and loaded again, exactly if it ends where it is recoverable. -/
theorem loadAppendOnlyFile_truncated (env : LoadEnv σ) {pre file : Bytes} {load : σ → σ} {cmds : List (List Bytes)}
    (hpre : env.Preamble pre load) (hcmds : env.WellFormed cmds) (htrunc : env.aofLoadTruncated = true)
    (hstart : pre <+: file) (hfile : file <+: pre ++ commandsText cmds) (s : σ) :
    ∃ kept r, env.LongestComplete pre file kept ∧ env.loadAppendOnlyFile file s = .ok r ∧
      r.data = env.execute (load s) kept ∧
      ((r.file = pre ++ commandsText kept ∧ ∀ more, env.WellFormed more →
          ∃ r', env.loadAppendOnlyFile (r.file ++ commandsText more) s = .ok r' ∧
            r'.data = env.execute (load s) (kept ++ more)) ↔ env.Recoverable pre cmds file kept) := by
  obtain ⟨x, rfl⟩ := hstart
  have hx := (prefix_append_right_inj pre).mp hfile
  obtain ⟨ds, t, hsplit, htext, hcut⟩ := completeCommands_spec hx
  have recoverable : ∀ kept, env.Recoverable pre cmds (pre ++ x) kept ↔ x = commandsText kept ∨
      (pre = [] ∨ kept ≠ []) ∧ (env.inMulti (completeCommands cmds x.length) = some false ∨ t = []) := by
    intro kept
    have hlen : (pre ++ x).length - pre.length = x.length := by simp
    have hend : x = commandsText (completeCommands cmds x.length) ↔ t = [] := by
      constructor
      · exact fun h => append_right_eq_self.mp (htext.symm.trans h)
      · intro h
        rw [h, append_nil] at htext
        exact htext
    simp only [Recoverable, hlen, append_cancel_left_eq, hend]
  generalize completeCommands cmds x.length = cs at hsplit htext recoverable
  subst hsplit htext
  obtain ⟨o, hopen⟩ := inMulti_of_append hcmds.closed
  have hwrite : ∀ argv ∈ cs, Writable argv := fun a ha => hcmds.writable a (mem_append_left _ ha)
  have ht : Cut t := by
    rcases hcut with rfl | ⟨argv, ds', rfl, hcut⟩
    · exact .inl rfl
    · exact .inr ⟨argv, hcmds.writable argv (by simp), hcut⟩
  obtain ⟨st, r, loaded, hload, hdata, hr⟩ := loadAppendOnlyFile_cut hpre htrunc hwrite hopen ht hx s
  -- what was kept can be appended to, so that only the file is left to compare
  suffices h : ∃ kept, env.LongestComplete pre (pre ++ (commandsText cs ++ t)) kept ∧ st.data = env.execute (load s) kept ∧
      (r.file = pre ++ commandsText kept ↔ env.Recoverable pre (cs ++ ds) (pre ++ (commandsText cs ++ t)) kept) by
    obtain ⟨kept, longest, data, hiff⟩ := h
    refine ⟨kept, r, longest, hload, hdata.trans data, ?_⟩
    rw [← hiff]
    refine ⟨And.left, fun heq => ⟨heq, fun more hmore => ?_⟩⟩
    rw [heq]
    exact reload hpre htrunc longest.wellFormed hmore s
  cases loaded with
  | outside closed client data valid =>
    refine ⟨cs, longestComplete hcmds prefix_rfl closed hcut fun us hus _ => hus, data, ?_⟩
    rw [recoverable, hr, client]
    by_cases hnil : t = []
    · simp [hnil]
    · rw [if_neg hnil, valid, take_upTo _ _ prefix_rfl]
      simp [hnil, closed]
  | @inside kept body m _ closed multi other client data valid before =>
    have hmax : ∀ us, us <+: kept ++ m :: body → env.inMulti us = some false → us <+: kept := by
      intro us hus husclosed
      rcases prefix_or_prefix_of_prefix hus (prefix_append kept (m :: body)) with h | ⟨tail, rfl⟩
      · exact h
      cases tail with
      | nil => rw [append_nil]
      | cons m' body' =>
        obtain ⟨rfl, hbody⟩ := cons_prefix_cons.mp ((prefix_append_right_inj kept).mp hus)
        rw [inMulti_body closed multi fun a ha => other a (hbody.subset ha)] at husclosed
        cases husclosed
    refine ⟨kept, longestComplete hcmds (prefix_append ..) closed hcut hmax, data, ?_⟩
    have hlonger : ∀ t, commandsText (kept ++ m :: body) ++ t ≠ commandsText kept := by
      intro t
      rw [commandsText_append, commandsText_cons, append_assoc, ne_eq]
      simp [commandText_ne_nil]
    rw [recoverable, hr, client, or_iff_right (hlonger t)]
    by_cases hnil : t = []
    · rw [if_pos hnil, if_pos rfl, before, take_upTo _ _ (prefix_append ..)]
      simp [hnil]
    have htake := (take_upTo pre t (prefix_refl (kept ++ m :: body))).mpr (.inr (by simp))
    have hmore := hlonger []
    rw [append_nil] at hmore
    rw [if_neg hnil, valid, htake, inMulti_body closed multi other]
    simp [hmore, hnil]

end LoadEnv

/-- A server that keeps a log of the commands it executes, and whose RDB files have nine bytes. -/
def loggingEnv : LoadEnv (List (List Bytes)) where
  lookupCommand name := some (if strcaseeq name "multi" then .multi else if strcaseeq name "exec" then .exec else .other)
  call s argv := s ++ [argv]
  rdbLoadRio file s := some (s ++ [[file.take 9]], 9)
  aofLoadTruncated := true

instance (argv : List Bytes) : Decidable (Writable argv) :=
  decidable_of_iff (argv ≠ [] ∧ argv.length < 2 ^ 31 ∧ ∀ arg ∈ argv, arg.length < 2 ^ 62)
    ⟨fun ⟨h, h', h''⟩ => ⟨h, h', h''⟩, fun h => ⟨h.ne_nil, h.argc, h.args⟩⟩

instance {σ : Type} (env : LoadEnv σ) (cmds : List (List Bytes)) : Decidable (env.WellFormed cmds) :=
  decidable_of_iff ((∀ argv ∈ cmds, Writable argv) ∧ env.inMulti cmds = some false)
    ⟨fun ⟨h, h'⟩ => ⟨h, h'⟩, fun h => ⟨h.writable, h.closed⟩⟩

def transactionCommands : List (List Bytes) :=
  [[ascii "SELECT", ascii "0"], [ascii "MULTI"], [ascii "SET", ascii "a", ascii "1"], [ascii "EXEC"]]

theorem loadAppendOnlyFile_truncated_sample :
    let pre := ascii "REDIS0009"
    let file := pre ++ commandsText (transactionCommands.take 3)
    ∃ kept r, loggingEnv.LongestComplete pre file kept ∧ loggingEnv.loadAppendOnlyFile file [] = .ok r ∧
      r.data = loggingEnv.execute ([] ++ [[pre]]) kept ∧
      ((r.file = pre ++ commandsText kept ∧ ∀ more, loggingEnv.WellFormed more →
          ∃ r', loggingEnv.loadAppendOnlyFile (r.file ++ commandsText more) [] = .ok r' ∧
            r'.data = loggingEnv.execute ([] ++ [[pre]]) (kept ++ more)) ↔
        loggingEnv.Recoverable pre transactionCommands file kept) :=
  have preamble : loggingEnv.Preamble (ascii "REDIS0009") (· ++ [[ascii "REDIS0009"]]) :=
    .rdb (by decide) fun _ _ => rfl
  loggingEnv.loadAppendOnlyFile_truncated preamble (by decide +kernel) rfl (prefix_append ..)
    (by decide +kernel) []

/-- A file that ends within the `EXEC` keeps the open transaction, which then swallows what is appended; one that ends
within the first command behind the preamble loses the preamble. -/
theorem loadAppendOnlyFile_keeps_torn :
    (let file := (commandsText transactionCommands).dropLast
      let kept := commandsText (transactionCommands.take 3)
      loggingEnv.loadAppendOnlyFile file [] = .ok ⟨true, [[ascii "SELECT", ascii "0"]], kept⟩ ∧
      loggingEnv.loadAppendOnlyFile (kept ++ commandText [ascii "SET", ascii "b", ascii "2"]) [] =
        .ok ⟨true, [[ascii "SELECT", ascii "0"]], commandsText (transactionCommands.take 1)⟩) ∧
    loggingEnv.loadAppendOnlyFile (ascii "REDIS0009" ++ commandsText (transactionCommands.take 1)).dropLast [] =
      .ok ⟨true, [[ascii "REDIS0009"]], []⟩ := by
  decide +kernel

end JitRedis
