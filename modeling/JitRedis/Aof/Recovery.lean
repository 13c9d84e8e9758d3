import JitRedis.Aof.Flush
import JitRedis.Aof.Load
import JitRedis.Aof.Rewrite

/-!
# Recovery from the append only file

A server may stop between any two calls of `feedAppendOnlyFile` and `flushAppendOnlyFile`. Another one that loads the
file executes the commands from the first one on, as far as they are complete in the file and not part of an open
transaction, each in the database it was executed in.
-/

open Runs List

namespace JitRedis.Aof

variable {δ : Type} (env : LoadEnv (Nat × δ)) (apply : Nat → δ → List Bytes → δ)

/-- A server with databases: other commands work on the one that is selected. -/
structure Databases : Prop where
  known : ∀ n, env.procOf [ascii "SELECT", decimal n] = some .other
  select : ∀ db d n, env.call (db, d) [ascii "SELECT", decimal n] = (n, d)
  other : ∀ db d argv, strcaseeq (argv.headD []) "select" = false → env.call (db, d) argv = (db, apply db d argv)

/-- The commands are executed, each in its own database; `MULTI` and `EXEC` change nothing. -/
def executed (d : δ) (fs : List AofFeed) : δ :=
  fs.foldl (fun d f => ((f.commands.toOption.getD []).filter fun argv => env.procOf argv = some .other).foldl
    (apply f.dictid) d) d

/-- No `SELECT` is fed, as it changes nothing that would have to be written. -/
def Unselecting (fs : List AofFeed) : Prop :=
  ∀ f ∈ fs, ∀ argv ∈ f.commands.toOption.getD [], strcaseeq (argv.headD []) "select" = false

variable {env apply} {selected : Int} {db : Nat} {d : δ}

lemma Databases.execute_same (dbs : Databases env apply) {cmds}
    (h : ∀ argv ∈ cmds, strcaseeq (argv.headD []) "select" = false) :
    env.execute (db, d) cmds = (db, (cmds.filter fun argv => env.procOf argv = some .other).foldl (apply db) d) := by
  rw [LoadEnv.execute]
  have h' : ∀ argv ∈ cmds.filter fun argv => env.procOf argv = some .other, strcaseeq (argv.headD []) "select" = false :=
    fun argv ha => h argv (mem_of_mem_filter ha)
  generalize cmds.filter _ = cmds at h'
  induction cmds generalizing d with
  | nil => rfl
  | cons argv cmds ih =>
    rw [foldl_cons, foldl_cons, dbs.other db d argv (h' argv (mem_cons_self ..))]
    exact ih fun a ha => h' a (mem_cons_of_mem _ ha)

lemma Databases.execute_selectCommand (dbs : Databases env apply) (hdb : selected = -1 ∨ selected = db)
    (dictid : Fin (2 ^ 31)) : env.execute (db, d) (selectCommand selected dictid) = (dictid.val, d) := by
  rw [selectCommand]
  split
  · rw [LoadEnv.execute_other _ (dbs.known _), dbs.select]
  · rename_i h
    obtain rfl : db = dictid.val := by omega
    rfl

lemma Databases.execute_fedCommands (dbs : Databases env apply) {fs} (hfs : Unselecting fs)
    (hdb : selected = -1 ∨ selected = db) :
    (env.execute (db, d) (fedCommands selected fs)).2 = executed env apply d fs := by
  induction fs generalizing selected db d with
  | nil => rfl
  | cons f fs ih =>
    rw [fedCommands, LoadEnv.execute_append, LoadEnv.execute_append, dbs.execute_selectCommand hdb,
      dbs.execute_same (hfs f (mem_cons_self ..)), ih (fun g hg => hfs g (mem_cons_of_mem _ hg)) (.inr rfl)]
    rfl

/-- Loading a part of a file executes the first commands, with all that are complete and in no open transaction. -/
lemma loadAppendOnlyFile_prefix {σ : Type} {env : LoadEnv σ} {cmds file o} (htrunc : env.aofLoadTruncated = true)
    (hwrite : ∀ argv ∈ cmds, Writable argv) (hmulti : env.inMulti cmds = some o)
    (hfile : file <+: commandsText cmds) (s : σ) :
    ∃ kept r, kept <+: cmds ∧ env.loadAppendOnlyFile file s = .ok r ∧ r.data = env.execute s kept ∧
      ∀ us, us <+: cmds → env.inMulti us = some false → commandsText us <+: file → us <+: kept := by
  obtain ⟨ds, t, hsplit, htext, hcut⟩ := LoadEnv.completeCommands_spec hfile
  generalize completeCommands cmds file.length = cs at hsplit htext
  subst hsplit htext
  obtain ⟨o', hopen⟩ := LoadEnv.inMulti_of_append hmulti
  have ht : LoadEnv.Cut t := by
    rcases hcut with rfl | ⟨argv, ds', rfl, hcut⟩
    · exact .inl rfl
    · exact .inr ⟨argv, hwrite argv (by simp), hcut⟩
  obtain ⟨st, r, loaded, hload, hdata, -⟩ := LoadEnv.loadAppendOnlyFile_cut .none htrunc
    (fun a ha => hwrite a (mem_append_left _ ha)) hopen ht hfile s
  have whole : ∀ us, us <+: cs ++ ds → commandsText us <+: commandsText cs ++ t → us <+: cs := by
    intro us hus h
    apply LoadEnv.prefix_complete (prefix_append cs ds) hus h
    rcases hcut with rfl | ⟨argv, ds', rfl, ht, hne, -⟩
    · exact .inl rfl
    · exact .inr ⟨argv, ⟨ds', by simp⟩, Nat.lt_of_le_of_ne ht.length_le fun heq => hne (ht.eq_of_length heq)⟩
  cases loaded with
  | outside closed client data valid =>
    exact ⟨cs, r, prefix_append .., hload, hdata.trans data, fun us hus _ h => whole us hus h⟩
  | @inside kept body m _ closed multi other client data valid before =>
    refine ⟨kept, r, ⟨m :: body ++ ds, by simp⟩, hload, hdata.trans data, fun us hus husclosed h => ?_⟩
    have hus := whole us hus h
    rcases prefix_or_prefix_of_prefix hus (prefix_append kept (m :: body)) with h | ⟨tail, rfl⟩
    · exact h
    cases tail with
    | nil => rw [append_nil]
    | cons m' body' =>
      -- behind the `MULTI` the transaction stays open
      obtain ⟨rfl, hbody⟩ := cons_prefix_cons.mp ((prefix_append_right_inj kept).mp hus)
      rw [LoadEnv.inMulti_body closed multi fun a ha => other a (hbody.subset ha)] at husclosed
      cases husclosed

/-- Wherever a server stops that started with an empty file, the first commands are loaded, with all that are complete in
the file and in no open transaction. With an empty buffer that is the dataset all commands led to. -/
theorem aof_recovers (dbs : Databases env apply) (htrunc : env.aofLoadTruncated = true) {fsync now evs s o}
    (hrun : run step (start [] fsync (-1) now) evs = some s) (hfed : Unselecting (feeds evs))
    (hwrite : ∀ argv ∈ fedCommands (-1) (feeds evs), Writable argv)
    (hmulti : env.inMulti (fedCommands (-1) (feeds evs)) = some o) (d : δ) :
    ∃ kept r, kept <+: fedCommands (-1) (feeds evs) ∧ env.loadAppendOnlyFile s.aofFile (0, d) = .ok r ∧
      r.data = env.execute (0, d) kept ∧
      (∀ us, us <+: fedCommands (-1) (feeds evs) → env.inMulti us = some false → commandsText us <+: s.aofFile →
        us <+: kept) ∧
      (s.aofBuf = [] → o = false → r.data.2 = executed env apply d (feeds evs)) := by
  have first : Exact [] (-1) [] (start [] fsync (-1) now) := ⟨rfl, rfl, rfl, rfl⟩
  have htext := (run_history (h := []) Exact.step first hrun).text
  rw [nil_append, nil_append] at htext
  obtain ⟨kept, r, hkept, hload, hdata, hall⟩ := loadAppendOnlyFile_prefix htrunc hwrite hmulti
    ⟨s.aofBuf, htext⟩ (0, d)
  refine ⟨kept, r, hkept, hload, hdata, hall, fun hbuf ho => ?_⟩
  rw [hbuf, append_nil] at htext
  have hsame := hall _ (prefix_refl _) (ho ▸ hmulti) (htext ▸ prefix_refl _)
  rw [hdata, hkept.eq_of_length_le hsame.length_le, dbs.execute_fedCommands hfed (.inl rfl)]

/-- A server that logs the commands it executes, with their databases. -/
def databasesEnv : LoadEnv (Nat × List (Nat × List Bytes)) where
  lookupCommand := loggingEnv.lookupCommand
  call s argv :=
    if strcaseeq (argv.headD []) "select" then (digitsValue (argv.getD 1 []), s.2) else (s.1, s.2 ++ [(s.1, argv)])
  rdbLoadRio _ _ := none
  aofLoadTruncated := true

lemma databasesEnv_databases : Databases databasesEnv fun db log argv => log ++ [(db, argv)] where
  known _ := rfl
  select _ d n := congrArg (·, d) (digitsValue_decimal n)
  other _ _ _ h := if_neg (Bool.eq_false_iff.mp h)

theorem aof_recovers_cut_short :
    let evs := [.feed ⟨.other, 1, [ascii "INCR", ascii "a"], 0⟩, .feed ⟨.other, 0, [ascii "INCR", ascii "b"], 0⟩,
      .flush (cutShort 50 false)]
    ∃ s, run step (start [] .everysec (-1) 0) evs = some s ∧ ∃ kept r, kept <+: fedCommands (-1) (feeds evs) ∧
      databasesEnv.loadAppendOnlyFile s.aofFile (0, []) = .ok r ∧ r.data = databasesEnv.execute (0, []) kept := by
  intro evs
  obtain ⟨s, hrun, -⟩ := run_checked step (start [] .everysec (-1) 0) evs (p := fun _ => true) (by decide +kernel)
  obtain ⟨kept, r, hkept, hload, hdata, -⟩ := aof_recovers databasesEnv_databases rfl hrun
    (by unfold Unselecting; decide +kernel) (by decide +kernel) (show _ = some false by decide +kernel) []
  exact ⟨s, hrun, kept, r, hkept, hload, hdata⟩

/-- However a background rewrite is interleaved with what is fed, loading the new file leads to the dataset of the
snapshot, with or without a preamble, and all commands since the fork. -/
theorem rewrite_recovers (dbs : Databases env apply) (htrunc : env.aofLoadTruncated = true)
    {aofState aofFile pre load cmds evs₀ evs s₀ s opened results renamed file} (hpre : env.Preamble pre load)
    (h₀ : run rewriteStep (.start aofState aofFile) evs₀ = some s₀)
    (hrun : run rewriteStep s₀ (.fork (pre ++ commandsText cmds) :: evs) = some s) (hevs : ∀ e ∈ evs, e.isDone = false)
    (hnew : s.newFile opened results renamed = some file) (hfed : Unselecting (fedEvents evs))
    (hcmds : env.WellFormed (cmds ++ fedCommands (-1) (fedEvents evs))) (d : δ) :
    ∃ r, env.loadAppendOnlyFile file (0, d) = .ok r ∧
      r.data.2 = executed env apply (env.execute (load (0, d)) cmds).2 (fedEvents evs) := by
  obtain ⟨rewriting, -⟩ := rewriting_run h₀ hrun hevs
  obtain ⟨r, hload, hdata, -⟩ := LoadEnv.loadAppendOnlyFile_complete hpre htrunc hcmds (0, d)
  refine ⟨r, ?_, ?_⟩
  · rwa [rewriting.newFile hnew, append_assoc, ← commandsText_append]
  · rw [hdata, LoadEnv.execute_append, ← dbs.execute_fedCommands hfed (.inl rfl)]

theorem rewrite_recovers_unsent :
    let cmds := [[ascii "INCR", ascii "a"]]
    let evs := [.childWrites 21, .childSnapshotDone, .feed ⟨.other, 1, [ascii "INCR", ascii "b"], 0⟩, .childAsks,
      .ack true, .childGetsAck, .childReads 0, .childConcats]
    ∃ s file, run rewriteStep (.start .on []) (.fork (commandsText cmds) :: evs) = some s ∧
      s.newFile true [44] true = some file ∧ ∃ r, databasesEnv.loadAppendOnlyFile file (0, []) = .ok r ∧
        r.data.2 = [(0, [ascii "INCR", ascii "a"]), (1, [ascii "INCR", ascii "b"])] := by
  intro cmds evs
  obtain ⟨s, hrun, hnew⟩ := run_checked rewriteStep (.start .on []) (.fork (commandsText cmds) :: evs)
    (p := fun s => (s.newFile true [44] true).isSome) (by decide +kernel)
  obtain ⟨file, hnew⟩ := Option.isSome_iff_exists.mp hnew
  obtain ⟨r, hload, hdata⟩ := rewrite_recovers databasesEnv_databases rfl .none (show run _ _ [] = _ from rfl)
    (show run _ _ (.fork ([] ++ commandsText cmds) :: evs) = _ from hrun) (by decide) hnew
    (by unfold Unselecting; decide +kernel) ⟨by decide +kernel, by decide +kernel⟩ []
  exact ⟨s, file, hrun, hnew, r, hload, hdata.trans (by decide +kernel)⟩

end JitRedis.Aof
