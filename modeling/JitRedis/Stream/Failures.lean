import JitRedis.Stream.PendingRun

/-!
# Commands that reply with an error

Most commands check all of their arguments before they change anything. `XACK` parses an ID when its turn has come, and
`XADD` creates the key before it knows whether the ID can be added.
-/

namespace JitRedis

open Fallible List SortedMap

/-- A command that replies with an error has left the keyspace as it was. -/
def CmdResult.Clean (db : StreamDb) (r : CmdResult) : Prop := ∀ text, r.reply = [.error text] → r.db = db

def StreamCommand.Writes (cmd : StreamCommand) : Prop := cmd ≠ .xread ∧ cmd ≠ .xreadgroup

/-- `XADD` with the smallest ID for a key that does not exist. -/
def XaddCreates (db : StreamDb) (argv : List Bytes) : Prop :=
  db.find? (argAt argv 1) = none ∧ 5 ≤ argv.length ∧ ∃ args, xaddParse 2 (argv.drop 2) ⟨-1, false, 0⟩ = .ok args ∧
    args.id = some ⟨0, 0⟩ ∧ 2 ≤ args.fields.length ∧ args.fields.length % 2 = 0

/-- The IDs before the first invalid one. -/
def leadingIDs : List Bytes → List Bytes
  | [] => []
  | arg :: args =>
    match streamParseStrictID arg 0 with
    | none => []
    | some id => streamEncodeID id :: leadingIDs args

/-- `XACK` with the ID of a pending entry before any invalid ID. -/
def XackRemoves (db : StreamDb) (argv : List Bytes) : Prop :=
  ∃ s cg, db.find? (argAt argv 1) = some s ∧ streamLookupCG s (argAt argv 2) = some cg ∧
    ∃ k ∈ leadingIDs (argv.drop 3), (cg.pel.find? k).isSome

/-- What a command that fails leaves behind. -/
def StreamCommand.LeavesTrace (db : StreamDb) (argv : List Bytes) : StreamCommand → Prop
  | .xadd => XaddCreates db argv
  | .xack => XackRemoves db argv
  | _ => False

abbrev AnyFault (_ : Fault) : Prop := True

variable {cfg : StreamConfig} {db : StreamDb} {s : Stream} {cg cg' : StreamCG} {now : Int} {argv : List Bytes}
  {args : List Bytes} {k : Bytes} {r : CmdResult}

lemma clean_replyOnly (reply : Reply) : (replyOnly db argv reply).Clean db := fun _ _ => rfl

lemma sat_any {α : Type} {P : α → Prop} {x : Except Fault α} (h : ∀ a, x = .ok a → P a) : Sat AnyFault P x := by
  cases x with
  | ok a => exact h a rfl
  | error e => trivial

lemma xdelCommand_clean : Sat AnyFault (CmdResult.Clean db) (xdelCommand db argv) := by
  rw [xdelCommand]
  split
  · exact clean_replyOnly _
  · split
    · exact clean_replyOnly _
    · exact (sat_any fun _ _ => trivial).bind fun _ _ _ h => by cases h

lemma xtrimCommand_clean : Sat AnyFault (CmdResult.Clean db) (xtrimCommand db argv) := by
  rw [xtrimCommand]
  split
  · exact clean_replyOnly _
  · split
    · exact clean_replyOnly _
    · exact clean_replyOnly _
    · exact (sat_any fun _ _ => trivial).bind fun _ _ _ h => by cases h

lemma xsetidCommand_clean : Sat AnyFault (CmdResult.Clean db) (xsetidCommand db argv) := by
  rw [xsetidCommand]
  split
  · exact clean_replyOnly _
  split
  · exact clean_replyOnly _
  · refine (sat_any fun _ _ => trivial).bind fun top _ => ?_
    split
    · exact clean_replyOnly _
    · exact fun _ h => by cases h

lemma xclaimCommand_clean : Sat AnyFault (CmdResult.Clean db) (xclaimCommand db now argv) := by
  rw [xclaimCommand]
  split
  · exact clean_replyOnly _
  split
  · exact clean_replyOnly _
  rw [xclaimGroup]
  split
  · exact clean_replyOnly _
  dsimp only
  split
  · exact clean_replyOnly _
  · refine (sat_any fun _ _ => trivial).bind ?_
    rintro ⟨cg, _ | consumer⟩ -
    · trivial
    · exact (sat_any fun _ _ => trivial).bind fun _ _ _ h => by cases h

lemma xgroupCreate_clean {mkstream : Bool} : Sat AnyFault (CmdResult.Clean db)
    (xgroupCreate db argv (db.find? (argAt argv 2)) mkstream) := by
  rw [xgroupCreate]
  split
  · exact clean_replyOnly _
  split
  · trivial
  cases hs : db.find? (argAt argv 2) with
  | none => exact fun _ h => by cases h
  | some s =>
    split
    · exact fun _ h => by cases h
    · exact fun _ _ => insert_find hs

lemma xgroupCommand_clean : Sat AnyFault (CmdResult.Clean db) (xgroupCommand db now argv) := by
  rw [xgroupCommand]
  split
  · exact clean_replyOnly _
  split
  · exact xgroupCreate_clean
  split
  · split <;> exact clean_replyOnly _
  cases hs : db.find? (argAt argv 2) with
  | none => exact clean_replyOnly _
  | some s =>
    dsimp only
    split
    · exact clean_replyOnly _
    split
    · rw [← hs]
      exact xgroupCreate_clean
    rw [xgroupStream.eq_def]
    dsimp only
    split
    · split
      · exact clean_replyOnly _
      · split
        · trivial
        · exact fun _ h => by cases h
    split
    · split
      · exact clean_replyOnly _
      · exact fun _ h => by cases h
    split
    · split
      · trivial
      · exact (sat_any fun _ _ => trivial).bind fun _ _ _ h => by cases h
    split <;> exact clean_replyOnly _

lemma xaddCommand_trace {text : Bytes} (hargc : 5 ≤ argv.length) (h : xaddCommand cfg db now argv = .ok r)
    (herr : r.reply = [.error text]) : r.db = db ↔ ¬ XaddCreates db argv := by
  rw [xaddCommand] at h
  split at h
  · rename_i hparse
    cases h
    refine iff_of_true rfl ?_
    rintro ⟨-, -, args, hargs, -⟩
    cases hparse.symm.trans hargs
  rename_i args hparse
  split at h
  · cases h
    refine iff_of_true rfl ?_
    rintro ⟨-, -, args', hargs, -, hlen, hmod⟩
    cases hparse.symm.trans hargs
    omega
  obtain ⟨⟨s, id⟩, happ, h⟩ := bind_eq_ok.mp h
  cases id with
  | some id =>
    obtain ⟨_, -, ⟨⟩⟩ := bind_eq_ok.mp h
    cases herr
  | none =>
    cases h
    rw [streamAppendItem] at happ
    split at happ
    · rename_i hany
      cases happ
      obtain ⟨id, hid, hle⟩ := (Option.any_eq_true _ _).mp hany
      cases hs : db.find? (argAt argv 1) with
      | some s => exact iff_of_true (insert_find hs) fun hc => by cases hs.symm.trans hc.1
      | none =>
        rw [hs, Option.getD_none, decide_eq_true_iff, streamCompareID_le] at hle
        have hzero : id = ⟨0, 0⟩ := le_antisymm hle (Nat.zero_le _)
        refine iff_of_false (fun heq => ?_) 
          (not_not.mpr ⟨hs, hargc, args, hparse, hzero ▸ hid, by omega, by omega⟩)
        have hfind := find?_insert_self (m := db) (k := argAt argv 1) (v := streamNew)
        rw [show db.insert (argAt argv 1) streamNew = db from heq, hs] at hfind
        cases hfind
    · obtain ⟨_, -, happ⟩ := bind_eq_ok.mp happ
      obtain ⟨_, -, ⟨⟩⟩ := bind_eq_ok.mp happ

lemma streamAck_pel {acked : Nat} (h : streamAck cg k = .ok (cg', acked)) (j : Bytes) :
    cg'.pel.find? j = if j = k then none else cg.pel.find? j := by
  rw [streamAck] at h
  split at h
  · rename_i hk
    cases h
    split
    · rename_i hj
      rw [hj, hk]
    · rfl
  obtain ⟨nack, -, h⟩ := bind_eq_ok.mp h
  split at h
  · cases h
  obtain ⟨cg₁, hremove, h⟩ := bind_eq_ok.mp h
  obtain ⟨cg₂, hfree, h⟩ := bind_eq_ok.mp h
  obtain ⟨_, -, hremove⟩ := bind_eq_ok.mp hremove
  obtain ⟨_, -, hfree⟩ := bind_eq_ok.mp hfree
  cases hremove
  cases hfree
  cases h
  show (cg.pel.erase k).find? j = _
  rw [find?_erase]
  congr

lemma xackLoop_pel {n m : Nat} {valid : Bool} (h : xackLoop args cg n = .ok (cg', m, valid)) :
    (∀ j, cg'.pel.find? j = if j ∈ leadingIDs args then none else cg.pel.find? j) ∧
      ((∀ j ∈ leadingIDs args, cg.pel.find? j = none) → cg' = cg) := by
  induction args generalizing cg n with
  | nil =>
    cases h
    exact ⟨fun j => (if_neg not_mem_nil).symm, fun _ => rfl⟩
  | cons arg args ih =>
    rw [xackLoop] at h
    rw [leadingIDs]
    cases hid : streamParseStrictID arg 0 with
    | none =>
      rw [hid] at h
      cases h
      exact ⟨fun j => (if_neg not_mem_nil).symm, fun _ => rfl⟩
    | some id =>
      rw [hid] at h
      obtain ⟨⟨cg₁, acked⟩, hack, h⟩ := bind_eq_ok.mp h
      obtain ⟨hpel, hsame⟩ := ih h
      refine ⟨fun j => ?_, fun hnone => ?_⟩
      · rw [hpel, streamAck_pel hack]
        by_cases hj : j = streamEncodeID id <;> by_cases hmem : j ∈ leadingIDs args <;> simp [hj, hmem]
      · obtain ⟨hfirst, hrest⟩ := forall_mem_cons.mp hnone
        rw [streamAck, hfirst] at hack
        cases hack
        exact hsame hrest

lemma xackCommand_trace {text : Bytes} (h : xackCommand db argv = .ok r) (herr : r.reply = [.error text]) :
    r.db = db ↔ ¬ XackRemoves db argv := by
  rw [xackCommand] at h
  cases hs : db.find? (argAt argv 1) with
  | none =>
    rw [hs] at h
    cases h
    cases herr
  | some s =>
    rw [hs] at h
    dsimp only at h
    cases hcg : streamLookupCG s (argAt argv 2) with
    | none =>
      rw [hcg] at h
      cases h
      cases herr
    | some cg =>
      rw [hcg] at h
      obtain ⟨⟨cg', acked, valid⟩, hloop, ⟨⟩⟩ := bind_eq_ok.mp h
      obtain ⟨hpel, hsame⟩ := xackLoop_pel hloop
      constructor
      · rintro heq ⟨s', cg₀, hs', hcg', k, hk, hsome⟩
        cases hs.symm.trans hs'
        cases hcg.symm.trans hcg'
        -- the group has lost a pending entry, so that it is not the one of before
        have hfind := find?_insert_self (m := db) (k := argAt argv 1) (v := s.setGroup (argAt argv 2) cg')
        rw [show db.insert _ _ = db from heq, hs, Option.some.injEq] at hfind
        rw [hfind, streamLookupCG, Stream.setGroup, find?_insert_self, Option.some.injEq] at hcg
        rw [← hcg, hpel, if_pos hk] at hsome
        cases hsome
      · intro hno
        have hcg' : cg' = cg := hsame fun j hj => by
          by_contra hne
          exact hno ⟨s, cg, hs, hcg, j, hj, Option.isSome_iff_ne_none.mpr hne⟩
        have hgroup : s.setGroup (argAt argv 2) cg = s := by
          rw [Stream.setGroup, insert_find hcg]
        rw [hcg', hgroup, insert_find hs]

/-- A command that replies with an error has left the keyspace as it was, unless it is an `XADD` that has created a key or
an `XACK` that has removed a pending entry. -/
theorem failed_command_clean_iff (cfg : StreamConfig) (db : StreamDb) (now : Int) (argv : List Bytes)
    (cmd : StreamCommand) (r : CmdResult) (text : Bytes) (hcmd : lookupCommand (argAt argv 0) = some cmd)
    (hwrites : cmd.Writes) (h : processStreamCommand cfg db now argv = .ok r) (herr : r.reply = [.error text]) :
    r.db = db ↔ ¬ cmd.LeavesTrace db argv := by
  rw [processStreamCommand, hcmd] at h
  dsimp only at h
  have hargc : arityOk cmd.entry.2 argv.length = true ↔ ¬(0 < cmd.entry.2 ∧ cmd.entry.2 ≠ argv.length ∨
    (argv.length : Int) < -cmd.entry.2) := decide_eq_true_iff
  split at h
  · rename_i harity
    rw [hargc] at harity
    cases cmd with
    | xadd =>
      simp only [StreamCommand.entry] at harity
      exact xaddCommand_trace (by omega) h herr
    | xack => exact xackCommand_trace h herr
    | xdel => exact iff_of_true (xdelCommand_clean.of_eq h text herr) id
    | xtrim => exact iff_of_true (xtrimCommand_clean.of_eq h text herr) id
    | xgroup => exact iff_of_true (xgroupCommand_clean.of_eq h text herr) id
    | xsetid => exact iff_of_true (xsetidCommand_clean.of_eq h text herr) id
    | xclaim => exact iff_of_true (xclaimCommand_clean.of_eq h text herr) id
    | xread => exact absurd rfl hwrites.1
    | xreadgroup => exact absurd rfl hwrites.2
  · rename_i harity
    cases h
    rw [hargc] at harity
    refine iff_of_true rfl ?_
    cases cmd with
    | xadd =>
      simp only [StreamCommand.entry] at harity
      exact fun hc => harity (by have := hc.2.1; omega)
    | xack =>
      simp only [StreamCommand.entry] at harity
      rintro ⟨-, -, -, -, k, hk, -⟩
      rw [drop_eq_nil_of_le (by omega)] at hk
      cases hk
    | _ => exact id

def pendingCalls : List (Int64 × List Bytes) :=
  [(1, [ascii "XADD", ascii "s", ascii "1-1", ascii "a", ascii "1"]),
    (2, [ascii "XGROUP", ascii "CREATE", ascii "s", ascii "g", ascii "0"]),
    (3, [ascii "XREADGROUP", ascii "GROUP", ascii "g", ascii "c", ascii "STREAMS", ascii "s", ascii ">"])]

theorem failed_command_clean_xadd : ∃ r, processStreamCommand ⟨4096, 100⟩ .empty 1
    [ascii "XADD", ascii "s", ascii "1-x", ascii "a", ascii "1"] = .ok r ∧ r.reply = invalidID ∧
      (r.db = .empty ↔ ¬ StreamCommand.LeavesTrace .empty
        [ascii "XADD", ascii "s", ascii "1-x", ascii "a", ascii "1"] .xadd) :=
  ⟨replyOnly .empty _ invalidID, by rfl, rfl, failed_command_clean_iff ⟨4096, 100⟩ .empty 1 _ .xadd _
    (ascii "Invalid stream ID specified as stream command argument") (by decide +kernel) ⟨nofun, nofun⟩ (by rfl) rfl⟩

/-- A command that acknowledges an entry and one that creates a key, though both reply with an error. -/
def failingCalls : List (Int64 × List Bytes) :=
  [(4, [ascii "XACK", ascii "s", ascii "g", ascii "1-1", ascii "x"]),
    (5, [ascii "XADD", ascii "t", ascii "0-0", ascii "a", ascii "1"])]

theorem failed_command_changes_keyspace :
    (exec (streamCommandStep ⟨4096, 100⟩) .empty (pendingCalls ++ failingCalls)).map (fun r => r.2.drop 3) =
      .ok [invalidID, addReplyError "The ID specified in XADD is equal or smaller than the target stream top item"] ∧
    (exec (streamCommandStep ⟨4096, 100⟩) .empty pendingCalls).map
      (fun r => (pendingOwners r.1 (ascii "s") (ascii "g"), (r.1.find? (ascii "t")).isSome)) =
      .ok ([(ascii "1-1", some (ascii "c"))], false) ∧
    (exec (streamCommandStep ⟨4096, 100⟩) .empty (pendingCalls ++ failingCalls)).map
      (fun r => (pendingOwners r.1 (ascii "s") (ascii "g"), (r.1.find? (ascii "t")).isSome)) = .ok ([], true) :=
  ⟨by decide +kernel, by decide +kernel, by decide +kernel⟩

end JitRedis
