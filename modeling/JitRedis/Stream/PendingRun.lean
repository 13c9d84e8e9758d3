import JitRedis.Stream.Delivery

/-!
# The pending entries lists along runs of commands

Each stream command keeps the lists of all groups in order, and no command runs into a panic: neither the one of
`streamReplyWithRange` for a NACK that is half created, nor the one of `xclaimCommand` for an ID that is invalid after
the check.
-/

namespace JitRedis

open Fallible SortedMap Option

def StreamCG.HasConsumer (cg : StreamCG) (name : Bytes) (c : Nat) (x : StreamConsumer) : Prop :=
  cg.consumers.find? name = some c ∧ cg.consumerHeap.find? c = some x

/-- The list of the group is the disjoint union of the lists of its consumers, and an ID has the same NACK in the list
of the group and in the one of its owner, which is the consumer of the NACK. -/
structure StreamCG.Consistent (cg : StreamCG) : Prop where
  union : ∀ id, (cg.pel.find? id).isSome ↔ ∃ name c x, cg.HasConsumer name c x ∧ (x.pel.find? id).isSome
  disjoint : ∀ {id name name' c c' x x'}, cg.HasConsumer name c x → cg.HasConsumer name' c' x' →
    (x.pel.find? id).isSome → (x'.pel.find? id).isSome → name = name'
  shared : ∀ {id p}, cg.pel.find? id = some p → ∃ name c x nack, cg.HasConsumer name c x ∧ x.pel.find? id = some p ∧
    cg.nackHeap.find? p = some nack ∧ nack.consumer = some c

/-- A stream with its nodes and its groups in order. -/
structure Stream.Sound (s : Stream) : Prop where
  rendered : s.Rendered
  groups : ∀ {name cg}, s.cgroups.find? name = some cg → ∃ g, cg.Shows g

def DbSound (db : StreamDb) : Prop := ∀ key s, db.find? key = some s → s.Sound

variable {cfg : StreamConfig} {db : StreamDb} {s : Stream} {cg : StreamCG} {own : Owners} {g : GroupView}
  {key groupname : Bytes} {now : Int} {argv : List Bytes}

lemma StreamCG.Owned.of_consumerPel (h : cg.Owned own) {c : Nat} {x} {id : Bytes} {p : Nat}
    (hx : cg.consumerHeap.find? c = some x) (hp : x.pel.find? id = some p) : own id = some (p, c) := by
  rw [h.consumerPel hx] at hp
  obtain ⟨⟨q, d⟩, hown, hd⟩ := bind_eq_some_iff.mp hp
  split at hd
  · rename_i heq
    cases hd
    rw [hown, ← heq]
  · cases hd

lemma StreamCG.Owned.hasConsumer (h : cg.Owned own) {id : Bytes} {p c : Nat} (hown : own id = some (p, c)) :
    ∃ x, cg.HasConsumer x.name c x ∧ x.pel.find? id = some p := by
  obtain ⟨x, hx⟩ := isSome_iff_exists.mp (h.owner hown)
  have hname : cg.nameOf c = some x.name := by
    rw [StreamCG.nameOf, hx]
    rfl
  refine ⟨x, ⟨h.listed.mpr hname, hx⟩, ?_⟩
  rw [h.consumerPel hx, hown, bind_some, if_pos rfl]

lemma StreamCG.Shows.consistent (h : cg.Shows g) : cg.Consistent := by
  obtain ⟨-, -, own, owned, -⟩ := h
  refine ⟨fun id => ⟨fun hid => ?_, ?_⟩, ?_, ?_⟩
  · rw [owned.pel, isSome_map] at hid
    obtain ⟨⟨p, c⟩, hown⟩ := isSome_iff_exists.mp hid
    obtain ⟨x, hx, hp⟩ := owned.hasConsumer hown
    exact ⟨x.name, c, x, hx, by rw [hp]; rfl⟩
  · rintro ⟨name, c, x, ⟨-, hx⟩, hid⟩
    obtain ⟨p, hp⟩ := isSome_iff_exists.mp hid
    rw [owned.pel, owned.of_consumerPel hx hp]
    rfl
  · intro id name name' c c' x x' ⟨hname, hx⟩ ⟨hname', hx'⟩ hid hid'
    obtain ⟨p, hp⟩ := isSome_iff_exists.mp hid
    obtain ⟨p', hp'⟩ := isSome_iff_exists.mp hid'
    have hown := owned.of_consumerPel hx hp
    rw [owned.of_consumerPel hx' hp'] at hown
    cases hown
    rw [owned.listed] at hname hname'
    exact some.inj (hname.symm.trans hname')
  · intro id p hp
    rw [owned.pel] at hp
    obtain ⟨⟨q, c⟩, hown, rfl⟩ := map_eq_some_iff.mp hp
    obtain ⟨x, hx, hid⟩ := owned.hasConsumer hown
    obtain ⟨time, count, hnack, -⟩ := owned.nack hown
    exact ⟨x.name, c, x, _, hx, hid, hnack, rfl⟩

lemma DbSound.stream (h : DbSound db) (hs : db.find? key = some s) : s.Sound := h key s hs

lemma DbSound.insert (h : DbSound db) (hs : s.Sound) : DbSound (db.insert key s) := forall_insert h hs

lemma Stream.Sound.setGroup (h : s.Sound) (shown : cg.Shows g) (name : Bytes) : (s.setGroup name cg).Sound where
  rendered := h.rendered
  groups := @fun _ _ => forall_insert (P := fun cg : StreamCG => ∃ g, cg.Shows g) (fun _ _ => h.groups)
    ⟨g, shown⟩ _ _

lemma streamNew_sound : streamNew.Sound := by
  refine ⟨fun e he => (nomatch he), fun h => ?_⟩
  cases h

lemma DbSound.getD (h : DbSound db) (key : Bytes) : ((db.find? key).getD streamNew).Sound := by
  cases hs : db.find? key with
  | none => exact streamNew_sound
  | some s => exact h.stream hs

lemma Stream.Rendered.insert (h : s.Rendered) {n : StreamNode} {k : Bytes} {lp : Listpack} (hn : n.Renders (k, lp)) :
    ∀ e ∈ (s.rax.insert k lp).entries, ∃ n : StreamNode, n.Renders e := by
  intro e he
  rw [mem_insert] at he
  rcases he with rfl | ⟨he, -⟩
  · exact ⟨n, hn⟩
  · exact h e he

lemma streamAppendItem_sound (h : s.Sound) (fields : List (Bytes × Bytes)) (useId : Option StreamID) (now : UInt64) :
    Sat OnlyFull (fun r => r.1.Sound) (streamAppendItem cfg s fields useId now) := by
  refine (streamAppendItem_spec cfg (fun _ _ h => h) fun e he => ?_).mono fun r hr => ?_
  · exact h.rendered e (List.mem_of_getLast? he)
  · split at hr
    · rw [hr]
      exact h
    · obtain ⟨s', rfl, happ⟩ := hr
      cases happ with
      | new hn => exact ⟨h.rendered.insert hn, h.groups⟩
      | old _ _ hn => exact ⟨h.rendered.insert hn, h.groups⟩

lemma streamTrimByLength_sound (h : s.Sound) (maxlen : Nat) (approx : Bool) :
    Sat OnlyFull (fun r => r.1.Sound) (streamTrimByLength s maxlen approx) := by
  obtain ⟨nodes, hnodes⟩ := exists_forall₂ h.rendered
  refine (streamTrimByLength_spec hnodes).mono fun r hr => ?_
  obtain ⟨hnodes', -, -, hgroups, -⟩ := hr
  exact ⟨forall₂_exists hnodes', fun hfind => h.groups (hgroups ▸ hfind)⟩

lemma streamDeleteItem_sound (h : s.Sound) (id : StreamID) :
    Sat OnlyFull (fun r => r.1.Sound) (streamDeleteItem s id) := by
  obtain ⟨nodes, hnodes, -⟩ := ready_start (some id) (some id) false h.rendered
  refine (streamDeleteItem_spec (fun _ _ h => h) hnodes).mono fun r hr => ?_
  cases hr with
  | missing => exact h
  | removed _ _ _ _ hremoved =>
    cases hremoved with
    | node => exact ⟨fun e he => h.rendered e (mem_erase.mp he).1, h.groups⟩
    | entry hn => exact ⟨h.rendered.insert hn, h.groups⟩

abbrev Keeps (r : CmdResult) : Prop := DbSound r.db

lemma xaddCommand_sound (h : DbSound db) : Sat OnlyFull Keeps (xaddCommand cfg db now argv) := by
  rw [xaddCommand]
  split
  · exact h
  split
  · exact h
  refine (streamAppendItem_sound (h.getD _) _ _ _).bind fun r hr => ?_
  obtain ⟨s, id⟩ := r
  cases id with
  | none => exact h.insert hr
  | some id =>
    refine Sat.bind (P := fun r => r.1.Sound) ?_ fun r hr => h.insert hr
    rw [xaddTrim]
    split
    · exact streamTrimByLength_sound hr _ _
    · exact hr

lemma xtrimCommand_sound (h : DbSound db) : Sat OnlyFull Keeps (xtrimCommand db argv) := by
  rw [xtrimCommand]
  split
  · exact h
  rename_i s hs
  split
  · exact h
  · exact h
  · exact (streamTrimByLength_sound (h.stream hs) _ _).bind fun r hr => h.insert hr

lemma xdelLoop_sound {ids} {deleted : Nat} (hs : s.Sound) :
    Sat OnlyFull (fun r => r.1.Sound) (xdelLoop ids s deleted) := by
  induction ids generalizing s deleted with
  | nil => exact hs
  | cons id ids ih => exact (streamDeleteItem_sound hs id).bind fun r hr => ih hr

lemma xdelCommand_sound (h : DbSound db) : Sat OnlyFull Keeps (xdelCommand db argv) := by
  rw [xdelCommand]
  split
  · exact h
  · rename_i s hs
    split
    · exact h
    · exact (xdelLoop_sound (h.stream hs)).bind fun r hr => h.insert hr

lemma xgroupCreate_sound (h : DbSound db) {mkstream : Bool} {key : Bytes}
    (hmk : (db.find? key).isNone → mkstream = true) :
    Sat OnlyFull Keeps (xgroupCreate db argv (db.find? key) mkstream) := by
  rw [xgroupCreate]
  split
  · exact h
  rename_i id _
  have hcond : ¬ ((db.find? key).isNone = true ∧ mkstream = false) := fun hc => by
    rw [hmk hc.1] at hc
    exact absurd hc.2 (by decide)
  have hs := h.getD key
  rw [if_neg hcond, streamCreateCG]
  split
  · rename_i s' hs'
    split at hs'
    · cases hs'
    · cases hs'
      exact h.insert (hs.setGroup (StreamCG.shows_new id) _)
  · exact h.insert hs

lemma xgroupStream_sound (h : DbSound db) (hs : s.Sound)
    (hopt : streamLookupCG s (argAt argv 3) = none →
      ¬ strcaseeq (argAt argv 1) "SETID" ∧ ¬ strcaseeq (argAt argv 1) "DELCONSUMER") :
    Sat OnlyFull Keeps (xgroupStream db now argv s (streamLookupCG s (argAt argv 3))) := by
  unfold xgroupStream
  cases hcg : streamLookupCG s (argAt argv 3) with
  | none =>
    obtain ⟨hsetid, hdel⟩ := hopt hcg
    simp only [hsetid, hdel, Bool.false_eq_true, false_and, if_false]
    split
    · exact h
    · split <;> exact h
  | some cg =>
    obtain ⟨g, shown⟩ := hs.groups hcg
    simp only
    split
    · split
      · exact h
      · exact h.insert (hs.setGroup (shown.setLast _) _)
    split
    · refine h.insert (s := { s with cgroups := _ }) ⟨hs.rendered, fun hfind => ?_⟩
      rw [find?_erase] at hfind
      split at hfind
      · cases hfind
      · exact hs.groups hfind
    · split
      · refine (shown.delConsumer _ _).total.bind fun r hr => ?_
        exact h.insert (hs.setGroup hr _)
      · split <;> exact h

lemma xgroupCommand_sound (h : DbSound db) : Sat OnlyFull Keeps (xgroupCommand db now argv) := by
  rw [xgroupCommand]
  split
  · exact h
  split
  · exact xgroupCreate_sound h fun _ => rfl
  split
  · split <;> exact h
  cases hs : db.find? (argAt argv 2) with
  | none => exact h
  | some s =>
    simp only
    split
    · exact h
    rename_i hopt
    split
    · rw [← hs]
      exact xgroupCreate_sound h fun hnone => by rw [hs] at hnone; cases hnone
    · refine xgroupStream_sound h (h.stream hs) fun hcg => ?_
      rw [hcg] at hopt
      simpa [not_or] using hopt

lemma xackLoop_sound {args} {acknowledged : Nat} (h : cg.Shows g) :
    Sat OnlyFull (fun r => ∃ g, r.1.Shows g) (xackLoop args cg acknowledged) := by
  induction args generalizing cg g acknowledged with
  | nil => exact ⟨g, h⟩
  | cons arg args ih =>
    rw [xackLoop]
    split
    · exact ⟨g, h⟩
    · exact (h.ack _).total.bind fun r hr => ih hr.1

lemma xackCommand_sound (h : DbSound db) : Sat OnlyFull Keeps (xackCommand db argv) := by
  rw [xackCommand]
  split
  · exact h
  rename_i s hs
  split
  · exact h
  rename_i cg hcg
  obtain ⟨g, shown⟩ := (h.stream hs).groups hcg
  refine (xackLoop_sound shown).bind fun r hr => ?_
  obtain ⟨g', shown'⟩ := hr
  exact h.insert ((h.stream hs).setGroup shown' _)

/-- A command left everything as it is, or it changed a group with a chain of commands; `known` is about the stream. -/
inductive Serves (known : Stream → StreamID → Prop) (db : StreamDb) : StreamDb → List (List Bytes) → Prop
  | nothing : Serves known db db []
  | group {key groupname : Bytes} {s : Stream} {cg : StreamCG} {g : GroupView} {db' : StreamDb}
    {feeds : List (List Bytes)} (hs : db.find? key = some s) (hcg : s.cgroups.find? groupname = some cg)
    (shown : cg.Shows g) (delivers : Delivers (known s) db key groupname s g db' feeds) : Serves known db db' feeds

variable {known : Stream → StreamID → Prop} {db' : StreamDb} {feeds : List (List Bytes)}

lemma Serves.sound (h : DbSound db) (hd : Serves known db db' feeds) : DbSound db' := by
  cases hd with
  | nothing => exact h
  | group hs _ _ delivers =>
    cases delivers with
    | unchanged => exact h
    | changed shown _ => exact h.insert ((h.stream hs).setGroup shown _)

lemma xclaimCommand_serves (known : Stream → StreamID → Prop) (hnow : LongLong now) (h : DbSound db)
    (finds : ∀ {key s}, db.find? key = some s → ∀ id, s.Finds id → known s id) :
    Sat NoFault (fun r => Serves known db r.db r.feeds) (xclaimCommand db now argv) := by
  rw [xclaimCommand]
  split
  · exact .nothing
  rename_i s hs
  split
  · exact .nothing
  · rename_i cg hcg
    obtain ⟨g, shown⟩ := (h.stream hs).groups hcg
    exact (xclaimGroup_spec hnow (h.stream hs).rendered (finds hs) shown).mono fun r hr => .group hs hcg shown hr

def HasGroup (db : StreamDb) (group : Option (Bytes × Bytes)) (key : Bytes) : Prop :=
  ∀ gr, group = some gr → ∃ s cg, db.find? key = some s ∧ s.cgroups.find? gr.1 = some cg

lemma Serves.hasGroup {group} (h : HasGroup db group key) (hd : Serves known db db' feeds) :
    HasGroup db' group key := by
  cases hd with
  | nothing => exact h
  | @group key' groupname s cg g db' feeds hs hcg shown delivers =>
    cases delivers with
    | unchanged => exact h
    | @changed cg' =>
      intro gr hgr
      obtain ⟨s', cg₀, hs', hcg₀⟩ := h gr hgr
      rw [find?_insert]
      split
      · rename_i heq
        rw [heq, hs] at hs'
        cases hs'
        refine ⟨_, if gr.1 = groupname then cg' else cg₀, rfl, ?_⟩
        rw [Stream.setGroup, find?_insert, hcg₀]
        split <;> rfl
      · exact ⟨s', cg₀, hs', hcg₀⟩

lemma xreadResolve_hasGroup {xreadgroup : Bool} {group args ids} (h : xreadResolve db xreadgroup group args = .ok ids) :
    ∀ arg ∈ ids, HasGroup db group arg.1 := by
  induction args generalizing ids with
  | nil =>
    cases h
    exact fun _ h => (nomatch h)
  | cons arg args ih =>
    obtain ⟨key, arg⟩ := arg
    rw [xreadResolve] at h
    split at h
    · cases h
    rename_i hnone
    have first : HasGroup db group key := by
      intro gr hgr
      rw [hgr] at hnone
      simp only [any_some, isNone_iff_eq_none] at hnone
      obtain ⟨cg, hcg⟩ := ne_none_iff_exists'.mp hnone
      obtain ⟨s, hs, hcg⟩ := bind_eq_some_iff.mp hcg
      exact ⟨s, cg, hs, hcg⟩
    -- Each of the three forms of an ID adds the key with some ID.
    have step : ∀ {id}, (xreadResolve db xreadgroup group args >>= fun ids => .ok ((key, id) :: ids)) = .ok ids →
        ∀ arg ∈ ids, HasGroup db group arg.1 := by
      intro id h
      obtain ⟨ids', hids', ⟨⟩⟩ := bind_eq_ok.mp h
      exact List.forall_mem_cons.mpr ⟨first, ih hids'⟩
    split at h
    · split at h
      · cases h
      · exact step h
    split at h
    · split at h
      · exact step h
      · cases h
    · split at h
      · cases h
      · exact step h

lemma xreadStream_serves {opts st arg}
    (known : Stream → StreamID → Prop) (hnow : LongLong now) (h : DbSound st.db)
    (reads : ∀ {key s}, st.db.find? key = some s → s.Reads (known s)) (hgroup : HasGroup st.db opts.group arg.1) :
    Sat NoFault (fun st' => ∃ feeds, st'.propagated = st.propagated ++ feeds ∧ Serves known st.db st'.db feeds)
      (xreadStream opts now st arg) := by
  obtain ⟨key, gt⟩ := arg
  simp only [xreadStream]
  split
  · exact ⟨[], (List.append_nil _).symm, .nothing⟩
  rename_i s hs
  split
  · rename_i groupname consumername hgr
    obtain ⟨s', cg, hs', hcg⟩ := hgroup _ hgr
    rw [hs] at hs'
    cases hs'
    obtain ⟨g, shown⟩ := (h.stream hs).groups hcg
    refine (xreadGroupStream_spec hnow (h.stream hs).rendered (reads hs) hcg shown consumername key gt).mono
      fun st' hst' => ?_
    obtain ⟨feeds, hfeeds, delivers⟩ := hst'
    exact ⟨feeds, hfeeds, .group hs hcg shown delivers⟩
  split
  · obtain ⟨r, hr⟩ := (h.stream hs).rendered.replyRaw (some ⟨gt.ms, gt.seq + 1⟩) none opts.count false
    rw [hr]
    exact ⟨[], (List.append_nil _).symm, .nothing⟩
  · exact ⟨[], (List.append_nil _).symm, .nothing⟩

lemma xclaimCommand_sound (hnow : LongLong now) (h : DbSound db) :
    Sat OnlyFull Keeps (xclaimCommand db now argv) := by
  exact (xclaimCommand_serves (fun _ _ => True) hnow h fun _ _ _ => trivial).total.mono fun r hr => hr.sound h

lemma xreadCommand_sound (hnow : LongLong now) (h : DbSound db) :
    Sat OnlyFull Keeps (xreadCommand db now argv) := by
  rw [xreadCommand]
  simp only
  split
  · exact h
  rename_i opts streams _
  split
  · exact h
  split
  · exact h
  rename_i ids hids
  have hgroup := xreadResolve_hasGroup hids
  -- The groups that were checked at the start are still there at each turn.
  refine Sat.bind (P := fun st : ReadState => DbSound st.db ∧ ∀ arg ∈ ids, HasGroup st.db opts.group arg.1)
    (Sat.foldlM (fun st arg harg hst => ?_) ⟨h, hgroup⟩) fun st hst => sat_ok.mpr hst.1
  obtain ⟨hst, hgr⟩ := hst
  refine (xreadStream_serves (fun _ _ => True) hnow hst (fun hs => (hst.stream hs).rendered.reads)
    (hgr arg harg)).total.mono fun st' hst' => ?_
  obtain ⟨feeds, -, serves⟩ := hst'
  exact ⟨serves.sound hst, fun arg harg => serves.hasGroup (hgr arg harg)⟩

def streamCommandStep (cfg : StreamConfig) (db : StreamDb) (call : Int64 × List Bytes) :
    Except Fault (StreamDb × Reply) := do
  let r ← processStreamCommand cfg db call.1.toInt call.2
  .ok (r.db, r.reply)

/-- The commands other than `XSETID`, which no group takes part in. -/
def GroupCommand (argv : List Bytes) : Prop := lookupCommand (argAt argv 0) ≠ some .xsetid

instance (argv : List Bytes) : Decidable (GroupCommand argv) := inferInstanceAs (Decidable (_ ≠ _))

lemma processStreamCommand_sound (hnow : LongLong now) (h : DbSound db) (hcmd : GroupCommand argv) :
    Sat OnlyFull Keeps (processStreamCommand cfg db now argv) := by
  rw [processStreamCommand]
  split
  · exact h
  rename_i cmd hlookup
  split
  · cases cmd with
    | xadd => exact xaddCommand_sound h
    | xdel => exact xdelCommand_sound h
    | xtrim => exact xtrimCommand_sound h
    | xgroup => exact xgroupCommand_sound h
    | xsetid => exact absurd hlookup hcmd
    | xack => exact xackCommand_sound h
    | xclaim => exact xclaimCommand_sound hnow h
    | xread | xreadgroup => exact xreadCommand_sound hnow h
  · exact h

/-- Along every run the lists of every group are consistent, and the run ends with no panic. -/
theorem pending_lists_consistent (cfg : StreamConfig) (calls : List (Int64 × List Bytes))
    (hcalls : ∀ call ∈ calls, GroupCommand call.2) :
    Sat OnlyFull (fun r => ∀ key s groupname cg, r.1.find? key = some s → s.cgroups.find? groupname = some cg →
      cg.Consistent) (exec (streamCommandStep cfg) .empty calls) := by
  have empty : DbSound .empty := fun _ _ h => (nomatch h)
  have run : Sat OnlyFull (fun r => DbSound r.1) (exec (streamCommandStep cfg) .empty calls) := by
    refine exec_invariant (C := fun _ call => GroupCommand call.2) (fun db call h hcmd => ?_) empty
      (guarded_of_forall fun call hcall _ => hcalls call hcall)
    exact (processStreamCommand_sound (longLong_toInt _) h hcmd).bind fun r hr => hr
  refine run.mono fun r hr key s groupname cg hs hcg => ?_
  obtain ⟨g, shown⟩ := (hr.stream hs).groups hcg
  exact shown.consistent

/-- Two reads by different consumers with `SETID` between them, and a claim. -/
def sampleCalls : List (Int64 × List Bytes) :=
  [(1, [ascii "XADD", ascii "s", ascii "1-1", ascii "a", ascii "1"]),
    (2, [ascii "XADD", ascii "s", ascii "1-2", ascii "a", ascii "2"]),
    (3, [ascii "XGROUP", ascii "CREATE", ascii "s", ascii "g", ascii "0"]),
    (4, [ascii "XREADGROUP", ascii "GROUP", ascii "g", ascii "c", ascii "STREAMS", ascii "s", ascii ">"]),
    (5, [ascii "XGROUP", ascii "SETID", ascii "s", ascii "g", ascii "1-1"]),
    (6, [ascii "XREADGROUP", ascii "GROUP", ascii "g", ascii "d", ascii "STREAMS", ascii "s", ascii ">"]),
    (7, [ascii "XCLAIM", ascii "s", ascii "g", ascii "e", ascii "0", ascii "1-1", ascii "FORCE"])]

/-- The pending IDs of a group with their owners. -/
def pendingOwners (db : StreamDb) (key groupname : Bytes) : List (Bytes × Option Bytes) :=
  match (db.find? key).bind fun s => s.cgroups.find? groupname with
  | some cg => cg.pel.entries.map fun e => (streamIDText (streamDecodeID e.1), cg.pendingOwner e.1)
  | none => []

theorem pending_lists_consistent_sample :
    (∀ call ∈ sampleCalls, GroupCommand call.2) ∧
    (exec (streamCommandStep ⟨4096, 100⟩) .empty sampleCalls).map (fun r => pendingOwners r.1 (ascii "s") (ascii "g")) =
      .ok [(ascii "1-1", some (ascii "e")), (ascii "1-2", some (ascii "d"))] ∧
    Sat OnlyFull (fun r => ∀ key s groupname cg, r.1.find? key = some s → s.cgroups.find? groupname = some cg →
      cg.Consistent) (exec (streamCommandStep ⟨4096, 100⟩) .empty sampleCalls) :=
  ⟨by decide +kernel, by decide +kernel, pending_lists_consistent ⟨4096, 100⟩ sampleCalls (by decide +kernel)⟩

end JitRedis
