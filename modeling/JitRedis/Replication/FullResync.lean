import JitRedis.Replication.Master

/-!
# Snapshot and stream of a full resynchronization

A replica that is sent the snapshot forked at an offset has to be told this offset, and to be queued exactly the stream
that follows it, beginning with a `SELECT`. The invariant ties every replica to the child it waits for or to the
snapshot it got. One kind of event breaks it: a `FLUSHALL` that saves the dataset after the child has ended and before
the server has noticed replaces the file that the waiting replicas are about to be sent.
-/

namespace JitRedis.Replication

open Runs List Option

variable {m m' : Master} {sl : Slave} {o : Nat} {item : Item} {stream : List Item}

/-! ### The stream from an offset on -/

/-- The replicas and the backlog are fed, byte for byte, what the append only file would have for the same command. -/
theorem replicationFeedSlaves_texts (dictid : Int) (argv : Argv) :
    selectcmd dictid = commandText [ascii "SELECT", ll2string dictid] ∧
      slaveText argv.objs = commandText (argv.objs.map StringObject.text) ∧
      (backlogPieces argv.objs).flatten = commandText (argv.objs.map StringObject.text) := by
  have := argv.length_lt
  exact ⟨selectcmd_eq, slaveText_eq (by omega) argv.valid, backlogPieces_flatten argv.valid⟩

lemma streamText_append (l l' : List Item) : streamText (l ++ l') = streamText l ++ streamText l' :=
  flatMap_append ..

lemma streamText_snoc : streamText (stream ++ [item]) = streamText stream ++ item.text := by
  rw [streamText_append, streamText, streamText, flatMap_singleton]

/-- What the master feeds on its own account, in no database. -/
def Item.Keepalive (item : Item) : Prop := item = .command pingArgv ∨ item = .command getackArgv

/-- The stream selects a database after the offset, before any command but keepalives. -/
def Selected (stream : List Item) (o : Nat) : Prop :=
  ∃ pre keep dictid rest, stream = pre ++ keep ++ .select dictid :: rest ∧ (streamText pre).length = o ∧
    ∀ item ∈ keep, item.Keepalive

/-- The stream has nothing but keepalives after the offset. -/
def Unselected (stream : List Item) (o : Nat) : Prop :=
  ∃ pre keep, stream = pre ++ keep ∧ (streamText pre).length = o ∧ ∀ item ∈ keep, item.Keepalive

/-- The first command after the offset, keepalives apart, is or will be a `SELECT`. -/
def Selects (m : Master) (o : Nat) : Prop := Selected m.stream o ∨ Unselected m.stream o ∧ m.slaveseldb = -1

lemma Selected.snoc (h : Selected stream o) (item : Item) : Selected (stream ++ [item]) o := by
  obtain ⟨pre, keep, dictid, rest, rfl, hlen, hkeep⟩ := h
  exact ⟨pre, keep, dictid, rest ++ [item], by rw [append_assoc, cons_append], hlen, hkeep⟩

lemma Unselected.end (stream : List Item) : Unselected stream (streamText stream).length :=
  ⟨stream, [], (append_nil _).symm, rfl, forall_mem_nil _⟩

lemma Unselected.snoc (h : Unselected stream o) (hitem : item.Keepalive) : Unselected (stream ++ [item]) o := by
  obtain ⟨pre, keep, rfl, hlen, hkeep⟩ := h
  exact ⟨pre, keep ++ [item], append_assoc .., hlen, forall_mem_append.mpr ⟨hkeep, forall_mem_singleton.mpr hitem⟩⟩

lemma Selects.snoc_select (h : Selects m o) (dictid : Int) : Selected (m.stream ++ [.select dictid]) o := by
  rcases h with h | ⟨⟨pre, keep, hstream, hlen, hkeep⟩, -⟩
  · exact h.snoc _
  · exact ⟨pre, keep, dictid, [], by rw [hstream], hlen, hkeep⟩

lemma Selects.snoc (h : Selects m o) (hitem : m.slaveseldb = -1 → item.Keepalive)
    (hstream : m'.stream = m.stream ++ [item]) (hdb : m'.slaveseldb = m.slaveseldb) : Selects m' o := by
  rw [Selects, hstream, hdb]
  rcases h with h | ⟨h, hseldb⟩
  · exact .inl (h.snoc item)
  · exact .inr ⟨h.snoc (hitem hseldb), hseldb⟩

/-! ### The invariant -/

/-- The replica is queued the stream that follows the offset, and was told the offset. -/
structure Slave.Follows (m : Master) (sl : Slave) (o : Nat) : Prop where
  le : o ≤ (streamText m.stream).length
  told : sl.closeAsap = false → sl.prePsync = false → sl.told.map Prod.snd = some o
  out : sl.out = (streamText m.stream).drop o
  selects : Selects m o

/-- A child that has saved the dataset to the file has its snapshot there. -/
def Child.Filed (ch : Child) (file : Option Snapshot) : Prop :=
  ch.type = .disk → ch.exited = some true → file = some (.forked ch.offset)

/-- A replica that waits for the end of the child. -/
structure Slave.Joined (m : Master) (sl : Slave) (ch : Child) : Prop where
  child : m.rdbChild = some ch
  initial : sl.psyncInitialOffset = ch.offset
  follows : sl.Follows m ch.offset
  filed : ch.Filed m.rdbFile

/-- A replica that has got its snapshot, or resumed an earlier stream. -/
structure Slave.Attached (m : Master) (sl : Slave) : Prop where
  sent : sl.resumed = none → ∃ o, sl.snapshot = some (.forked o) ∧ sl.Follows m o
  resumed : sl.closeAsap = false → ∀ o, sl.resumed = some o →
    o ≤ (streamText m.stream).length ∧ sl.out = (streamText m.stream).drop o

/-- What holds of a replica in each of its states. -/
inductive Slave.Ok (m : Master) (sl : Slave) : Prop
  | starting (state : sl.replstate = .waitBgsaveStart) (out : sl.out = []) (resumed : sl.resumed = none)
  | ending (state : sl.replstate = .waitBgsaveEnd) (resumed : sl.resumed = none) {ch : Child} (joined : sl.Joined m ch)
  | attached (state : sl.replstate = .sendBulk ∨ sl.replstate = .online) (attached : sl.Attached m)

/-- The backlog has the last bytes of a text. -/
structure Backlog.Keeps (backlog : Backlog) (text : Bytes) : Prop where
  off : backlog.off + backlog.ring.histlen = text.length + 1
  ring : ∃ n ≤ text.length, backlog.ring.Keeps (text.drop n)

structure Inv (m : Master) : Prop where
  offset : m.masterReplOffset = (streamText m.stream).length
  size : 0 < m.replBacklogSize
  backlog : ∀ {backlog}, m.replBacklog = some backlog → backlog.Keeps (streamText m.stream)
  attached : m.slaves ≠ [] → m.replBacklog ≠ none
  slaves : ∀ sl ∈ m.slaves, sl.Ok m

/-! ### Feeding the stream -/

lemma Slave.Follows.snoc (h : sl.Follows m o) (hstream : m'.stream = m.stream ++ [item]) (selects : Selects m' o) :
    { sl with out := sl.out ++ item.text }.Follows m' o where
  le := by
    rw [hstream, streamText_snoc, length_append]
    exact h.le.trans (Nat.le_add_right ..)
  told := h.told
  out := by rw [hstream, streamText_snoc, drop_append_of_le_length h.le, h.out]
  selects := selects

lemma Slave.Ok.feed (h : sl.Ok m) (hstream : m'.stream = m.stream ++ [item]) (hchild : m'.rdbChild = m.rdbChild)
    (hfile : m'.rdbFile = m.rdbFile) (selects : ∀ {o}, Selects m o → Selects m' o) : (sl.feed item.text).Ok m' := by
  cases h with
  | starting state out resumed =>
    rw [Slave.feed, if_pos state]
    exact .starting state out resumed
  | ending state resumed joined =>
    rw [Slave.feed, if_neg (by rw [state]; nofun)]
    refine .ending state resumed ⟨hchild.trans joined.child, joined.initial, ?_, hfile ▸ joined.filed⟩
    exact joined.follows.snoc hstream (selects joined.follows.selects)
  | attached state attached =>
    rw [Slave.feed, if_neg (by rcases state with h | h <;> rw [h] <;> nofun)]
    refine .attached state ⟨fun hnone => ?_, fun hopen o ho => ?_⟩
    · obtain ⟨o, hsnap, follows⟩ := attached.sent hnone
      exact ⟨o, hsnap, follows.snoc hstream (selects follows.selects)⟩
    · obtain ⟨hle, hout⟩ := attached.resumed hopen o ho
      rw [hstream, streamText_snoc, length_append, drop_append_of_le_length hle, hout]
      exact ⟨hle.trans (Nat.le_add_right ..), rfl⟩

variable {backlog : Backlog} {dictid : Int}

lemma Backlog.Keeps.feed {text} (h : backlog.Keeps text)
    (hsome : m.replBacklog = some backlog) (hoff : m.masterReplOffset = text.length) (data : Bytes) :
    ∃ backlog', feedReplicationBacklog m data =
        .ok { m with masterReplOffset := (text ++ data).length, replBacklog := some backlog' } ∧
      backlog'.Keeps (text ++ data) ∧ backlog'.ring.size = backlog.ring.size := by
  obtain ⟨n, hn, keeps⟩ := h.ring
  obtain ⟨ring, hring, keeps', hsize⟩ := keeps.write data
  rw [← drop_append_of_le_length hn] at keeps'
  have hhist := keeps'.histlen
  rw [length_drop, length_append] at hhist
  refine ⟨⟨ring, (text ++ data).length - ring.histlen + 1⟩, ?_, ⟨?_, n, ?_, keeps'⟩, hsize⟩
  · rw [feedReplicationBacklog, hsome]
    dsimp only
    rw [hring, hoff, length_append]
  · rw [length_append]
    dsimp only
    omega
  · rw [length_append]
    exact hn.trans (Nat.le_add_right ..)

lemma Backlog.Keeps.feedPieces {text} (h : backlog.Keeps text)
    (hsome : m.replBacklog = some backlog) (hoff : m.masterReplOffset = text.length) (pieces : List Bytes) :
    ∃ backlog', pieces.foldlM feedReplicationBacklog m =
        .ok { m with masterReplOffset := (text ++ pieces.flatten).length, replBacklog := some backlog' } ∧
      backlog'.Keeps (text ++ pieces.flatten) := by
  induction pieces generalizing m backlog text with
  | nil =>
    refine ⟨backlog, ?_, by rwa [flatten_nil, append_nil]⟩
    rw [flatten_nil, append_nil, ← hoff, ← hsome]
    rfl
  | cons data pieces ih =>
    obtain ⟨backlog₁, hfed, keeps, -⟩ := h.feed hsome hoff data
    obtain ⟨backlog', hrest, keeps'⟩ := ih keeps (m := { m with
      masterReplOffset := (text ++ data).length, replBacklog := some backlog₁ }) rfl rfl
    rw [append_assoc, ← flatten_cons] at keeps' hrest
    refine ⟨backlog', ?_, keeps'⟩
    rw [foldlM_cons, hfed]
    exact hrest

/-- Feed an item that is encoded rightly, before another database counts as the selected one. -/
lemma Inv.feed {pieces text} (inv : Inv m) (hsome : m.replBacklog ≠ none)
    (item : Item) (hpieces : pieces.flatten = item.text) (htext : text = item.text)
    (selects : ∀ {m' o}, m'.stream = m.stream ++ [item] → m'.slaveseldb = dictid → Selects m o → Selects m' o) :
    ∃ m', Replication.feed m pieces text item = .ok m' ∧ Inv { m' with slaveseldb := dictid } ∧
      m'.slaveseldb = m.slaveseldb ∧ m'.replBacklog ≠ none := by
  obtain ⟨backlog, hbacklog⟩ := ne_none_iff_exists'.mp hsome
  obtain ⟨backlog', hfed, keeps⟩ := (inv.backlog hbacklog).feedPieces hbacklog inv.offset pieces
  rw [hpieces, ← streamText_snoc] at keeps hfed
  let m' : Master :=
    { m with
      masterReplOffset := (streamText (m.stream ++ [item])).length
      replBacklog := some backlog'
      slaves := m.slaves.map (Slave.feed text)
      stream := m.stream ++ [item] }
  have hfeed : Replication.feed m pieces text item = .ok m' := by
    rw [Replication.feed, hfed]
    rfl
  refine ⟨m', hfeed, ⟨rfl, inv.size, ?_, fun _ => nofun, ?_⟩, rfl, nofun⟩
  · rintro backlog ⟨⟩
    exact keeps
  · intro sl hsl
    obtain ⟨sl, hmem, rfl⟩ := mem_map.mp hsl
    rw [htext]
    exact (inv.slaves sl hmem).feed rfl rfl rfl (selects rfl rfl)

lemma Inv.feedSelect (inv : Inv m) (hsome : m.replBacklog ≠ none) (dictid : Int) :
    ∃ m', feedSelect m dictid = .ok m' ∧ Inv { m' with slaveseldb := dictid } ∧ m'.replBacklog ≠ none := by
  rw [Replication.feedSelect]
  split
  case isTrue =>
    have hpieces : [selectcmd dictid].flatten = (Item.select dictid).text := flatten_singleton
    obtain ⟨m', hfed, inv', -, hsome'⟩ := inv.feed hsome (.select dictid) hpieces rfl
      fun hstream _ h => .inl (hstream ▸ h.snoc_select dictid)
    exact ⟨m', hfed, inv', hsome'⟩
  case isFalse hsame =>
    rw [not_not] at hsame
    subst hsame
    exact ⟨m, rfl, inv, hsome⟩

lemma Inv.replicationFeedSlaves {argv} (inv : Inv m)
    (hdb : dictid = -1 → (Item.command argv).Keepalive) :
    ∃ m', replicationFeedSlaves m dictid argv = .ok m' ∧ Inv m' := by
  rw [Replication.replicationFeedSlaves]
  split
  case isTrue hnone =>
    rw [isNone_iff_eq_none] at hnone
    have hslaves : m.slaves = [] := by
      by_contra hslaves
      exact inv.attached hslaves hnone
    rw [hslaves]
    exact ⟨m, rfl, inv⟩
  case isFalse hsome =>
    rw [isNone_iff_eq_none] at hsome
    obtain ⟨m₁, hfed, inv₁, hsome₁⟩ := inv.feedSelect hsome dictid
    have hlen : argv.objs.length < 2 ^ 63 := argv.length_lt.trans (by norm_num)
    obtain ⟨m₂, hfed₂, inv₂, hseldb, -⟩ := inv₁.feed hsome₁ (.command argv) (backlogPieces_flatten argv.valid)
      (slaveText_eq hlen argv.valid) fun hstream hdb' h => h.snoc hdb hstream hdb'
    rw [← hseldb] at inv₂
    refine ⟨m₂, ?_, inv₂⟩
    rw [Fallible.bind_eq_ok]
    exact ⟨m₁, hfed, hfed₂⟩

/-! ### Steps that do not feed -/

/-- The stream is the same, and a `SELECT` may be asked for. -/
structure SameStream (m m' : Master) : Prop where
  stream : m'.stream = m.stream
  seldb : m'.slaveseldb = m.slaveseldb ∨ m'.slaveseldb = -1

lemma SameStream.selects (same : SameStream m m') (h : Selects m o) : Selects m' o := by
  rw [Selects, same.stream]
  rcases h with h | ⟨h, hseldb⟩
  · exact .inl h
  · refine .inr ⟨h, ?_⟩
    rcases same.seldb with hdb | hdb
    · rw [hdb, hseldb]
    · exact hdb

lemma Slave.Follows.same (h : sl.Follows m o) (same : SameStream m m') : sl.Follows m' o where
  le := same.stream ▸ h.le
  told := h.told
  out := same.stream ▸ h.out
  selects := same.selects h.selects

lemma Slave.Attached.same (h : sl.Attached m) (same : SameStream m m') : sl.Attached m' where
  sent hnone := by
    obtain ⟨o, hsnap, follows⟩ := h.sent hnone
    exact ⟨o, hsnap, follows.same same⟩
  resumed := same.stream ▸ h.resumed

/-- The child is still there, and has its snapshot in the file if it has ended. -/
def SameChild (m m' : Master) : Prop :=
  ∀ {ch}, m.rdbChild = some ch → ch.Filed m.rdbFile →
    ∃ ch', m'.rdbChild = some ch' ∧ ch'.offset = ch.offset ∧ ch'.Filed m'.rdbFile

lemma Slave.Ok.same (h : sl.Ok m) (same : SameStream m m') (child : sl.replstate = .waitBgsaveEnd → SameChild m m') :
    sl.Ok m' := by
  cases h with
  | starting state out resumed => exact .starting state out resumed
  | ending state resumed joined =>
    obtain ⟨ch', hchild, hoffset, filed⟩ := child state joined.child joined.filed
    exact .ending state resumed ⟨hchild, hoffset ▸ joined.initial, hoffset ▸ joined.follows.same same, filed⟩
  | attached state attached => exact .attached state (attached.same same)

lemma Slave.Ok.joined (h : sl.Ok m) (hstate : sl.replstate = .waitBgsaveEnd) :
    sl.resumed = none ∧ ∃ ch, sl.Joined m ch := by
  cases h with
  | starting state => cases state.symm.trans hstate
  | ending state resumed joined => exact ⟨resumed, _, joined⟩
  | attached state => rcases state with state | state <;> cases state.symm.trans hstate

lemma Inv.not_ending (inv : Inv m) (hchild : m.rdbChild = none) (hsl : sl ∈ m.slaves) :
    sl.replstate ≠ .waitBgsaveEnd := by
  intro hstate
  obtain ⟨-, ch, joined⟩ := (inv.slaves sl hsl).joined hstate
  cases hchild.symm.trans joined.child

lemma Inv.update (inv : Inv m) (same : SameStream m m') (hoffset : m'.masterReplOffset = m.masterReplOffset)
    (hsize : m'.replBacklogSize = m.replBacklogSize) (hbacklog : m'.replBacklog = m.replBacklog)
    (attached : m'.slaves ≠ [] → m.replBacklog ≠ none) (slaves : ∀ sl ∈ m'.slaves, sl.Ok m') : Inv m' where
  offset := by rw [hoffset, same.stream, inv.offset]
  size := hsize ▸ inv.size
  backlog h := by
    rw [hbacklog] at h
    exact same.stream ▸ inv.backlog h
  attached := hbacklog ▸ attached
  slaves := slaves

lemma Inv.filter (inv : Inv m) (p : Slave → Bool) (same : SameStream m m') (hchild : SameChild m m')
    (hoffset : m'.masterReplOffset = m.masterReplOffset) (hsize : m'.replBacklogSize = m.replBacklogSize)
    (hbacklog : m'.replBacklog = m.replBacklog) (hslaves : m'.slaves = m.slaves.filter p) : Inv m' := by
  refine inv.update same hoffset hsize hbacklog ?_ ?_
  · intro hne
    refine inv.attached fun hnil => hne ?_
    rw [hslaves, hnil, filter_nil]
  · intro sl hsl
    rw [hslaves] at hsl
    exact (inv.slaves sl (mem_of_mem_filter hsl)).same same fun _ => hchild

lemma Inv.same (inv : Inv m) (same : SameStream m m') (hchild : SameChild m m')
    (hoffset : m'.masterReplOffset = m.masterReplOffset) (hsize : m'.replBacklogSize = m.replBacklogSize)
    (hbacklog : m'.replBacklog = m.replBacklog) (hslaves : m'.slaves = m.slaves) : Inv m' :=
  inv.update same hoffset hsize hbacklog (hslaves ▸ inv.attached) fun sl hsl =>
    (inv.slaves sl (hslaves ▸ hsl)).same same fun _ => hchild

lemma SameChild.refl (hchild : m'.rdbChild = m.rdbChild) (hfile : m'.rdbFile = m.rdbFile) : SameChild m m' :=
  fun {ch} h filed => ⟨ch, hchild.trans h, rfl, hfile ▸ filed⟩

/-! ### Starting a child -/

lemma Slave.Ok.of_waiting (h : sl.Ok m) (hwaiting : sl.waiting = true) : sl.out = [] ∧ sl.resumed = none := by
  have hstate : sl.replstate = .waitBgsaveStart := of_decide_eq_true hwaiting
  cases h with
  | starting state out resumed => exact ⟨out, resumed⟩
  | ending state => cases state.symm.trans hstate
  | attached state => rcases state with state | state <;> cases state.symm.trans hstate

lemma Slave.setupForFullResync_follows {replid writeOk} (hle : o ≤ (streamText m.stream).length)
    (hout : sl.out = (streamText m.stream).drop o) (selects : Selects m o) :
    (sl.setupForFullResync replid o writeOk).Follows m o where
  le := hle
  told hopen hpsync := by
    have hpsync : sl.prePsync = false := hpsync
    have hwrite : writeOk = true := by
      rw [setupForFullResync, Bool.or_eq_false_iff, hpsync] at hopen
      simpa using hopen.2
    rw [setupForFullResync, hpsync, hwrite]
    rfl
  out := hout
  selects := selects

lemma Inv.setupWaitingSlaves (inv : Inv m) (hchild : m.rdbChild = none) (hsome : m.replBacklog ≠ none)
    (writeOk : Nat → Bool) (type : ChildType) :
    Inv { setupWaitingSlaves m writeOk with rdbChild := some ⟨type, m.masterReplOffset, none⟩ } := by
  have same : SameStream m
      { Replication.setupWaitingSlaves m writeOk with rdbChild := some ⟨type, m.masterReplOffset, none⟩ } :=
    ⟨rfl, by rw [Replication.setupWaitingSlaves]; dsimp only; split; exacts [.inr rfl, .inl rfl]⟩
  refine inv.update same rfl rfl rfl (fun _ => hsome) fun sl hsl => ?_
  obtain ⟨sl, hmem, rfl⟩ := mem_map.mp hsl
  split
  case isTrue hwaiting =>
    obtain ⟨hout, hresumed⟩ := (inv.slaves sl hmem).of_waiting hwaiting
    refine .ending rfl hresumed ⟨rfl, rfl, Slave.setupForFullResync_follows inv.offset.le ?_ ?_, nofun⟩
    · rw [hout, inv.offset]
      exact drop_length.symm
    · refine .inr ⟨inv.offset ▸ Unselected.end m.stream, ?_⟩
      exact if_pos (any_eq_true.mpr ⟨sl, hmem, hwaiting⟩)
  case isFalse hwaiting =>
    exact (inv.slaves sl hmem).same same fun hstate => absurd hstate (inv.not_ending hchild hmem)

lemma Inv.dropWaitingSlaves (inv : Inv m) (hdb : dictid = m.slaveseldb ∨ dictid = -1) :
    Inv { dropWaitingSlaves m with slaveseldb := dictid } :=
  inv.filter _ ⟨rfl, hdb⟩ (SameChild.refl rfl rfl) rfl rfl rfl rfl

lemma Inv.startBgsaveForReplication (inv : Inv m) (capa : Capa) (fk : Fork) :
    Inv (startBgsaveForReplication m capa fk) := by
  have dropped : Inv (Replication.dropWaitingSlaves m) := inv.dropWaitingSlaves (.inl rfl)
  rw [Replication.startBgsaveForReplication]
  split
  case isTrue => exact dropped
  case isFalse hstart =>
    obtain ⟨⟨hsome, -⟩, hchild⟩ : (m.replBacklog ≠ none ∧ m.aofChild = false) ∧ m.rdbChild = none := by
      simpa using hstart
    have started (type : ChildType) := inv.setupWaitingSlaves hchild hsome fk.writeOk type
    split_ifs
    · exact dropped
    · exact started .socket
    · apply inv.dropWaitingSlaves
      rw [Replication.setupWaitingSlaves]
      split
      exacts [.inr rfl, .inl rfl]
    · exact started .disk
    · exact dropped

/-! ### Attaching a replica -/

lemma Backlog.Keeps.create {size} (hsize : 0 < size) (text : Bytes) :
    (createReplicationBacklog size text.length).Keeps text where
  off := rfl
  ring := by
    refine ⟨text.length, le_rfl, ?_⟩
    have hlen : (List.replicate size (0 : UInt8)).length = size := length_replicate
    have keeps := RingBuffer.Keeps.new (hlen.symm ▸ hsize)
    rw [hlen] at keeps
    rw [drop_length]
    exact keeps

lemma Inv.ensureBacklog (inv : Inv m) :
    Inv (ensureBacklog m) ∧ (ensureBacklog m).replBacklog ≠ none := by
  rw [Replication.ensureBacklog]
  split
  case isTrue hempty =>
    obtain ⟨hslaves, -⟩ : m.slaves = [] ∧ m.replBacklog = none := by simpa using hempty
    refine ⟨⟨inv.offset, inv.size, ?_, fun _ => nofun, ?_⟩, nofun⟩
    · rintro backlog ⟨⟩
      rw [inv.offset]
      exact .create inv.size _
    · rw [hslaves]
      exact forall_mem_nil _
  case isFalse hsome =>
    refine ⟨inv, fun hnone => hsome ?_⟩
    by_cases hslaves : m.slaves = []
    · rw [hslaves, hnone]
      rfl
    · exact absurd hnone (inv.attached hslaves)

lemma Inv.snoc (inv : Inv m) (hsome : m.replBacklog ≠ none)
    (hdb : dictid = m.slaveseldb ∨ dictid = -1) (ok : sl.Ok { m with slaves := m.slaves ++ [sl], slaveseldb := dictid }) :
    Inv { m with slaves := m.slaves ++ [sl], slaveseldb := dictid } := by
  refine inv.update ⟨rfl, hdb⟩ rfl rfl rfl (fun _ => hsome) ?_
  refine forall_mem_append.mpr ⟨fun other hother => ?_, forall_mem_singleton.mpr ok⟩
  exact (inv.slaves other hother).same ⟨rfl, hdb⟩ fun _ => SameChild.refl rfl rfl

lemma Inv.join (inv : Inv m) (hsome : m.replBacklog ≠ none) {other : Slave} {req : SyncRequest} {writeOk : Bool}
    (hother : other ∈ m.slaves) (hstate : other.replstate = .waitBgsaveEnd) :
    Inv { m with
      slaves := m.slaves ++
        [{ req.slave with out := other.out }.setupForFullResync m.replid other.psyncInitialOffset writeOk]
      slaveseldb := -1 } := by
  obtain ⟨-, ch, joined⟩ := (inv.slaves other hother).joined hstate
  refine inv.snoc hsome (.inr rfl) (.ending rfl rfl ⟨joined.child, joined.initial, ?_, joined.filed⟩)
  rw [joined.initial]
  refine Slave.setupForFullResync_follows joined.follows.le joined.follows.out ?_
  exact joined.follows.selects.imp_right fun h => ⟨h.1, rfl⟩

lemma joinable_mem {capa} (h : joinable m capa = some sl) :
    sl ∈ m.slaves ∧ sl.replstate = .waitBgsaveEnd := by
  obtain ⟨hfind, -⟩ := filter_eq_some_iff.mp h
  refine ⟨mem_of_find?_eq_some hfind, ?_⟩
  have hstate := find?_some hfind
  exact of_decide_eq_true hstate

lemma Inv.fullResync (inv : Inv m) (req : SyncRequest) (fk : Fork) : Inv (Replication.fullResync m req fk) := by
  obtain ⟨inv, hsome⟩ := inv.ensureBacklog
  rw [Replication.fullResync]
  generalize Replication.ensureBacklog m = m at inv hsome ⊢
  have waits : Inv { m with slaves := m.slaves ++ [req.slave] } := inv.snoc hsome (.inl rfl) (.starting rfl rfl rfl)
  split
  · split
    · rename_i other hjoin
      obtain ⟨hother, hstate⟩ := joinable_mem hjoin
      exact inv.join hsome hother hstate
    · exact waits
  · exact waits
  · split_ifs
    · exact waits
    · exact waits
    · exact waits.startBgsaveForReplication req.capa fk

lemma Backlog.Keeps.off_pos {text} (h : backlog.Keeps text) : 0 < backlog.off := by
  obtain ⟨n, hn, keeps⟩ := h.ring
  have hoff := h.off
  have hhist := keeps.histlen
  rw [length_drop] at hhist
  omega

lemma Backlog.Keeps.read {text} (h : backlog.Keeps text) {skip}
    (hskip : skip ≤ backlog.ring.histlen) :
    backlog.ring.read skip = some (text.drop (backlog.off - 1 + skip)) := by
  obtain ⟨n, hn, keeps⟩ := h.ring
  have hoff := h.off
  have hhist := keeps.histlen
  rw [length_drop] at hhist
  rw [keeps.read hskip, drop_drop, length_drop]
  congr 2
  omega

lemma Backlog.Keeps.addReply {text} (h : backlog.Keeps text) {offset}
    (hle : backlog.off ≤ offset) (hend : offset ≤ backlog.off + backlog.ring.histlen) :
    addReplyReplicationBacklog backlog offset = .ok (text.drop (offset - 1)) := by
  have hoff := h.off
  rw [addReplyReplicationBacklog]
  split
  case isTrue hnil =>
    rw [drop_of_length_le (by omega)]
  case isFalse =>
    have hpos := h.off_pos
    have hdrop : backlog.off - 1 + (offset - backlog.off) = offset - 1 := by omega
    rw [h.read (by omega), hdrop]

lemma Inv.resumeSlave {offset} (inv : Inv m) (hsome : m.replBacklog = some backlog)
    (hle : backlog.off ≤ offset) (hend : offset ≤ backlog.off + backlog.ring.histlen) (req : SyncRequest)
    (writeOk : Bool) : ∃ m', resumeSlave m backlog req offset writeOk = .ok m' ∧ Inv m' := by
  have keeps := inv.backlog hsome
  have hoff := keeps.off
  have attached {out : Bytes} (hout : writeOk = true → out = (streamText m.stream).drop (offset - 1)) :
      Inv { m with slaves := m.slaves ++ [{ req.slave with
        replstate := .online, out := out, closeAsap := !writeOk, resumed := some (offset - 1) }] } := by
    refine inv.snoc (hsome ▸ nofun) (.inl rfl) (.attached (.inr rfl) ⟨nofun, ?_⟩)
    rintro hopen o ⟨⟩
    exact ⟨show offset - 1 ≤ (streamText m.stream).length by omega, hout (by simpa using hopen)⟩
  cases writeOk with
  | false => exact ⟨_, rfl, attached nofun⟩
  | true =>
    refine ⟨_, ?_, attached fun _ => rfl⟩
    rw [Replication.resumeSlave, if_pos rfl, keeps.addReply hle hend]
    rfl

lemma Inv.syncCommand (inv : Inv m) (req : SyncRequest) (fk : Fork) :
    ∃ m', syncCommand m req fk = .ok m' ∧ Inv m' := by
  rw [Replication.syncCommand]
  split
  case isTrue => exact ⟨m, rfl, inv⟩
  case isFalse =>
    split
    case h_1 psync backlog hpsync hsome =>
      split
      case isTrue haccepts =>
        obtain ⟨-, hle, hend⟩ : psync.1 = m.replid ∧ backlog.off ≤ psync.2 ∧
            psync.2 ≤ backlog.off + backlog.ring.histlen := by
          rw [acceptsOffset, hsome] at haccepts
          exact of_decide_eq_true haccepts
        exact inv.resumeSlave hsome (by omega) (by omega) req _
      case isFalse => exact ⟨_, rfl, inv.fullResync req fk⟩
    case h_2 => exact ⟨_, rfl, inv.fullResync req fk⟩

/-! ### The end of a child -/

lemma Slave.Ok.bgsaveDone {ch sl' ok rp} (h : sl.Ok m)
    (hchild : m.rdbChild = some ch) (hexited : ch.exited = some ok) (same : SameStream m m')
    (hdone : sl.bgsaveDone ch.type ch.offset ok m.rdbFile rp = some sl') : sl'.Ok m' := by
  unfold Slave.bgsaveDone at hdone
  split at hdone
  case isFalse hstate =>
    cases hdone
    exact h.same same fun h => absurd h hstate
  case isTrue hstate =>
    obtain ⟨resumed, _, joined⟩ := h.joined hstate
    cases hchild.symm.trans joined.child
    have follows := joined.follows.same same
    split at hdone
    case h_1 =>
      split at hdone
      · cases hdone
        exact .attached (.inr rfl)
          ⟨fun _ => ⟨ch.offset, rfl, follows.le, follows.told, follows.out, follows.selects⟩, resumed ▸ nofun⟩
      · cases hdone
    case h_2 htype =>
      split at hdone
      case isTrue hok =>
        cases hdone
        rw [Bool.and_eq_true] at hok
        refine .attached (.inl rfl) ⟨fun _ => ⟨ch.offset, ?_, follows.le, follows.told, follows.out, follows.selects⟩,
          resumed ▸ nofun⟩
        exact joined.filed htype (hok.1 ▸ hexited)
      case isFalse => cases hdone

lemma Inv.backgroundSaveDoneHandler {ch ok} (inv : Inv m) (hchild : m.rdbChild = some ch)
    (hexited : ch.exited = some ok) (rp : Reaped) : Inv (backgroundSaveDoneHandler m ch ok rp) := by
  have done : Inv { m with
      rdbChild := none
      slaves := m.slaves.filterMap fun sl => sl.bgsaveDone ch.type ch.offset ok m.rdbFile rp } := by
    refine inv.update ⟨rfl, .inl rfl⟩ rfl rfl rfl ?_ fun sl hsl => ?_
    · intro hne
      refine inv.attached fun hnil => hne ?_
      rw [hnil]
      rfl
    · obtain ⟨sl₀, hmem, hdone⟩ := mem_filterMap.mp hsl
      exact (inv.slaves sl₀ hmem).bgsaveDone hchild hexited ⟨rfl, .inl rfl⟩ hdone
  rw [Replication.backgroundSaveDoneHandler]
  split
  · exact done.startBgsaveForReplication _ rp.fork
  · exact done

lemma Inv.reap (inv : Inv m) (rp : Reaped) : Inv (reap m rp) := by
  rw [Replication.reap]
  split
  case h_1 hchild => exact inv.backgroundSaveDoneHandler hchild rfl rp
  case h_2 => exact inv

lemma Inv.childExits (inv : Inv m) (ok : Bool) : Inv (childExits m ok) := by
  rw [Replication.childExits]
  split
  case h_1 type offset hchild =>
    refine inv.same ⟨rfl, .inl rfl⟩ ?_ rfl rfl rfl rfl
    intro ch hch _
    cases hchild.symm.trans hch
    refine ⟨_, rfl, rfl, ?_⟩
    rintro ⟨⟩ ⟨⟩
    rfl
  case h_2 => exact inv

/-! ### Runs -/

/-- A child has saved the dataset for replicas that wait for its end, and the server has not noticed yet. -/
def saved (m : Master) : Bool :=
  (m.rdbChild.any fun ch => ch.type = .disk && ch.exited = some true) &&
    m.slaves.any fun sl => sl.replstate = .waitBgsaveEnd

/-- No `FLUSHALL` saves the dataset over the file of a child that has ended. -/
def Calm (m : Master) : Event → Bool
  | .flushall _ savePoints => !(savePoints && saved m)
  | _ => true

lemma Inv.flushallCommand {savePoints} (inv : Inv m) (calm : savePoints = true → saved m = false) :
    Inv (flushallCommand m savePoints) := by
  have same : SameStream m (Replication.flushallCommand m savePoints) := ⟨rfl, .inl rfl⟩
  refine inv.update same rfl rfl rfl inv.attached fun sl hsl => ?_
  refine (inv.slaves sl hsl).same same fun hstate {ch} hchild filed => ?_
  rw [Replication.flushallCommand, hchild]
  dsimp only [map_some]
  split
  case isTrue => exact ⟨_, rfl, rfl, nofun⟩
  case isFalse =>
    refine ⟨ch, rfl, rfl, fun htype hexited => ?_⟩
    have hsaved : saved m = true := by
      rw [saved, hchild, Bool.and_eq_true]
      refine ⟨?_, any_eq_true.mpr ⟨sl, hsl, decide_eq_true hstate⟩⟩
      rw [any_some, htype, hexited]
      rfl
    have hno : savePoints = false := by
      cases savePoints with
      | false => rfl
      | true => rw [calm rfl] at hsaved; cases hsaved
    rw [hno]
    exact filed htype hexited

lemma Inv.resize (inv : Inv m) (newsize : Nat) : Inv (resizeReplicationBacklog m newsize) := by
  rw [resizeReplicationBacklog]
  split
  · exact inv
  have hsize : 0 < max newsize CONFIG_REPL_BACKLOG_MIN_SIZE := lt_max_of_lt_right (by decide)
  refine ⟨inv.offset, hsize, ?_, fun hslaves => ?_, fun sl hsl => ?_⟩
  · intro backlog hbacklog
    obtain ⟨_, -, rfl⟩ := map_eq_some_iff.mp hbacklog
    rw [inv.offset]
    exact .create hsize _
  · rw [ne_eq, map_eq_none_iff]
    exact inv.attached hslaves
  · exact (inv.slaves sl hsl).same ⟨rfl, .inl rfl⟩ fun _ => SameChild.refl rfl rfl

lemma Inv.bulkSent (inv : Inv m) (id : Nat) :
    Inv { m with slaves := m.slaves.map fun sl =>
      if sl.id = id ∧ sl.replstate = .sendBulk then { sl with replstate := .online } else sl } := by
  refine inv.update ⟨rfl, .inl rfl⟩ rfl rfl rfl ?_ fun sl hsl => ?_
  · exact fun hne => inv.attached fun hnil => hne (by rw [hnil]; rfl)
  · obtain ⟨sl, hmem, rfl⟩ := mem_map.mp hsl
    split
    case isFalse => exact (inv.slaves sl hmem).same ⟨rfl, .inl rfl⟩ fun _ => SameChild.refl rfl rfl
    case isTrue hbulk =>
      cases inv.slaves sl hmem with
      | starting state | ending state => cases state.symm.trans hbulk.2
      | attached _ attached =>
        refine .attached (.inr rfl) ⟨fun hnone => ?_, attached.resumed⟩
        obtain ⟨o, hsnap, follows⟩ := attached.sent hnone
        exact ⟨o, hsnap, follows.le, follows.told, follows.out, follows.selects⟩

lemma Inv.step {ev} (inv : Inv m) (calm : Calm m ev = true) : ∃ m', masterStep m ev = .ok m' ∧ Inv m' := by
  cases ev with
  | propagate dictid argv => exact inv.replicationFeedSlaves fun h => by omega
  | keepalive getack =>
    rw [masterStep]
    split_ifs
    · exact inv.replicationFeedSlaves fun _ => .inr rfl
    · exact ⟨m, rfl, inv⟩
    · exact inv.replicationFeedSlaves fun _ => .inl rfl
  | flushall dictid savePoints =>
    have calm : savePoints = true → saved m = false := by
      rintro rfl
      simpa [Calm] using calm
    exact (inv.flushallCommand calm).replicationFeedSlaves fun h => by omega
  | save =>
    refine ⟨_, rfl, ?_⟩
    split
    case isTrue => exact inv
    case isFalse hchild =>
      rw [isSome_iff_ne_none, not_not] at hchild
      exact inv.same ⟨rfl, .inl rfl⟩ (fun h => by rw [hchild] at h; cases h) rfl rfl rfl rfl
  | bgsave forkOk =>
    refine ⟨_, rfl, ?_⟩
    split
    case isTrue => exact inv
    case isFalse hstart =>
      obtain ⟨⟨hchild, -⟩, -⟩ : (m.rdbChild = none ∧ m.aofChild = false) ∧ forkOk = true := by simpa using hstart
      exact inv.same ⟨rfl, .inl rfl⟩ (fun h => by rw [hchild] at h; cases h) rfl rfl rfl rfl
  | sync req fk => exact inv.syncCommand req fk
  | childExits ok => exact ⟨_, rfl, inv.childExits ok⟩
  | reap rp => exact ⟨_, rfl, inv.reap rp⟩
  | cronStart delayPassed fk =>
    refine ⟨_, rfl, ?_⟩
    split
    · exact inv.startBgsaveForReplication _ fk
    · exact inv
  | bulkSent id => exact ⟨_, rfl, inv.bulkSent id⟩
  | disconnect id => exact ⟨_, rfl, inv.filter _ ⟨rfl, .inl rfl⟩ (SameChild.refl rfl rfl) rfl rfl rfl rfl⟩
  | freeBacklog =>
    refine ⟨_, rfl, ?_⟩
    split
    case isTrue hfree =>
      obtain ⟨hslaves, -⟩ : m.slaves = [] ∧ m.replBacklog.isSome = true := by simpa using hfree
      refine ⟨inv.offset, inv.size, nofun, fun hne => absurd hslaves hne, ?_⟩
      rw [hslaves]
      exact forall_mem_nil _
    case isFalse => exact inv
  | resizeBacklog newsize => exact ⟨_, rfl, inv.resize newsize⟩
  | setDisklessSync on | setAofChild on =>
    exact ⟨_, rfl, inv.same ⟨rfl, .inl rfl⟩ (SameChild.refl rfl rfl) rfl rfl rfl rfl⟩

/-! ### What a replica is handed over -/

/-- After the offset, the stream selects a database before any command but keepalives. -/
def SelectsFirst (stream : List Item) (o : Nat) : Prop := Selected stream o ∨ Unselected stream o

/-- A replica that is sent the snapshot forked at an offset is queued exactly the stream that follows. -/
structure Slave.HandedOver (stream : List Item) (sl : Slave) (o : Nat) : Prop where
  told : sl.prePsync = false → sl.told.map Prod.snd = some o
  out : sl.out = (streamText stream).drop o
  selects : SelectsFirst stream o

/-- No gap and no overlap between the snapshots and the stream, for all replicas that are not being closed. -/
structure HandedOver (m : Master) : Prop where
  waiting : ∀ sl ∈ m.slaves, sl.closeAsap = false → sl.replstate = .waitBgsaveEnd →
    ∃ ch, m.rdbChild = some ch ∧ sl.HandedOver m.stream ch.offset
  sent : ∀ sl ∈ m.slaves, sl.closeAsap = false → sl.replstate = .sendBulk ∨ sl.replstate = .online →
    (∃ o, sl.snapshot = some (.forked o) ∧ sl.HandedOver m.stream o) ∨
    ∃ o, sl.resumed = some o ∧ sl.out = (streamText m.stream).drop o
  offset : m.masterReplOffset = (streamText m.stream).length
  backlog : ∀ backlog, m.replBacklog = some backlog →
    backlog.ring.read 0 = some ((streamText m.stream).drop (backlog.off - 1))

lemma Selects.first (h : Selects m o) : SelectsFirst m.stream o := h.imp_right And.left

lemma Slave.Follows.handedOver (h : sl.Follows m o) (hopen : sl.closeAsap = false) : sl.HandedOver m.stream o :=
  ⟨h.told hopen, h.out, h.selects.first⟩

lemma Inv.handedOver (inv : Inv m) : HandedOver m where
  waiting sl hsl hopen hstate := by
    obtain ⟨-, ch, joined⟩ := (inv.slaves sl hsl).joined hstate
    exact ⟨ch, joined.child, joined.follows.handedOver hopen⟩
  sent sl hsl hopen hstate := by
    cases inv.slaves sl hsl with
    | starting state | ending state => rcases hstate with hstate | hstate <;> cases state.symm.trans hstate
    | attached _ attached =>
      cases hresumed : sl.resumed with
      | none =>
        obtain ⟨o, hsnap, follows⟩ := attached.sent hresumed
        exact .inl ⟨o, hsnap, follows.handedOver hopen⟩
      | some o => exact .inr ⟨o, rfl, (attached.resumed hopen o hresumed).2⟩
  offset := inv.offset
  backlog backlog h := (inv.backlog h).read (Nat.zero_le _)

lemma masterStart_inv : Inv masterStart :=
  ⟨rfl, by decide, nofun, fun h => absurd rfl h, forall_mem_nil _⟩

def masterNext (m : Master) (ev : Event) : Option Master := (masterStep m ev).toOption

lemma Inv.run {evs} (inv : Inv m) (calm : Along masterNext (fun m ev => Calm m ev = true) m evs) :
    ∃ m', run masterNext m evs = some m' ∧ Inv m' := by
  induction evs generalizing m with
  | nil => exact ⟨m, rfl, inv⟩
  | cons ev evs ih =>
    obtain ⟨m₁, hstep, inv₁⟩ := inv.step calm.1
    have hnext : masterNext m ev = some m₁ := by rw [masterNext, hstep]; rfl
    obtain ⟨m', hrun, inv'⟩ := ih inv₁ (calm.2 m₁ hnext)
    exact ⟨m', by rw [run_cons, hnext]; exact hrun, inv'⟩

/-- In a run in which no `FLUSHALL` saves the dataset over the file of a child that has ended for waiting replicas,
every replica is handed over its snapshot and the stream without gap or overlap. -/
theorem full_resync_handed_over {evs : List Event}
    (calm : Along masterNext (fun m ev => Calm m ev = true) masterStart evs) :
    ∃ m, run masterNext masterStart evs = some m ∧ HandedOver m := by
  obtain ⟨m, hrun, inv⟩ := masterStart_inv.run calm
  exact ⟨m, hrun, inv.handedOver⟩

def sampleFork : Fork := ⟨true, true, fun _ => true⟩

def sampleReaped : Reaped := ⟨fun _ => true, fun _ => true, sampleFork⟩

def sampleSync (id : Nat) : Event := .sync ⟨id, ⟨true, true⟩, some (0, -1)⟩ sampleFork

/-- A second replica joins the child of the first one, and commands are fed meanwhile. -/
def joinRun : List Event :=
  [sampleSync 1, .keepalive false, .propagate 3 flushallArgv, sampleSync 2, .propagate 0 flushallArgv, .childExits true,
    .reap sampleReaped, .bulkSent 2, .flushall 0 true]

theorem joinRun_handed_over :
    Along masterNext (fun m ev => Calm m ev = true) masterStart joinRun ∧
      ∃ m, run masterNext masterStart joinRun = some m ∧ HandedOver m := by
  have calm : Along masterNext (fun m ev => Calm m ev = true) masterStart joinRun :=
    along_of_check id (by decide +kernel)
  exact ⟨calm, full_resync_handed_over calm⟩

/-- A `FLUSHALL` saves the empty dataset after the child has ended and before the server has noticed. -/
def flushRun : List Event := [sampleSync 1, .childExits true, .flushall 0 true, .reap sampleReaped]

/-- The replica is told the offset of the child, and is sent the dataset saved after the `FLUSHALL`. -/
theorem flushRun_not_handed_over :
    ∃ m, run masterNext masterStart flushRun = some m ∧ ¬HandedOver m := by
  obtain ⟨m, hrun, hsaved⟩ := run_checked masterNext masterStart flushRun
    (p := fun m => m.slaves.any fun sl => !sl.closeAsap && sl.replstate = .sendBulk && sl.snapshot = some .saved &&
      sl.resumed = none) (by decide +kernel)
  refine ⟨m, hrun, fun handed => ?_⟩
  obtain ⟨sl, hsl, hsent⟩ := any_eq_true.mp hsaved
  simp only [Bool.and_eq_true, Bool.not_eq_true', decide_eq_true_eq] at hsent
  obtain ⟨⟨⟨hopen, hstate⟩, hsnap⟩, hresumed⟩ := hsent
  rcases handed.sent sl hsl hopen (.inl hstate) with ⟨o, hforked, -⟩ | ⟨o, ho, -⟩
  · cases hsnap.symm.trans hforked
  · cases hresumed.symm.trans ho

/-! ### The window of the backlog -/

/-- What `addReplyReplicationBacklog` returns. -/
def addReplyReplicationBacklogLen (backlog : Backlog) (offset : Nat) : Int :=
  if backlog.ring.histlen = 0 then 0 else backlog.ring.histlen - (offset - backlog.off)

/-- Creating, freeing, resizing and feeding the backlog, with the stream up to each state. -/
inductive BacklogRun : Master → Bytes → Prop where
  | start {m text} : m.replBacklogSize = 1048576 → m.replBacklog = none → m.masterReplOffset = text.length →
    BacklogRun m text
  | create {m text} : BacklogRun m text → m.replBacklog = none →
    BacklogRun { m with replBacklog := some (createReplicationBacklog m.replBacklogSize m.masterReplOffset) } text
  | free {m text} : BacklogRun m text → BacklogRun { m with replBacklog := none } text
  | resize {m text} (newsize : Int) : BacklogRun m text → BacklogRun (resizeReplicationBacklog m newsize.toNat) text
  | feed {m m' text} (data : Bytes) : BacklogRun m text → feedReplicationBacklog m data = .ok m' →
    BacklogRun m' (text ++ data)

/-- The backlog shows the end of the stream, and can be fed. -/
structure BacklogWindow (m : Master) (text : Bytes) (backlog : Backlog) : Prop where
  off : backlog.off + backlog.ring.histlen = m.masterReplOffset + 1
  histlen : backlog.ring.histlen ≤ m.replBacklogSize
  sends : ∀ offset, backlog.off ≤ offset → offset ≤ backlog.off + backlog.ring.histlen →
    addReplyReplicationBacklog backlog offset = .ok (text.drop (offset - 1)) ∧
      addReplyReplicationBacklogLen backlog offset = (text.drop (offset - 1)).length
  feeds : ∀ data, ∃ m', feedReplicationBacklog m data = .ok m'

lemma BacklogRun.keeps {m text} (run : BacklogRun m text) :
    m.masterReplOffset = text.length ∧ 0 < m.replBacklogSize ∧
      ∀ backlog, m.replBacklog = some backlog → backlog.Keeps text ∧ backlog.ring.size = m.replBacklogSize := by
  induction run with
  | start hsize hnone hoffset => exact ⟨hoffset, by omega, by simp [hnone]⟩
  | create _ _ ih =>
    obtain ⟨hoffset, hsize, -⟩ := ih
    refine ⟨hoffset, hsize, ?_⟩
    rintro backlog ⟨⟩
    rw [hoffset]
    exact ⟨.create hsize _, rfl⟩
  | free _ ih => exact ⟨ih.1, ih.2.1, by simp⟩
  | @resize m text newsize _ ih =>
    obtain ⟨hoffset, hsize, hkeeps⟩ := ih
    rw [resizeReplicationBacklog]
    split
    · exact ⟨hoffset, hsize, hkeeps⟩
    have hsize : 0 < max newsize.toNat CONFIG_REPL_BACKLOG_MIN_SIZE := lt_max_of_lt_right (by decide)
    refine ⟨hoffset, hsize, fun backlog hbacklog => ?_⟩
    obtain ⟨_, -, rfl⟩ := map_eq_some_iff.mp hbacklog
    rw [hoffset]
    exact ⟨.create hsize _, rfl⟩
  | @feed m m' text data _ hfeed ih =>
    obtain ⟨hoffset, hsize, hkeeps⟩ := ih
    cases hbacklog : m.replBacklog with
    | none =>
      rw [feedReplicationBacklog, hbacklog] at hfeed
      cases hfeed
    | some backlog =>
      obtain ⟨keeps, hring⟩ := hkeeps backlog hbacklog
      obtain ⟨backlog', hfed, keeps', hring'⟩ := keeps.feed hbacklog hoffset data
      cases hfed.symm.trans hfeed
      refine ⟨rfl, hsize, ?_⟩
      rintro _ ⟨⟩
      exact ⟨keeps', hring'.trans hring⟩

/-- Whatever the backlog was fed with and resized to, it is a window on the end of the stream. -/
theorem replication_backlog_window {m text} (run : BacklogRun m text) :
    m.masterReplOffset = text.length ∧ ∀ backlog, m.replBacklog = some backlog → BacklogWindow m text backlog := by
  obtain ⟨hoffset, -, hkeeps⟩ := run.keeps
  refine ⟨hoffset, fun backlog hbacklog => ?_⟩
  obtain ⟨keeps, hring⟩ := hkeeps backlog hbacklog
  have hoff := keeps.off
  refine ⟨by omega, ?_, fun offset hle hend => ⟨keeps.addReply hle hend, ?_⟩, fun data => ?_⟩
  · obtain ⟨n, -, ring⟩ := keeps.ring
    rw [← hring, ring.histlen]
    exact min_le_right ..
  · have hpos := keeps.off_pos
    rw [addReplyReplicationBacklogLen, length_drop]
    split <;> omega
  · obtain ⟨_, hfed, -⟩ := keeps.feed hbacklog hoffset data
    exact ⟨_, hfed⟩

/-- A backlog is created and fed. -/
theorem replication_backlog_window_ping : ∃ m, BacklogRun m (ascii "PING") ∧ m.masterReplOffset = 4 := by
  have created : BacklogRun { masterStart with replBacklog := some (createReplicationBacklog 1048576 0) } [] :=
    .create (m := masterStart) (.start rfl rfl rfl) rfl
  obtain ⟨m, hfed⟩ := ((replication_backlog_window created).2 _ rfl).feeds (ascii "PING")
  exact ⟨m, created.feed _ hfed, (replication_backlog_window (created.feed _ hfed)).1⟩

end JitRedis.Replication
