import JitRedis.Replication.Scripts

/-!
# Scripts are known where they are used

The replication script cache stands for what all replicas and the AOF know. For the AOF this is right, since each rewrite
flushes the cache. For the replicas it is right as long as all that fills the cache also reaches the stream. This is not
so while the server is a replica itself: the scripts of its own clients are cached and not propagated, and nothing
flushes the cache when the server becomes a master. A server that loses the scripts of its master to a `SCRIPT FLUSH` of
a client also gives its own replicas snapshots without them.
-/

namespace JitRedis.Replication.Scripts

open DefUse Runs List

variable {S : Type} {sv sv' : Server S} {h : Holder S} {cmd : Cmd S} {p : Propagated S}

/-! ### What the functions leave alone -/

structure SameHistory (sv sv' : Server S) : Prop where
  lua : sv'.luaScripts = sv.luaScripts
  cache : sv'.scriptcache ⊆ sv.scriptcache
  role : sv'.replState = sv.replState
  backlog : sv'.replBacklog = sv.replBacklog
  stream : sv'.stream = sv.stream
  own : sv'.own = sv.own
  holders : sv'.holders = sv.holders
  inherited : sv'.inherited = sv.inherited

lemma SameHistory.intro {slaves rdbChild aofChild aofState aof buf} :
    SameHistory sv { sv with slaves, rdbChild, aofChild, aofState, aof, aofRewriteBuf := buf } :=
  ⟨rfl, List.Subset.refl _, rfl, rfl, rfl, rfl, rfl, rfl⟩

/-- Everything about replication is the same, but the cache may be flushed. -/
structure Untouched (sv sv' : Server S) : Prop extends SameHistory sv sv' where
  slaves : sv'.slaves = sv.slaves

lemma Untouched.intro {rdbChild aofChild : Bool} {aofState aof buf} :
    Untouched sv { sv with rdbChild, aofChild, aofState, aof, aofRewriteBuf := buf } :=
  ⟨.intro, rfl⟩

lemma Untouched.trans {sv''} (h : Untouched sv sv') (h' : Untouched sv' sv'') : Untouched sv sv'' :=
  ⟨⟨h'.lua.trans h.lua, List.Subset.trans h'.cache h.cache, h'.role.trans h.role, h'.backlog.trans h.backlog,
    h'.stream.trans h.stream, h'.own.trans h.own, h'.holders.trans h.holders, h'.inherited.trans h.inherited⟩,
    h'.slaves.trans h.slaves⟩

lemma flush_untouched (sv : Server S) : Untouched sv (replicationScriptCacheFlush sv) :=
  ⟨⟨rfl, nil_subset _, rfl, rfl, rfl, rfl, rfl, rfl⟩, rfl⟩

lemma killAppendOnlyChild_untouched (sv : Server S) : Untouched sv (killAppendOnlyChild sv) := by
  rw [killAppendOnlyChild]
  split <;> exact .intro

lemma stopAppendOnly_untouched (sv : Server S) : Untouched sv (stopAppendOnly sv) :=
  Untouched.intro.trans (killAppendOnlyChild_untouched _)

lemma rewrite_untouched {forkOk : Bool} (h : rewriteAppendOnlyFileBackground sv forkOk = some sv') :
    Untouched sv sv' := by
  rw [rewriteAppendOnlyFileBackground] at h
  split at h
  · cases h
  · cases h
    exact Untouched.intro.trans (flush_untouched _)

lemma startAppendOnly_untouched (sv : Server S) (forkOk : Bool) : Untouched sv (startAppendOnly sv forkOk) := by
  rw [startAppendOnly]
  split
  · exact .intro
  · split
    case h_1 => exact killAppendOnlyChild_untouched sv
    case h_2 hfork => exact ((killAppendOnlyChild_untouched sv).trans (rewrite_untouched hfork)).trans .intro

lemma propagate_some (sv : Server S) (p : Propagated S) :
    propagate sv (some p) =
      { sv with
        aof := if p.toAof = true ∧ sv.aofState = .on then sv.aof ++ [p.cmd] else sv.aof
        aofRewriteBuf :=
          if p.toAof = true ∧ sv.aofState ≠ .off ∧ sv.aofChild = true then sv.aofRewriteBuf ++ [p.cmd]
          else sv.aofRewriteBuf
        stream :=
          if p.toRepl = true ∧ sv.replState = .none ∧ sv.replBacklog = true then sv.stream ++ [p.cmd]
          else sv.stream } := by
  unfold propagate feedAppendOnlyFile replicationFeedSlaves
  dsimp only
  split_ifs <;> simp_all

/-! ### Commands -/

lemma replicationScriptCacheAdd_subset {cache K : List S} (x : S) (hsub : cache ⊆ K) :
    replicationScriptCacheAdd cache x ⊆ x :: K := by
  apply cons_subset_cons
  split
  · exact fun y hy => hsub (dropLast_subset _ hy)
  · exact hsub

variable [DecidableEq S]

/-- What running a command does to the scripts: it is propagated by its hash only if the script is cached, and the cache
and the scripts of the server stay in line with what a reader learns from the propagated command. -/
structure Executed (sv : Server S) (cmd : Cmd S) (lua' cache' : List S) (p : Propagated S) : Prop where
  used : allowed sv.scriptcache p.cmd.effect = true
  cache : ∀ {K}, sv.scriptcache ⊆ K → cache' ⊆ learn K p.cmd.effect
  kept : p.toAof = false → cache' = sv.scriptcache
  lua : ∀ {K}, K ⊆ sv.luaScripts → learn K p.cmd.effect ⊆ lua'
  raw : ∀ {K}, K ⊆ sv.luaScripts → learn K cmd.effect ⊆ lua'
  grows : cmd ≠ .flush → sv.luaScripts ⊆ lua'
  flushed : cmd = .flush → p.toRepl = true
  both : p.toAof = true → p.toRepl = true

lemma execute_cases (sv : Server S) (cmd : Cmd S) (dirty force : Bool) :
    (∃ x, cmd = .evalsha x ∧ x ∉ sv.luaScripts ∧ execute sv cmd dirty force = (sv, none)) ∨
    ∃ lua' cache' p, execute sv cmd dirty force = ({ sv with luaScripts := lua', scriptcache := cache' }, some p) ∧
      Executed sv cmd lua' cache' p := by
  have hboth : dirty = true → (dirty || force) = true := by
    rintro rfl
    rfl
  cases cmd with
  | eval x =>
    refine .inr ⟨x :: sv.luaScripts, sv.scriptcache, _, rfl, rfl, ?_, fun _ => rfl, ?_, ?_, ?_, nofun, hboth⟩
    · exact fun hsub => subset_cons_of_subset x hsub
    · exact fun hsub => cons_subset_cons x hsub
    · exact fun hsub => cons_subset_cons x hsub
    · exact fun _ => subset_cons_self ..
  | load x =>
    refine .inr ⟨x :: sv.luaScripts, sv.scriptcache, _, rfl, rfl, ?_, nofun, ?_, ?_, ?_, nofun, fun _ => rfl⟩
    · exact fun hsub => subset_cons_of_subset x hsub
    · exact fun hsub => cons_subset_cons x hsub
    · exact fun hsub => cons_subset_cons x hsub
    · exact fun _ => subset_cons_self ..
  | flush =>
    exact .inr ⟨[], [], _, rfl, rfl, fun _ => nil_subset _, nofun, fun _ => nil_subset _,
      fun _ => nil_subset _, fun h => absurd rfl h, fun _ => rfl, fun _ => rfl⟩
  | other =>
    exact .inr ⟨sv.luaScripts, sv.scriptcache, _, rfl, rfl, id, fun _ => rfl, id, id, fun _ => List.Subset.refl _, nofun,
      hboth⟩
  | evalsha x =>
    rw [execute]
    split
    case isTrue hlua => exact .inl ⟨x, rfl, hlua, rfl⟩
    case isFalse hlua =>
      rw [not_not] at hlua
      right
      split
      case isTrue hcached =>
        exact ⟨sv.luaScripts, sv.scriptcache, _, rfl, decide_eq_true hcached, id, fun _ => rfl, id, id,
          fun _ => List.Subset.refl _, nofun, hboth⟩
      case isFalse =>
        have heffect : (if dirty then Cmd.eval x else .load x).effect = .define x := by cases dirty <;> rfl
        refine ⟨sv.luaScripts, _, _, rfl, ?_, ?_, nofun, ?_, id, fun _ => List.Subset.refl _, nofun, fun _ => rfl⟩
        · rw [heffect]
          rfl
        · intro K hsub
          rw [heffect]
          exact replicationScriptCacheAdd_subset x hsub
        · intro K hsub
          rw [heffect]
          exact cons_subset.mpr ⟨hlua, hsub⟩

/-! ### The AOF -/

/-- The AOF defines what it uses and what is cached, and so does what a rewrite adds to a snapshot. -/
structure Logged (sv : Server S) : Prop where
  aof : sv.aofState = .on → closed Cmd.effect [] sv.aof = true ∧ sv.scriptcache ⊆ known Cmd.effect [] sv.aof
  buf : sv.aofState ≠ .off → sv.aofChild = true →
    closed Cmd.effect [] sv.aofRewriteBuf = true ∧ sv.scriptcache ⊆ known Cmd.effect [] sv.aofRewriteBuf
  idle : sv.aofChild = false → sv.aofRewriteBuf = []
  single : sv.rdbChild = true → sv.aofChild = false

lemma Logged.frame (logged : Logged sv) {luaScripts scriptcache replState replBacklog slaves rdbChild stream own holders
    inherited} (hcache : scriptcache ⊆ sv.scriptcache) (hrdb : rdbChild = true → sv.aofChild = false) :
    Logged { sv with
      luaScripts, scriptcache, replState, replBacklog, slaves, rdbChild, stream, own, holders, inherited } where
  aof h := ⟨(logged.aof h).1, List.Subset.trans hcache (logged.aof h).2⟩
  buf h hc := ⟨(logged.buf h hc).1, List.Subset.trans hcache (logged.buf h hc).2⟩
  idle := logged.idle
  single := hrdb

lemma Logged.keep (logged : Logged sv) {luaScripts replState replBacklog slaves stream own holders inherited} :
    Logged { sv with luaScripts, replState, replBacklog, slaves, stream, own, holders, inherited } :=
  logged.frame (List.Subset.refl _) logged.single

lemma Executed.logged {lua' cache' : List S} {log} (exec : Executed sv cmd lua' cache' p)
    (h : closed Cmd.effect [] log = true ∧ sv.scriptcache ⊆ known Cmd.effect [] log) :
    closed Cmd.effect [] (log ++ [p.cmd]) = true ∧ cache' ⊆ known Cmd.effect [] (log ++ [p.cmd]) := by
  rw [known_snoc]
  exact ⟨closed_snoc h.1 (allowed_mono h.2 exec.used), exec.cache h.2⟩

section

variable (logged : Logged sv)
include logged

lemma Logged.call (cmd : Cmd S) (dirty force : Bool) : Logged (call sv cmd dirty force) := by
  rw [Scripts.call]
  rcases execute_cases sv cmd dirty force with ⟨-, -, -, hexec⟩ | ⟨lua', cache', p, hexec, exec⟩
  · rw [hexec]
    exact logged
  rw [hexec, propagate_some]
  refine ⟨fun hon => ?_, fun hoff hchild => ?_, fun hchild => ?_, logged.single⟩
  · dsimp only
    cases haof : p.toAof with
    | true => rw [if_pos ⟨rfl, hon⟩]; exact exec.logged (logged.aof hon)
    | false => rw [if_neg nofun]; exact exec.kept haof ▸ logged.aof hon
  · dsimp only
    cases haof : p.toAof with
    | true => rw [if_pos ⟨rfl, hoff, hchild⟩]; exact exec.logged (logged.buf hoff hchild)
    | false => rw [if_neg nofun]; exact exec.kept haof ▸ logged.buf hoff hchild
  · exact (if_neg fun h => Bool.false_ne_true (hchild.symm.trans h.2.2)).trans (logged.idle hchild)

lemma Logged.killAppendOnlyChild :
    Logged (killAppendOnlyChild sv) ∧ (killAppendOnlyChild sv).aofChild = false := by
  rw [Scripts.killAppendOnlyChild]
  split
  case isTrue => exact ⟨⟨logged.aof, nofun, fun _ => rfl, fun _ => rfl⟩, rfl⟩
  case isFalse hchild => exact ⟨logged, Bool.eq_false_iff.mpr hchild⟩

lemma Logged.rewrite {forkOk : Bool} (hfork : rewriteAppendOnlyFileBackground sv forkOk = some sv')
    (state : AofState) (hstate : state = .on → sv'.aofState = .on) : Logged { sv' with aofState := state } := by
  rw [rewriteAppendOnlyFileBackground] at hfork
  split at hfork
  · cases hfork
  rename_i hidle
  cases hfork
  push Not at hidle
  have hbuf := logged.idle (Bool.eq_false_iff.mpr hidle.1)
  refine ⟨fun hon => ⟨(logged.aof (hstate hon)).1, nil_subset _⟩, fun _ _ => ?_, nofun, fun h => absurd h hidle.2.1⟩
  rw [show _ = [] from hbuf]
  exact ⟨rfl, nil_subset _⟩

lemma Logged.backgroundRewriteDoneHandler (hchild : sv.aofChild = true) (ok : Bool) :
    Logged (backgroundRewriteDoneHandler sv ok) := by
  refine ⟨fun hon => ?_, nofun, fun _ => rfl, fun _ => rfl⟩
  rw [Scripts.backgroundRewriteDoneHandler] at hon ⊢
  dsimp only at hon ⊢
  split at hon
  case isTrue hwait =>
    have hoff : sv.aofState ≠ .off := by rw [hwait.2]; nofun
    rw [if_pos ⟨hwait.1, hoff⟩]
    exact logged.buf hoff hchild
  case isFalse =>
    have hoff : sv.aofState ≠ .off := by rw [hon]; nofun
    split
    · exact logged.buf hoff hchild
    · exact logged.aof hon

lemma Logged.stopAppendOnly : Logged (stopAppendOnly sv) := by
  have off : Logged { sv with aofState := .off } := ⟨nofun, fun h => absurd rfl h, logged.idle, logged.single⟩
  exact off.killAppendOnlyChild.1

lemma Logged.startAppendOnly (forkOk : Bool) : Logged (startAppendOnly sv forkOk) := by
  rw [Scripts.startAppendOnly]
  split
  case isTrue hrdb =>
    have hchild := logged.single hrdb
    exact ⟨nofun, fun _ h => absurd h (Bool.eq_false_iff.mp hchild), logged.idle, logged.single⟩
  case isFalse =>
    have killed := logged.killAppendOnlyChild.1
    split
    case h_1 => exact killed
    case h_2 hfork => exact killed.rewrite hfork _ nofun

end

/-! ### The replication history -/

/-- A replica of the history: its snapshot has what the history had defined, for a snapshot of this server from all
that the server knew when the history began, and it knows the scripts that the history uses since. -/
structure Holder.Ok (sv : Server S) (h : Holder S) : Prop where
  le : h.start ≤ sv.stream.length
  base : known Cmd.effect [] (sv.stream.take h.start) ⊆ h.base
  own : h.foreign = false → known Cmd.effect sv.own (sv.stream.take h.start) ⊆ h.base
  closed : closed Cmd.effect h.base (sv.stream.drop h.start) = true

structure Told (sv : Server S) : Prop where
  lua : known Cmd.effect sv.own sv.stream ⊆ sv.luaScripts
  holders : ∀ h ∈ sv.holders, h.Ok sv
  slaves : ∀ sl ∈ sv.slaves, ∀ h, sl.holder = some h → h ∈ sv.holders
  cache : sv.replState = .none →
    sv.scriptcache ⊆ known Cmd.effect [] sv.stream ∨ sv.holders = [] ∧ sv.inherited = none
  inherited : ∀ n, sv.inherited = some n → n ≤ sv.stream.length ∧
    DefUse.closed Cmd.effect (known Cmd.effect [] (sv.stream.take n)) (sv.stream.drop n) = true
  freed : sv.replBacklog = false →
    sv.stream = [] ∧ sv.own = [] ∧ sv.holders = [] ∧ sv.inherited = none ∧ sv.slaves = []
  connected : sv.replState = .connected → sv.replBacklog = true
  transfer : sv.replState = .transfer → sv.replBacklog = false

lemma Holder.Ok.snoc (ok : h.Ok sv) (hallowed : allowed (known Cmd.effect h.base (sv.stream.drop h.start)) cmd.effect = true)
    (hstream : sv'.stream = sv.stream ++ [cmd]) (hown : sv'.own = sv.own) : h.Ok sv' := by
  refine ⟨?_, ?_, ?_, ?_⟩
  · rw [hstream, length_append]
    exact ok.le.trans (Nat.le_add_right ..)
  · rw [hstream, take_append_of_le_length ok.le]
    exact ok.base
  · rw [hstream, hown, take_append_of_le_length ok.le]
    exact ok.own
  · rw [hstream, drop_append_of_le_length ok.le]
    exact closed_snoc ok.closed hallowed

/-- What a command of the server itself does to the history: it is fed to the stream, or not. -/
inductive Called (sv : Server S) (cmd : Cmd S) (lua' cache' : List S) : List (Cmd S) → Prop
  | fed {c : Cmd S} (role : sv.replState = .none) (backlog : sv.replBacklog = true)
    (used : allowed sv.scriptcache c.effect = true) (cache : ∀ {K}, sv.scriptcache ⊆ K → cache' ⊆ learn K c.effect)
    (lua : ∀ {K}, K ⊆ sv.luaScripts → learn K c.effect ⊆ lua') : Called sv cmd lua' cache' (sv.stream ++ [c])
  | unfed (cache : sv.replState = .none → sv.replBacklog = true → cache' = sv.scriptcache)
    (flush : cmd = .flush → sv.replState = .none → sv.replBacklog = false) (grows : cmd ≠ .flush → sv.luaScripts ⊆ lua')
    (raw : ∀ {K}, K ⊆ sv.luaScripts → learn K cmd.effect ⊆ lua') : Called sv cmd lua' cache' sv.stream

lemma call_called (sv : Server S) (cmd : Cmd S) (dirty force : Bool) :
    ∃ lua' cache' aof' buf' stream', call sv cmd dirty force =
        { sv with
          luaScripts := lua', scriptcache := cache', aof := aof', aofRewriteBuf := buf', stream := stream' } ∧
      Called sv cmd lua' cache' stream' := by
  rw [call]
  rcases execute_cases sv cmd dirty force with ⟨x, rfl, -, hexec⟩ | ⟨lua', cache', p, hexec, exec⟩
  · rw [hexec]
    exact ⟨_, _, _, _, _, rfl, .unfed (fun _ _ => rfl) nofun (fun _ => List.Subset.refl _) id⟩
  rw [hexec, propagate_some]
  refine ⟨lua', cache', _, _, _, rfl, ?_⟩
  split
  case isTrue hfed => exact .fed hfed.2.1 hfed.2.2 exec.used exec.cache exec.lua
  case isFalse hunfed =>
    refine .unfed (fun hrole hbacklog => exec.kept ?_) (fun hflush hrole => ?_) exec.grows exec.raw
    · cases haof : p.toAof with
      | false => rfl
      | true => exact absurd ⟨exec.both haof, hrole, hbacklog⟩ hunfed
    · cases hbacklog : sv.replBacklog with
      | false => rfl
      | true => exact absurd ⟨exec.flushed hflush, hrole, hbacklog⟩ hunfed

lemma Told.call (told : Told sv) (hflush : cmd = .flush → sv.replState = .none) (dirty force : Bool) :
    Told (call sv cmd dirty force) := by
  obtain ⟨lua', cache', aof', buf', stream', hcall, called⟩ := call_called sv cmd dirty force
  rw [hcall]
  cases called with
  | fed role backlog used cache lua =>
    -- somebody may read the stream only if it defines what is cached
    have hallowed (hne : ¬(sv.holders = [] ∧ sv.inherited = none)) {c : Cmd S} (hc : allowed sv.scriptcache c.effect = true) :
        allowed (known Cmd.effect [] sv.stream) c.effect = true :=
      allowed_mono ((told.cache role).resolve_right hne) hc
    refine ⟨?_, fun h hh => ?_, told.slaves, fun _ => ?_, fun n hn => ?_, fun hfreed => ?_, told.connected, told.transfer⟩
    · rw [known_snoc]
      exact lua told.lua
    · have ok := told.holders h hh
      refine ok.snoc ?_ rfl rfl
      exact allowed_mono (known_drop_subset ok.base) (hallowed (fun hnil => ne_nil_of_mem hh hnil.1) used)
    · rw [known_snoc]
      exact (told.cache role).imp_left cache
    · obtain ⟨hle, hclosed⟩ := told.inherited n hn
      rw [length_append, take_append_of_le_length hle, drop_append_of_le_length hle]
      refine ⟨hle.trans (Nat.le_add_right ..), closed_snoc hclosed ?_⟩
      rw [← known_append, take_append_drop]
      exact hallowed (fun hnone => nomatch hn.symm.trans hnone.2) used
    · exact absurd (backlog.symm.trans hfreed) nofun
  | unfed cache flush grows raw =>
    refine ⟨?_, fun h hh => ?_, told.slaves, fun role => ?_, told.inherited, told.freed, told.connected, told.transfer⟩
    · by_cases hcmd : cmd = .flush
      · obtain ⟨hstream, hown, -⟩ := told.freed (flush hcmd (hflush hcmd))
        rw [hstream, hown]
        exact nil_subset _
      · exact List.Subset.trans told.lua (grows hcmd)
    · have ok := told.holders h hh
      exact ⟨ok.le, ok.base, ok.own, ok.closed⟩
    · cases hbacklog : sv.replBacklog with
      | false =>
        obtain ⟨-, -, hholders, hnone, -⟩ := told.freed hbacklog
        exact .inr ⟨hholders, hnone⟩
      | true =>
        have hcache := cache role hbacklog
        subst hcache
        exact told.cache role

lemma Told.master (told : Told sv) (hrole : sv.replState = .connected) (hknows : masterKnows sv cmd = true)
    (dirty force : Bool) :
    Told { Scripts.call sv cmd dirty force with
      stream := (Scripts.call sv cmd dirty force).stream ++ [cmd]
      inherited := some ((Scripts.call sv cmd dirty force).stream.length + 1) } := by
  rw [masterKnows, Bool.and_eq_true, all_eq_true] at hknows
  obtain ⟨lua', cache', aof', buf', stream', hcall, called⟩ := call_called sv cmd dirty force
  rw [hcall]
  cases called with
  | fed role => cases role.symm.trans hrole
  | unfed cache flush grows raw =>
    refine ⟨?_, fun h hh => ?_, told.slaves, fun role => ?_, ?_, fun hfreed => ?_, told.connected, told.transfer⟩
    · dsimp only
      rw [known_snoc]
      exact raw told.lua
    · have ok := told.holders h hh
      refine ok.snoc ?_ rfl rfl
      cases hforeign : h.foreign with
      | false => exact allowed_mono (known_drop_subset (ok.own hforeign)) hknows.1
      | true => simpa [hforeign] using hknows.2 h hh
    · cases role.symm.trans hrole
    · rintro n ⟨⟩
      have hlen : (sv.stream ++ [cmd]).length = sv.stream.length + 1 := by rw [length_append]; rfl
      rw [hlen, ← hlen, drop_length]
      exact ⟨le_rfl, rfl⟩
    · cases (told.connected hrole).symm.trans hfreed

lemma Holder.Ok.congr (ok : h.Ok sv) (hstream : sv'.stream = sv.stream) (hown : sv'.own = sv.own) : h.Ok sv' := by
  refine ⟨?_, ?_, ?_, ?_⟩
  · rw [hstream]
    exact ok.le
  · rw [hstream]
    exact ok.base
  · rw [hstream, hown]
    exact ok.own
  · rw [hstream]
    exact ok.closed

lemma Told.same (told : Told sv) (same : SameHistory sv sv')
    (hslaves : ∀ sl ∈ sv'.slaves, ∀ h, sl.holder = some h → h ∈ sv.holders)
    (hfreed : sv.slaves = [] → sv.replBacklog = false → sv'.slaves = []) : Told sv' := by
  refine ⟨?_, ?_, ?_, ?_, ?_, ?_, ?_, ?_⟩
  · rw [same.own, same.stream, same.lua]
    exact told.lua
  · rw [same.holders]
    exact fun h hh => (told.holders h hh).congr same.stream same.own
  · rw [same.holders]
    exact hslaves
  · rw [same.role, same.stream, same.holders, same.inherited]
    exact fun role => (told.cache role).imp_left (List.Subset.trans same.cache)
  · rw [same.inherited, same.stream]
    exact told.inherited
  · rw [same.backlog, same.stream, same.own, same.holders, same.inherited]
    intro hbacklog
    obtain ⟨hstream, hown, hholders, hnone, hnil⟩ := told.freed hbacklog
    exact ⟨hstream, hown, hholders, hnone, hfreed hnil hbacklog⟩
  · rw [same.role, same.backlog]
    exact told.connected
  · rw [same.role, same.backlog]
    exact told.transfer

lemma Told.untouched (told : Told sv) (same : Untouched sv sv') : Told sv' := by
  refine told.same same.toSameHistory ?_ fun hnil _ => same.slaves.trans hnil
  rw [same.slaves]
  exact told.slaves

/-! ### Replicas -/

lemma Told.createReplicationBacklog (told : Told sv) (hbacklog : sv.replBacklog = false)
    (hrole : sv.replState = .none) : Told (createReplicationBacklog sv) := by
  obtain ⟨hstream, hown, hholders, hnone, hslaves⟩ := told.freed hbacklog
  refine ⟨?_, ?_, ?_, fun _ => .inr ⟨hholders, hnone⟩, ?_, nofun, fun _ => rfl, fun htransfer => ?_⟩
  · rw [Scripts.createReplicationBacklog, hstream]
    exact List.Subset.refl _
  · rw [Scripts.createReplicationBacklog, hholders]
    exact forall_mem_nil _
  · rw [Scripts.createReplicationBacklog, hslaves]
    exact forall_mem_nil _
  · rw [Scripts.createReplicationBacklog, hnone]
    nofun
  · exact absurd (hrole.symm.trans htransfer) nofun

lemma Told.holder (told : Told sv) (ok : h.Ok sv) (hbacklog : sv.replBacklog = true)
    (hcache : sv.replState = .none → sv.scriptcache ⊆ known Cmd.effect [] sv.stream) :
    Told { sv with holders := h :: sv.holders } := by
  refine ⟨told.lua, ?_, ?_, fun role => .inl (hcache role), told.inherited, fun hfreed => ?_, told.connected, told.transfer⟩
  · exact forall_mem_cons.mpr ⟨ok.congr rfl rfl, fun h' hh' => (told.holders h' hh').congr rfl rfl⟩
  · exact fun sl hsl h' hh' => mem_cons_of_mem _ (told.slaves sl hsl h' hh')
  · exact absurd (hbacklog.symm.trans hfreed) nofun

lemma Told.snapshot (told : Told sv) : (⟨sv.luaScripts, sv.stream.length, false⟩ : Holder S).Ok sv where
  le := le_rfl
  base := by
    rw [take_length]
    exact List.Subset.trans (known_mono (nil_subset _)) told.lua
  own _ := by
    rw [take_length]
    exact told.lua
  closed := by
    rw [drop_length]
    rfl

lemma Told.startBgsaveForReplication (told : Told sv) (hbacklog : sv.replBacklog = true) (ok : Bool) :
    Told (startBgsaveForReplication sv ok) := by
  cases ok with
  | false =>
    refine told.same .intro (fun sl hsl => ?_) fun hnil _ => ?_
    · exact told.slaves sl (mem_of_mem_filter hsl)
    · rw [Scripts.startBgsaveForReplication, hnil]
      rfl
  | true =>
    have flushed := told.untouched (flush_untouched sv)
    have forked := flushed.holder (flushed.snapshot) hbacklog fun _ => nil_subset _
    refine forked.same .intro (fun sl hsl => ?_) fun hnil _ => ?_
    · obtain ⟨sl, hmem, rfl⟩ := mem_map.mp hsl
      split
      · rintro h ⟨⟩
        exact mem_cons_self
      · exact fun h hh => mem_cons_of_mem _ (told.slaves sl hmem h hh)
    · have hnil : sv.slaves = [] := hnil
      rw [Scripts.startBgsaveForReplication, hnil]
      rfl

lemma Told.foreign (told : Told sv) (hforeign : foreignHolder sv h = true) (hle : h.start ≤ sv.stream.length) : h.Ok sv := by
  rw [foreignHolder, Option.any_eq_true] at hforeign
  obtain ⟨n, hn, hforeign⟩ := hforeign
  simp only [Bool.and_eq_true, decide_eq_true_eq, all_eq_true] at hforeign
  obtain ⟨⟨⟨hforeign, hstart⟩, hbase⟩, hclosed⟩ := hforeign
  obtain ⟨hlen, hrest⟩ := told.inherited n hn
  refine ⟨hle, hbase, fun h => (by cases hforeign.symm.trans h), ?_⟩
  have hsplit : sv.stream.drop h.start = (sv.stream.take n).drop h.start ++ sv.stream.drop n := by
    nth_rewrite 1 [← take_append_drop n sv.stream]
    rw [drop_append_of_le_length]
    rw [length_take]
    exact le_min hstart hle
  rw [hsplit, closed_append, hclosed, Bool.true_and]
  refine closed_mono (known_drop_subset ?_) hrest
  rw [take_take, min_eq_left hstart]
  exact hbase

lemma Told.resume (told : Told sv) (hbacklog : sv.replBacklog = true) (hle : h.start ≤ sv.stream.length)
    (hh : h ∈ sv.holders ∨ foreignHolder sv h = true) (id : Nat) :
    Told { sv with holders := h :: sv.holders, slaves := sv.slaves ++ [⟨id, .online, some h⟩] } := by
  have ok : h.Ok sv := by
    rcases hh with hmem | hforeign
    · exact told.holders h hmem
    · exact told.foreign hforeign hle
  have resumed : Told { sv with holders := h :: sv.holders } := by
    refine told.holder ok hbacklog fun role => (told.cache role).resolve_right fun hnone => ?_
    rcases hh with hmem | hforeign
    · exact ne_nil_of_mem hmem hnone.1
    · rw [foreignHolder, hnone.2] at hforeign
      cases hforeign
  refine resumed.same .intro ?_ fun _ hfreed => ?_
  · refine forall_mem_append.mpr ⟨resumed.slaves, forall_mem_singleton.mpr ?_⟩
    rintro h' ⟨⟩
    exact mem_cons_self
  · exact absurd (hbacklog.symm.trans hfreed) nofun

/-! ### Changes of role -/

lemma told_freeReplicationBacklog (sv : Server S) {role} (hrole : role ≠ .connected) :
    Told { freeReplicationBacklog sv with replState := role, slaves := [] } :=
  ⟨nil_subset _, forall_mem_nil _, forall_mem_nil _, fun _ => .inr ⟨rfl, rfl⟩, nofun,
    fun _ => ⟨rfl, rfl, rfl, rfl, rfl⟩, fun h => absurd h hrole, fun _ => rfl⟩

lemma Told.role (told : Told sv) {slaves} (hslaves : ∀ sl ∈ slaves, sl ∈ sv.slaves) (role : ReplState)
    (hcache : role = .none → sv.scriptcache ⊆ known Cmd.effect [] sv.stream) (hconnected : role ≠ .connected)
    (htransfer : role ≠ .transfer) : Told { sv with replState := role, slaves := slaves } where
  lua := told.lua
  holders h hh := (told.holders h hh).congr rfl rfl
  slaves sl hsl := told.slaves sl (hslaves sl hsl)
  cache hrole := .inl (hcache hrole)
  inherited := told.inherited
  freed hbacklog := by
    obtain ⟨hstream, hown, hholders, hnone, hnil⟩ := told.freed hbacklog
    refine ⟨hstream, hown, hholders, hnone, eq_nil_iff_forall_not_mem.mpr fun sl hsl => ?_⟩
    exact ne_nil_of_mem (hslaves sl hsl) hnil
  connected h := absurd h hconnected
  transfer h := absurd h htransfer

lemma Told.continued (told : Told sv) (hbacklog : sv.replBacklog = true) {slaves}
    (hslaves : ∀ sl ∈ slaves, sl ∈ sv.slaves) :
    Told { sv with replState := .connected, inherited := some sv.stream.length, slaves := slaves } where
  lua := told.lua
  holders h hh := (told.holders h hh).congr rfl rfl
  slaves sl hsl := told.slaves sl (hslaves sl hsl)
  cache := nofun
  inherited := by
    rintro n ⟨⟩
    rw [drop_length]
    exact ⟨le_rfl, rfl⟩
  freed h := absurd (hbacklog.symm.trans h) nofun
  connected _ := hbacklog
  transfer := nofun

lemma Told.loadSnapshot (told : Told sv) (hrole : sv.replState = .transfer) (scripts : List S) (ok : Bool) :
    Told (loadSnapshot sv scripts ok) := by
  rw [Scripts.loadSnapshot]
  have hbacklog := told.transfer hrole
  obtain ⟨hstream, hown, hholders, hnone, hslaves⟩ := told.freed hbacklog
  cases ok with
  | true =>
    rw [if_pos rfl]
    refine ⟨?_, ?_, ?_, nofun, ?_, nofun, fun _ => rfl, nofun⟩
    · rw [hstream]
      exact subset_append_left ..
    · rw [hholders]
      exact forall_mem_nil _
    · rw [hslaves]
      exact forall_mem_nil _
    · rintro n ⟨⟩
      rw [hstream]
      exact ⟨le_rfl, rfl⟩
  | false =>
    refine ⟨?_, ?_, told.slaves, nofun, told.inherited, told.freed, nofun, nofun⟩
    · exact subset_append_of_subset_right _ told.lua
    · exact fun h hh => (told.holders h hh).congr rfl rfl

/-! ### Runs -/

/-- What has to hold when an event occurs: clients flush the scripts of a master only, and a replica becomes a master only
when the stream that it got defines all scripts in its cache. -/
def calm (sv : Server S) : Event S → Bool
  | .client .flush _ _ => sv.replState = .none
  | .replicaofNoOne => sv.scriptcache.all (· ∈ known Cmd.effect [] sv.stream)
  | _ => true

structure Inv (sv : Server S) : Prop where
  told : Told sv
  logged : Logged sv

lemma Inv.untouched (inv : Inv sv) (same : Untouched sv sv') (logged : Logged sv') : Inv sv' :=
  ⟨inv.told.untouched same, logged⟩

lemma Inv.slaves (inv : Inv sv) {slaves} {rdbChild : Bool}
    (hslaves : ∀ sl ∈ slaves, ∀ h, sl.holder = some h → h ∈ sv.holders)
    (hfreed : sv.slaves = [] → sv.replBacklog = false → slaves = []) (hchild : rdbChild = true → sv.aofChild = false) :
    Inv { sv with slaves := slaves, rdbChild := rdbChild } :=
  ⟨inv.told.same .intro hslaves hfreed,
    inv.logged.frame (List.Subset.refl _) hchild⟩

lemma Inv.ensureBacklog (inv : Inv sv) {id : Nat} (hserves : servesSync sv id = true) :
    Inv (ensureBacklog sv) ∧ (ensureBacklog sv).replBacklog = true := by
  rw [Scripts.ensureBacklog]
  split
  case isTrue hnone =>
    have hrole : sv.replState = .none := by
      rw [servesSync, Bool.and_eq_true, Bool.or_eq_true, decide_eq_true_eq, decide_eq_true_eq] at hserves
      exact hserves.1.resolve_right fun h => nomatch (inv.told.connected h).symm.trans hnone.2
    exact ⟨⟨inv.told.createReplicationBacklog hnone.2 hrole, inv.logged.keep⟩, rfl⟩
  case isFalse hsome =>
    refine ⟨inv, Bool.not_eq_false _ |>.mp fun hbacklog => hsome ⟨?_, hbacklog⟩⟩
    rw [(inv.told.freed hbacklog).2.2.2.2]
    rfl

lemma Logged.loadSnapshot (logged : Logged sv) (scripts : List S) (ok : Bool) :
    Logged (loadSnapshot sv scripts ok) := by
  rw [Scripts.loadSnapshot]
  split <;> exact logged.keep

lemma Inv.readSyncBulkPayload (inv : Inv sv) (hrole : sv.replState = .transfer) (scripts : List S) (ok : Bool) :
    Inv (readSyncBulkPayload sv scripts ok) := by
  rw [Scripts.readSyncBulkPayload]
  split
  · exact ⟨inv.told.loadSnapshot hrole scripts ok, inv.logged.loadSnapshot scripts ok⟩
  · have stopped := stopAppendOnly_untouched sv
    have told := (inv.told.untouched stopped).loadSnapshot (stopped.role.trans hrole) scripts ok
    have logged := inv.logged.stopAppendOnly.loadSnapshot scripts ok
    exact ⟨told.untouched (startAppendOnly_untouched _ true), logged.startAppendOnly true⟩

lemma Logged.startBgsaveForReplication (logged : Logged sv) (hidle : sv.aofChild = false) (ok : Bool) :
    Logged (startBgsaveForReplication sv ok) := by
  cases ok with
  | false => exact logged.keep
  | true => exact logged.frame (nil_subset _) fun _ => hidle

lemma Inv.updateSlavesWaitingBgsave (inv : Inv sv) (ok : Bool) : Inv (updateSlavesWaitingBgsave sv ok) := by
  refine inv.slaves (fun sl hsl h hh => ?_) (fun hnil _ => ?_) nofun
  · obtain ⟨sl₀, hmem, hsome⟩ := mem_filterMap.mp hsl
    refine inv.told.slaves sl₀ hmem h ?_
    split at hsome
    · cases ok with
      | false => cases hsome
      | true => cases hsome; exact hh
    · cases hsome
      exact hh
  · rw [hnil]
    rfl

lemma Inv.step {ev : Event S} (inv : Inv sv) (hcalm : calm sv ev = true) (hstep : scriptsStep sv ev = some sv') :
    Inv sv' := by
  cases ev with
  | client cmd dirty force =>
    cases hstep
    refine ⟨inv.told.call ?_ dirty force, inv.logged.call cmd dirty force⟩
    rintro rfl
    exact of_decide_eq_true hcalm
  | master cmd dirty force =>
    obtain ⟨hguard, ⟨⟩⟩ := Option.ite_none_right_eq_some.mp hstep
    refine ⟨inv.told.master hguard.1 hguard.2 dirty force, ?_⟩
    exact (inv.logged.call cmd dirty force).keep
  | cron =>
    obtain ⟨-, ⟨⟩⟩ := Option.ite_none_right_eq_some.mp hstep
    exact inv.untouched (flush_untouched sv) (inv.logged.frame (nil_subset _) inv.logged.single)
  | attach id =>
    obtain ⟨hserves, ⟨⟩⟩ := Option.ite_none_right_eq_some.mp hstep
    obtain ⟨inv, hbacklog⟩ := inv.ensureBacklog hserves
    refine inv.slaves ?_ (fun _ hfreed => absurd (hbacklog.symm.trans hfreed) nofun) inv.logged.single
    exact forall_mem_append.mpr ⟨inv.told.slaves, forall_mem_singleton.mpr nofun⟩
  | startBgsave ok =>
    obtain ⟨hguard, ⟨⟩⟩ := Option.ite_none_left_eq_some.mp hstep
    push Not at hguard
    exact ⟨inv.told.startBgsaveForReplication (Bool.not_eq_false _ |>.mp hguard.2.2) ok,
      inv.logged.startBgsaveForReplication (Bool.eq_false_iff.mpr hguard.2.1) ok⟩
  | join id =>
    obtain ⟨hserves, hstep⟩ := Option.ite_none_right_eq_some.mp hstep
    obtain ⟨sl, hfind, rfl⟩ := Option.map_eq_some_iff.mp hstep
    have hmem := mem_of_find?_eq_some hfind
    refine inv.slaves ?_ (fun hnil _ => absurd hnil (ne_nil_of_mem hmem)) inv.logged.single
    exact forall_mem_append.mpr ⟨inv.told.slaves, forall_mem_singleton.mpr (inv.told.slaves sl hmem)⟩
  | bgsave =>
    obtain ⟨hguard, ⟨⟩⟩ := Option.ite_none_left_eq_some.mp hstep
    push Not at hguard
    exact inv.slaves inv.told.slaves (fun h _ => h) fun _ => Bool.eq_false_iff.mpr hguard.2
  | bgsaveDone ok =>
    obtain ⟨-, ⟨⟩⟩ := Option.ite_none_right_eq_some.mp hstep
    exact inv.updateSlavesWaitingBgsave ok
  | disconnect id =>
    cases hstep
    refine inv.slaves (fun sl hsl => inv.told.slaves sl (mem_of_mem_filter hsl)) (fun h _ => ?_) inv.logged.single
    rw [h]
    rfl
  | resume id h offset =>
    obtain ⟨⟨-, hbacklog, hstart, hoffset, hh⟩, ⟨⟩⟩ := Option.ite_none_right_eq_some.mp hstep
    exact ⟨inv.told.resume hbacklog (hstart.trans hoffset) hh id, inv.logged.keep⟩
  | freeBacklog =>
    obtain ⟨⟨hslaves, hrole⟩, ⟨⟩⟩ := Option.ite_none_right_eq_some.mp hstep
    have hsame : freeReplicationBacklog sv = { freeReplicationBacklog sv with replState := .none, slaves := [] } := by
      rw [freeReplicationBacklog, hrole, List.isEmpty_iff.mp hslaves]
    rw [hsame]
    exact ⟨told_freeReplicationBacklog sv nofun, inv.logged.keep⟩
  | replicaof =>
    cases hstep
    exact ⟨inv.told.role (forall_mem_nil _) .connect nofun nofun nofun, inv.logged.keep⟩
  | replicaofNoOne =>
    obtain ⟨-, ⟨⟩⟩ := Option.ite_none_left_eq_some.mp hstep
    have hcache : sv.scriptcache ⊆ known Cmd.effect [] sv.stream := fun x hx =>
      of_decide_eq_true (all_eq_true.mp hcalm x hx)
    exact ⟨inv.told.role (forall_mem_nil _) .none (fun _ => hcache) nofun nofun, inv.logged.keep⟩
  | masterLost =>
    obtain ⟨-, ⟨⟩⟩ := Option.ite_none_left_eq_some.mp hstep
    exact ⟨inv.told.role (fun _ h => h) .connect nofun nofun nofun, inv.logged.keep⟩
  | continued idChanged =>
    obtain ⟨hguard, ⟨⟩⟩ := Option.ite_none_right_eq_some.mp hstep
    refine ⟨inv.told.continued hguard.2 fun sl hsl => ?_, inv.logged.keep⟩
    cases idChanged with
    | true => cases hsl
    | false => exact hsl
  | fullResync =>
    obtain ⟨-, ⟨⟩⟩ := Option.ite_none_right_eq_some.mp hstep
    exact ⟨told_freeReplicationBacklog sv nofun, inv.logged.keep⟩
  | loaded scripts ok =>
    obtain ⟨hrole, ⟨⟩⟩ := Option.ite_none_right_eq_some.mp hstep
    exact inv.readSyncBulkPayload hrole scripts ok
  | startAppendOnly forkOk =>
    obtain ⟨-, ⟨⟩⟩ := Option.ite_none_right_eq_some.mp hstep
    exact inv.untouched (startAppendOnly_untouched sv forkOk) (inv.logged.startAppendOnly forkOk)
  | stopAppendOnly =>
    obtain ⟨-, ⟨⟩⟩ := Option.ite_none_left_eq_some.mp hstep
    exact inv.untouched (stopAppendOnly_untouched sv) inv.logged.stopAppendOnly
  | rewrite forkOk => exact inv.untouched (rewrite_untouched hstep) (inv.logged.rewrite hstep _ id)
  | rewriteDone ok =>
    obtain ⟨hchild, ⟨⟩⟩ := Option.ite_none_right_eq_some.mp hstep
    exact inv.untouched .intro (inv.logged.backgroundRewriteDoneHandler hchild ok)

/-- Each script that is used by its hash is defined for every attached replica by its snapshot and its stream, and in
the AOF, and in what a rewrite adds to the new AOF. -/
structure Defines (sv : Server S) : Prop where
  replicas : ∀ sl ∈ sv.slaves, ∀ h, sl.holder = some h → closed Cmd.effect h.base (sv.stream.drop h.start) = true
  aof : sv.aofState = .on → closed Cmd.effect [] sv.aof = true
  rewrite : sv.aofState ≠ .off → sv.aofChild = true → closed Cmd.effect [] sv.aofRewriteBuf = true

lemma Inv.defines (inv : Inv sv) : Defines sv where
  replicas sl hsl h hh := (inv.told.holders h (inv.told.slaves sl hsl h hh)).closed
  aof hon := (inv.logged.aof hon).1
  rewrite hoff hchild := (inv.logged.buf hoff hchild).1

lemma scriptsStart_inv (aofState : AofState) : Inv (scriptsStart aofState : Server S) where
  told :=
    ⟨nil_subset _, forall_mem_nil _, forall_mem_nil _, fun _ => .inr ⟨rfl, rfl⟩, nofun,
      fun _ => ⟨rfl, rfl, rfl, rfl, rfl⟩, nofun, nofun⟩
  logged := ⟨fun _ => ⟨rfl, nil_subset _⟩, nofun, fun _ => rfl, nofun⟩

/-- In a run in which clients flush the scripts of a master only, and a replica becomes a master only when its stream
defines all scripts in its cache, no script is propagated by its hash to somebody who lacks it. -/
theorem evalsha_defined {aofState : AofState} {evs : List (Event S)}
    (hcalm : Along scriptsStep (fun sv ev => calm sv ev = true) (scriptsStart aofState) evs)
    (hrun : run scriptsStep (scriptsStart aofState) evs = some sv) : Defines sv := by
  have inv : Inv sv := run_invariant_along (fun inv hcalm hstep => inv.step hcalm hstep) (scriptsStart_inv aofState) hcalm hrun
  exact inv.defines

/-- A replica with two replicas of its own becomes a master, and one of them resumes. -/
def failoverRun : List (Event Nat) :=
  [.replicaof, .fullResync, .loaded [7] true, .rewriteDone true, .attach 1, .startBgsave true, .join 2, .bgsaveDone true,
    .master (.load 5) false false, .master (.evalsha 5) true false, .replicaofNoOne, .resume 1 ⟨[7], 0, false⟩ 1,
    .client (.evalsha 5) true false]

theorem failoverRun_evalsha_defined :
    ∃ sv, run scriptsStep (scriptsStart .on) failoverRun = some sv ∧ sv.stream = [.load 5, .evalsha 5, .evalsha 5] ∧
      Defines sv := by
  have hcalm : Along scriptsStep (fun sv ev => calm sv ev = true) (scriptsStart .on) failoverRun :=
    along_of_check id (by decide +kernel)
  obtain ⟨sv, hrun, hstream⟩ := run_checked scriptsStep (scriptsStart .on) failoverRun
    (p := fun sv => sv.stream = [.load 5, .evalsha 5, .evalsha 5]) (by decide +kernel)
  exact ⟨sv, hrun, of_decide_eq_true hstream, evalsha_defined hcalm hrun⟩

/-- A replica runs a script, becomes a master, and runs the script again. -/
def cachedRun : List (Event Nat) :=
  [.replicaof, .fullResync, .loaded [] true, .rewriteDone true, .attach 1, .startBgsave true, .bgsaveDone true,
    .client (.load 5) false false, .client (.evalsha 5) false false, .replicaofNoOne, .resume 1 ⟨[], 0, false⟩ 0,
    .client (.evalsha 5) true false]

/-- The replica is sent the hash of a script that it has never seen. -/
theorem cachedRun_not_defined : ∃ sv, run scriptsStep (scriptsStart .on) cachedRun = some sv ∧ ¬Defines sv := by
  obtain ⟨sv, hrun, hlacks⟩ := run_checked scriptsStep (scriptsStart .on) cachedRun
    (p := fun sv => sv.stream = [.evalsha 5] && sv.slaves.any fun sl => sl.holder = some ⟨[], 0, false⟩) (by decide +kernel)
  refine ⟨sv, hrun, fun defines => ?_⟩
  rw [Bool.and_eq_true, decide_eq_true_eq, any_eq_true] at hlacks
  obtain ⟨hstream, sl, hsl, hholder⟩ := hlacks
  have hclosed := defines.replicas sl hsl _ (of_decide_eq_true hholder)
  rw [hstream] at hclosed
  cases hclosed

end JitRedis.Replication.Scripts
