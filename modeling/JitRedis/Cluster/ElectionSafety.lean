import JitRedis.Cluster.Election

/-!
# Safety of cluster elections

Votes leave a master with growing epochs, because `lastVoteEpoch` is saved before they do. A replica asks for votes with
growing epochs too, so that a vote it counts is for the election that is under way, as long as none arrives while the
next election is only scheduled. Two majorities of the voters have a voter in common.
-/

set_option linter.unusedSectionVars false

namespace JitRedis.Cluster

open Runs List Function

variable {Node : Type} [DecidableEq Node] {voters : Finset Node} {n : Node} {st st' : ClusterState Node}
  {s s' : ClusterRun Node} {cfg : ServerConfig}

/-- A vote arrives only while the election it was asked for is under way, not while the next one is scheduled. -/
def Calm (s : ClusterRun Node) : ClusterEvent Node → Prop
  | .processPacket src dst _ _ => ∀ hdr ∈ (s.links src dst).head?, hdr.type = .failoverAuthAck →
      countsVote (s.nodes dst) src hdr = true → (s.nodes dst).failoverAuthSent = true
  | _ => True

instance (s : ClusterRun Node) (ev : ClusterEvent Node) : Decidable (Calm s ev) :=
  match ev with
  | .processPacket src dst _ _ => inferInstanceAs (Decidable (∀ hdr ∈ (s.links src dst).head?, _))
  | .handleSlaveFailover .. | .lose .. | .sendPing .. | .updateTable .. | .bumpEpoch .. | .manualFailover ..
  | .saveConfig .. | .beforeSleep .. | .restart .. => .isTrue trivial

section Invariant

/-- The node asked for votes in an epoch, and the request has left it. -/
structure Asked (st : ClusterState Node) (e : Nat) : Prop where
  current : e ≤ st.currentEpoch
  election : st.failoverAuthSent = true → e ≤ st.failoverAuthEpoch
  saved : e ≤ st.saved.currentEpoch

structure NodeOk (voters : Finset Node) (n : Node) (st : ClusterState Node) : Prop where
  knows : st.table.Knows voters n
  savedKnows : st.saved.table.Knows voters n
  voted : st.lastVoteEpoch ≤ st.currentEpoch
  savedVoted : st.saved.lastVoteEpoch ≤ st.saved.currentEpoch
  lastVote : st.saved.lastVoteEpoch ≤ st.lastVoteEpoch
  election : st.failoverAuthSent = true → st.failoverAuthEpoch ≤ st.currentEpoch
  count : st.failoverAuthCount = st.votes.length
  idle : st.failoverAuthSent = false → st.votes = []
  counted : ∀ v ∈ st.votes, v.2 = st.failoverAuthEpoch ∧ v.1 ∈ voters
  requests : ∀ m ∈ st.sndbuf, m.2.type = .failoverAuthRequest → m.2.currentEpoch ≤ st.currentEpoch ∧
    (st.failoverAuthSent = true → m.2.currentEpoch ≤ st.failoverAuthEpoch) ∧
    (st.todoSave = false → m.2.currentEpoch ≤ st.saved.currentEpoch)
  grants : ∀ m ∈ st.sndbuf, m.2.type = .failoverAuthAck → m.2.currentEpoch ≤ st.lastVoteEpoch ∧
    (st.todoSave = false → m.2.currentEpoch ≤ st.saved.lastVoteEpoch)

/-- The epochs of the votes among some messages. -/
def ackEpochs (l : List ClusterMsg) : List Nat :=
  (l.filter fun m => m.type = .failoverAuthAck).map (·.currentEpoch)

def sentEpochs (acks : List (Ack Node)) (v : Node) : List Nat := (acks.filter (·.voter = v)).map (·.epoch)

def sentTo (acks : List (Ack Node)) (v c : Node) : List Nat :=
  (acks.filter fun a => a.voter = v ∧ a.candidate = c).map (·.epoch)

def countedEpochs (votes : List (Node × Nat)) (v : Node) : List Nat := (votes.filter (·.1 = v)).map (·.2)

lemma ackEpochs_cons {m l} (h : m.type = .failoverAuthAck) :
    ackEpochs (m :: l) = m.currentEpoch :: ackEpochs l := by
  simp [ackEpochs, h]

lemma mem_sentTo {acks} {v c : Node} {e : Nat} : e ∈ sentTo acks v c ↔ ⟨v, c, e⟩ ∈ acks := by
  rw [sentTo, mem_map]
  constructor
  · rintro ⟨a, ha, rfl⟩
    obtain ⟨hmem, hvc⟩ := mem_filter.mp ha
    obtain ⟨rfl, rfl⟩ := of_decide_eq_true hvc
    exact hmem
  · exact fun ha => ⟨_, mem_filter.mpr ⟨ha, decide_eq_true ⟨rfl, rfl⟩⟩, rfl⟩

lemma countedEpochs_concat_self {votes} {v : Node} {e : Nat} :
    countedEpochs (votes ++ [(v, e)]) v = countedEpochs votes v ++ [e] := by
  simp [countedEpochs]

lemma countedEpochs_concat_of_ne {votes} {v w : Node} {e : Nat} (h : w ≠ v) :
    countedEpochs (votes ++ [(w, e)]) v = countedEpochs votes v := by
  simp [countedEpochs, h]

/-- A majority of the voters has voted for a node in an epoch. -/
def Elected (voters : Finset Node) (acks : List (Ack Node)) (n : Node) (e : Nat) : Prop :=
  ∃ quorum ⊆ voters, voters.card < 2 * quorum.card ∧ ∀ v ∈ quorum, (⟨v, n, e⟩ : Ack Node) ∈ acks

structure ElectionInv (voters : Finset Node) (s : ClusterRun Node) : Prop where
  node : ∀ n, NodeOk voters n (s.nodes n)
  ledger : ∀ v, (sentEpochs s.acks v ++ (pendingAcks v (s.nodes v).sndbuf).map (·.epoch)).Pairwise (· < ·)
  savedVotes : ∀ a ∈ s.acks, a.epoch ≤ (s.nodes a.voter).saved.lastVoteEpoch
  asked : ∀ a ∈ s.acks, Asked (s.nodes a.candidate) a.epoch
  askedPending : ∀ v, ∀ a ∈ pendingAcks v (s.nodes v).sndbuf, Asked (s.nodes a.candidate) a.epoch
  askedRequest : ∀ n dst, ∀ m ∈ s.links n dst, m.type = .failoverAuthRequest → Asked (s.nodes n) m.currentEpoch
  chain : ∀ v c, (countedEpochs (s.nodes c).votes v ++ ackEpochs (s.links v c)).Sublist (sentTo s.acks v c)
  won : ∀ w ∈ s.victories, Elected voters s.acks w.1 w.2

end Invariant

section Frames

lemma ElectionInv.setNode (h : ElectionInv voters s) (ok : NodeOk voters n st')
    (asked : ∀ e, Asked (s.nodes n) e → Asked st' e)
    (savedVote : (s.nodes n).saved.lastVoteEpoch ≤ st'.saved.lastVoteEpoch)
    (ledger : (sentEpochs s.acks n ++ (pendingAcks n st'.sndbuf).map (·.epoch)).Pairwise (· < ·))
    (pending : ∀ a ∈ pendingAcks n st'.sndbuf, Asked (s.nodes a.candidate) a.epoch)
    (chain : ∀ v, (countedEpochs st'.votes v ++ ackEpochs (s.links v n)).Sublist (sentTo s.acks v n)) :
    ElectionInv voters (s.setNode n st') := by
  have hasked : ∀ m e, Asked (s.nodes m) e → Asked (update s.nodes n st' m) e := by
    intro m e
    revert m
    exact (forall_update_iff s.nodes fun m x => Asked (s.nodes m) e → Asked x e).mpr
      ⟨asked e, fun _ _ => id⟩
  constructor
  case node => exact (forall_update_iff s.nodes fun m x => NodeOk voters m x).mpr ⟨ok, fun m _ => h.node m⟩
  case ledger =>
    exact (forall_update_iff s.nodes fun v x =>
      (sentEpochs s.acks v ++ (pendingAcks v x.sndbuf).map (·.epoch)).Pairwise (· < ·)).mpr
        ⟨ledger, fun v _ => h.ledger v⟩
  case savedVotes =>
    have hle := (forall_update_iff s.nodes fun v x =>
      ∀ a ∈ s.acks, a.voter = v → a.epoch ≤ x.saved.lastVoteEpoch).mpr
        ⟨fun a ha hv => (hv ▸ h.savedVotes a ha).trans savedVote, fun v _ a ha hv => hv ▸ h.savedVotes a ha⟩
    exact fun a ha => hle a.voter a ha rfl
  case asked => exact fun a ha => hasked _ _ (h.asked a ha)
  case askedPending =>
    exact (forall_update_iff s.nodes fun v x =>
      ∀ a ∈ pendingAcks v x.sndbuf, Asked (update s.nodes n st' a.candidate) a.epoch).mpr
        ⟨fun a ha => hasked _ _ (pending a ha), fun v _ a ha => hasked _ _ (h.askedPending v a ha)⟩
  case askedRequest => exact fun m dst msg hm ht => hasked _ _ (h.askedRequest m dst msg hm ht)
  case chain =>
    intro v
    exact (forall_update_iff s.nodes fun c x =>
      (countedEpochs x.votes v ++ ackEpochs (s.links v c)).Sublist (sentTo s.acks v c)).mpr
        ⟨chain v, fun c _ => h.chain v c⟩
  case won => exact h.won

/-- What a change of a node's state keeps, when it neither votes nor counts a vote. -/
structure Quiet (n : Node) (st st' : ClusterState Node) : Prop where
  asked : ∀ e, Asked st e → Asked st' e
  savedVote : st.saved.lastVoteEpoch ≤ st'.saved.lastVoteEpoch
  acks : (pendingAcks n st'.sndbuf).Sublist (pendingAcks n st.sndbuf)
  votes : st'.votes.Sublist st.votes

lemma Quiet.refl : Quiet n st st := ⟨fun _ h => h, le_rfl, .refl _, .refl _⟩

lemma Quiet.trans {st''} (h : Quiet n st st') (h' : Quiet n st' st'') : Quiet n st st'' :=
  ⟨fun e he => h'.asked e (h.asked e he), h.savedVote.trans h'.savedVote, h'.acks.trans h.acks,
    h'.votes.trans h.votes⟩

/-- A quiet change into a proper state. -/
structure Advances (voters : Finset Node) (n : Node) (st st' : ClusterState Node) : Prop extends Quiet n st st' where
  ok : NodeOk voters n st'

lemma NodeOk.refl (h : NodeOk voters n st) : Advances voters n st st := ⟨.refl, h⟩

lemma Quiet.andThen {st''} (h : Quiet n st st') (h' : Advances voters n st' st'') : Advances voters n st st'' :=
  ⟨h.trans h'.toQuiet, h'.ok⟩

lemma ElectionInv.quiet (h : ElectionInv voters s) (quiet : Advances voters n (s.nodes n) st') :
    ElectionInv voters (s.setNode n st') := by
  refine h.setNode quiet.ok quiet.asked quiet.savedVote ?_ (fun a ha => h.askedPending n a (quiet.acks.subset ha))
    fun v => ?_
  · exact (h.ledger n).sublist ((quiet.acks.map _).append_left _)
  · exact (((quiet.votes.filter _).map _).append_right _).trans (h.chain v n)

lemma ElectionInv.setLink (h : ElectionInv voters s) {src dst} {l}
    (sub : l.Sublist (s.links src dst)) : ElectionInv voters (s.setLink src dst l) := by
  have hlinks : ∀ a b, ((s.setLink src dst l).links a b).Sublist (s.links a b) := by
    refine (forall_update_iff s.links fun a x => ∀ b, (x b).Sublist (s.links a b)).mpr ⟨?_, fun a _ b => .refl _⟩
    exact (forall_update_iff (s.links src) fun b x => x.Sublist (s.links src b)).mpr ⟨sub, fun b _ => .refl _⟩
  constructor
  case node => exact h.node
  case ledger => exact h.ledger
  case savedVotes => exact h.savedVotes
  case asked => exact h.asked
  case askedPending => exact h.askedPending
  case askedRequest => exact fun m b msg hm ht => h.askedRequest m b msg ((hlinks m b).subset hm) ht
  case chain => exact fun v c => ((((hlinks v c).filter _).map _).append_left _).trans (h.chain v c)
  case won => exact h.won

end Frames

section Sending

lemma pendingAcks_append (a b : List (Node × ClusterMsg)) :
    pendingAcks n (a ++ b) = pendingAcks n a ++ pendingAcks n b := filterMap_append

lemma pendingAcks_append_of_noack {a b} (h : ∀ m ∈ b, m.2.type ≠ .failoverAuthAck) :
    pendingAcks n (a ++ b) = pendingAcks n a := by
  have hb : pendingAcks n b = [] := filterMap_eq_nil_iff.mpr fun m hm => if_neg (h m hm)
  rw [pendingAcks_append, hb, append_nil]

lemma exists_of_mem_pendingAcks {l a} (h : a ∈ pendingAcks n l) :
    ∃ m ∈ l, m.2.type = .failoverAuthAck ∧ a = ⟨n, m.1, m.2.currentEpoch⟩ := by
  obtain ⟨m, hm, hma⟩ := mem_filterMap.mp h
  by_cases ht : m.2.type = .failoverAuthAck
  · rw [if_pos ht] at hma
    exact ⟨m, hm, ht, (Option.some.inj hma).symm⟩
  · rw [if_neg ht] at hma
    cases hma

lemma NodeOk.send (h : NodeOk voters n st) {msgs} (ping : ∀ m ∈ msgs, m.2.type = .ping) :
    NodeOk voters n { st with sndbuf := st.sndbuf ++ msgs } := by
  refine { h with requests := forall_mem_append.mpr ⟨h.requests, fun m hm ht => ?_⟩,
                  grants := forall_mem_append.mpr ⟨h.grants, fun m hm ht => ?_⟩ }
  · rw [ping m hm] at ht
    cases ht
  · rw [ping m hm] at ht
    cases ht

lemma Quiet.send {msgs} (noack : ∀ m ∈ msgs, m.2.type ≠ .failoverAuthAck) :
    Quiet n st { st with sndbuf := st.sndbuf ++ msgs } := by
  refine ⟨fun e h => ⟨h.current, h.election, h.saved⟩, le_rfl, ?_, .refl _⟩
  rw [pendingAcks_append_of_noack noack]

lemma broadcast_ping {me : Node} {peers : List Node} {m : ClusterMsg} (ping : m.type = .ping) :
    ∀ x ∈ (peers.filter (· ≠ me)).map fun dst => (dst, m), x.2.type = .ping := by
  intro x hx
  obtain ⟨dst, -, rfl⟩ := mem_map.mp hx
  exact ping

end Sending

section Functions

lemma NodeTable.Knows.modify {t : NodeTable Node} (h : t.Knows voters n) {x : Node}
    {f : ClusterNode Node → ClusterNode Node} (serving : (f (t.node x)).serving = (t.node x).serving)
    (master : (f (t.node x)).master = (t.node x).master) : (t.modify x f).Knows voters n := by
  have hnode : ∀ y, ((t.modify x f).node y).serving = (t.node y).serving ∧
      ((t.modify x f).node y).master = (t.node y).master :=
    (forall_update_iff t.node fun y nd =>
      nd.serving = (t.node y).serving ∧ nd.master = (t.node y).master).mpr ⟨⟨serving, master⟩, fun _ _ => ⟨rfl, rfl⟩⟩
  refine ⟨fun y hy hs => h.1 y hy ((hnode y).1 ▸ hs), fun hm => h.2 ((hnode n).2 ▸ hm)⟩

lemma NodeOk.raise (h : NodeOk voters n st) {e} (le : st.currentEpoch ≤ e) {table}
    (knows : table.Knows voters n) {todo} (due : st.todoSave = true → todo = true) :
    NodeOk voters n { st with currentEpoch := e, table, todoSave := todo } := by
  have hdue : todo = false → st.todoSave = false := by
    intro ht
    cases hs : st.todoSave with
    | false => rfl
    | true => rw [due hs] at ht; cases ht
  refine { h with knows, voted := h.voted.trans le, election := fun hs => (h.election hs).trans le, requests := ?_,
                  grants := ?_ }
  · intro m hm ht
    obtain ⟨hc, he, hs⟩ := h.requests m hm ht
    exact ⟨hc.trans le, he, fun h => hs (hdue h)⟩
  · intro m hm ht
    obtain ⟨hl, hs⟩ := h.grants m hm ht
    exact ⟨hl, fun h => hs (hdue h)⟩

lemma Quiet.raise {e} (le : st.currentEpoch ≤ e) {table} {todo} :
    Quiet n st { st with currentEpoch := e, table, todoSave := todo } :=
  ⟨fun _ h => ⟨h.current.trans le, h.election, h.saved⟩, le_rfl, .refl _, .refl _⟩

lemma updateEpochs_ok (h : NodeOk voters n st) (sender : Node) (hdr : ClusterMsg) :
    Advances voters n st (updateEpochs st sender hdr) := by
  rw [updateEpochs]
  split
  · exact ⟨.raise (le_max_left ..), h.raise (le_max_left ..) (h.knows.modify rfl rfl) fun _ => rfl⟩
  · exact ⟨.raise (le_max_left ..), h.raise (le_max_left ..) h.knows id⟩

/-- What `updateEpochs` leaves of a node. -/
structure EpochsFrame (st st' : ClusterState Node) (sender : Node) (hdr : ClusterMsg) : Prop where
  currentEpoch : st'.currentEpoch = max st.currentEpoch hdr.currentEpoch
  lastVoteEpoch : st'.lastVoteEpoch = st.lastVoteEpoch
  failoverAuthSent : st'.failoverAuthSent = st.failoverAuthSent
  failoverAuthEpoch : st'.failoverAuthEpoch = st.failoverAuthEpoch
  saved : st'.saved = st.saved
  sndbuf : st'.sndbuf = st.sndbuf
  votes : st'.votes = st.votes
  countsVote : countsVote st' sender hdr = countsVote st sender hdr

lemma updateEpochs_frame (st : ClusterState Node) (sender : Node) (hdr : ClusterMsg) :
    EpochsFrame st (updateEpochs st sender hdr) sender hdr := by
  rw [updateEpochs]
  split
  · refine ⟨rfl, rfl, rfl, rfl, rfl, rfl, rfl, ?_⟩
    simp only [countsVote, NodeTable.modify, update_self]
    rfl
  · exact ⟨rfl, rfl, rfl, rfl, rfl, rfl, rfl, rfl⟩

lemma saveConfig_ok (h : NodeOk voters n st) (todo : Bool) :
    NodeOk voters n { clusterSaveConfig st with todoSave := todo } := by
  refine { h with savedKnows := h.knows, savedVoted := h.voted, lastVote := le_rfl, requests := ?_, grants := ?_ }
  · intro m hm ht
    obtain ⟨hc, he, -⟩ := h.requests m hm ht
    exact ⟨hc, he, fun _ => hc⟩
  · intro m hm ht
    obtain ⟨hl, -⟩ := h.grants m hm ht
    exact ⟨hl, fun _ => hl⟩

lemma saveConfig_quiet (h : NodeOk voters n st) (todo : Bool) : Quiet n st { clusterSaveConfig st with todoSave := todo } :=
  ⟨fun _ he => ⟨he.current, he.election, he.current⟩, h.lastVote, .refl _, .refl _⟩

lemma beforeSleep_ok (h : NodeOk voters n st) :
    Advances voters n st (clusterBeforeSleep st) ∧ (clusterBeforeSleep st).todoSave = false := by
  rw [clusterBeforeSleep]
  split_ifs with hsave
  · exact ⟨⟨saveConfig_quiet h false, saveConfig_ok h false⟩, rfl⟩
  · exact ⟨h.refl, by simpa using hsave⟩

lemma le_clusterGetMaxEpoch (nodes : List Node) (c : ClusterConfig Node) :
    c.currentEpoch ≤ clusterGetMaxEpoch nodes c := by
  have hfold : ∀ e, e ≤ nodes.foldl (fun m n => max m (c.table.node n).configEpoch) e := by
    induction nodes with
    | nil => exact fun e => le_rfl
    | cons x nodes ih => exact fun e => (le_max_left ..).trans (ih _)
  exact hfold _

lemma restart_ok (h : NodeOk voters n st) (nodes : List Node) : Advances voters n st (clusterRestart nodes st) := by
  have hmax := le_clusterGetMaxEpoch nodes st.saved
  refine ⟨⟨fun e he => ⟨he.saved.trans hmax, nofun, he.saved⟩, le_rfl, nil_sublist _, nil_sublist _⟩, ?_⟩
  exact { knows := h.savedKnows, savedKnows := h.savedKnows, voted := h.savedVoted.trans hmax,
          savedVoted := h.savedVoted, lastVote := le_rfl, election := nofun, count := rfl, idle := fun _ => rfl,
          counted := nofun, requests := nofun, grants := nofun }

end Functions

section Failover

variable (inp : FailoverInput Node)

lemma broadcast_ok (h : NodeOk voters n st) (peers : List Node) {m : ClusterMsg} (ping : m.type = .ping) :
    Advances voters n st (clusterBroadcastMessage n st peers m) := by
  refine ⟨.send fun x hx => ?_, h.send (broadcast_ping ping)⟩
  rw [broadcast_ping ping x hx]
  exact nofun

lemma resetAuth_ok (h : NodeOk voters n st) (time : Int) (rank : Nat) :
    Advances voters n st (resetAuth st time rank) := by
  refine ⟨⟨fun _ he => ⟨he.current, nofun, he.saved⟩, le_rfl, .refl _, nil_sublist _⟩, ?_⟩
  refine { h with election := nofun, count := rfl, idle := fun _ => rfl, counted := nofun, requests := ?_ }
  intro m hm ht
  obtain ⟨hc, -, hs⟩ := h.requests m hm ht
  exact ⟨hc, nofun, hs⟩

lemma scheduleElection_ok (h : NodeOk voters n st) : Advances voters n st (scheduleElection inp n st) := by
  rw [scheduleElection]
  have reset := resetAuth_ok h
  split
  · exact (reset _ _).andThen (broadcast_ok (reset _ _).ok inp.slaves rfl)
  · exact (reset _ _).andThen (broadcast_ok (reset _ _).ok inp.slaves rfl)

lemma updateRank_ok (h : NodeOk voters n st) : Advances voters n st (updateRank inp st) := by
  rw [updateRank]
  split
  · exact ⟨⟨fun _ he => ⟨he.current, he.election, he.saved⟩, le_rfl, .refl _, .refl _⟩, { h with knows := h.knows }⟩
  · exact h.refl

lemma updateRank_frame (st : ClusterState Node) :
    (updateRank inp st).table = st.table ∧ (updateRank inp st).failoverAuthEpoch = st.failoverAuthEpoch ∧
      (updateRank inp st).votes = st.votes := by
  rw [updateRank]
  split <;> exact ⟨rfl, rfl, rfl⟩

lemma startElection_ok (h : NodeOk voters n st) (idle : st.failoverAuthSent = false) :
    Advances voters n st (startElection inp n st) := by
  have hvotes := h.idle idle
  have hreq : ∀ x ∈ (startElection inp n st).sndbuf, x ∈ st.sndbuf ∨
      x.2.type = .failoverAuthRequest ∧ x.2.currentEpoch = st.currentEpoch + 1 := by
    intro x hx
    rcases mem_append.mp hx with hx | hx
    · exact .inl hx
    · obtain ⟨dst, -, rfl⟩ := mem_map.mp hx
      exact .inr ⟨rfl, rfl⟩
  refine ⟨⟨fun e he => ?_, le_rfl, ?_, .refl _⟩, ?_⟩
  · have hle := he.current.trans (Nat.le_succ _)
    exact ⟨hle, fun _ => hle, he.saved⟩
  · have hsame : pendingAcks n (startElection inp n st).sndbuf = pendingAcks n st.sndbuf := by
      refine pendingAcks_append_of_noack fun x hx => ?_
      obtain ⟨dst, -, rfl⟩ := mem_map.mp hx
      exact nofun
    rw [hsame]
  refine { h with voted := h.voted.trans (Nat.le_succ _), election := fun _ => le_rfl, idle := nofun, counted := ?_,
                  requests := ?_, grants := ?_ }
  · intro v hv
    have hv' : v ∈ st.votes := hv
    rw [hvotes] at hv'
    cases hv'
  · intro m hm ht
    rcases hreq m hm with old | ⟨-, he⟩
    · obtain ⟨hc, -, -⟩ := h.requests m old ht
      exact ⟨hc.trans (Nat.le_succ _), fun _ => hc.trans (Nat.le_succ _), nofun⟩
    · exact ⟨he.le, fun _ => he.le, nofun⟩
  · intro m hm ht
    rcases hreq m hm with old | ⟨ht', -⟩
    · exact ⟨(h.grants m old ht).1, nofun⟩
    · rw [ht'] at ht
      cases ht

lemma replaceYourMaster_ok (h : NodeOk voters n st) (peers : List Node) :
    Advances voters n st (clusterFailoverReplaceYourMaster n st peers) := by
  rw [clusterFailoverReplaceYourMaster]
  split
  · exact h.refl
  rename_i oldmaster _
  split
  · exact h.refl
  extract_lets lost t₁ t₂ t₃ t₄ st₁ st₂
  have knows : t₄.Knows voters n := by
    constructor
    · intro x hx hs
      have h₁ : t₄.node x = t₂.node x := update_of_ne hx _ _
      have h₂ : t₁.node x = st.table.node x := update_of_ne hx _ _
      rw [h₁] at hs
      by_cases hold : x = oldmaster
      · subst hold
        have hempty : (t₂.node x).slots = [] := by
          rw [show t₂.node x = { t₁.node x with slots := [] } from update_self ..]
        rw [ClusterNode.serving, hempty, isEmpty_nil, Bool.not_true, Bool.and_false] at hs
        cases hs
      · have h₃ : t₂.node x = t₁.node x := update_of_ne hold _ _
        rw [h₃, h₂] at hs
        exact h.knows.1 x hx hs
    · intro hm
      have hnode : (t₄.node n).master = (t₂.node n).master := by
        rw [show t₄.node n = { t₂.node n with slots := (t₂.node n).slots ++ lost } from update_self ..]
      have hold : (t₂.node n).master = (t₁.node n).master := by
        by_cases hno : n = oldmaster
        · subst hno
          rw [show t₂.node n = { t₁.node n with slots := [] } from update_self ..]
        · rw [show t₂.node n = t₁.node n from update_of_ne hno _ _]
      have hmine : (t₁.node n).master = true := by
        rw [show t₁.node n = { st.table.node n with master := true, slaveof := none } from update_self ..]
      rw [hnode, hold, hmine] at hm
      cases hm
  have moved : NodeOk voters n { st with table := t₄ } := { h with knows }
  have ok₁ : NodeOk voters n st₁ := saveConfig_ok moved st.todoSave
  have quiet₁ : Quiet n st st₁ :=
    ⟨fun _ he => ⟨he.current, he.election, he.current⟩, h.lastVote, .refl _, .refl _⟩
  have sent := quiet₁.andThen (broadcast_ok ok₁ peers (m := clusterBuildMessageHdr n st₁ .ping) rfl)
  exact ⟨⟨fun e he => ⟨(sent.asked e he).current, (sent.asked e he).election, (sent.asked e he).saved⟩,
    sent.savedVote, sent.acks, sent.votes⟩, { sent.ok with knows := sent.ok.knows }⟩

lemma winElection_ok (h : NodeOk voters n st) : Advances voters n st (winElection inp n st) := by
  have knows : (st.table.modify n fun nd =>
      { nd with configEpoch := max nd.configEpoch st.failoverAuthEpoch }).Knows voters n := h.knows.modify rfl rfl
  exact (Quiet.raise le_rfl).andThen (replaceYourMaster_ok (h.raise le_rfl knows id) inp.peers)

lemma winElection_frame (st : ClusterState Node) :
    (winElection inp n st).failoverAuthEpoch = st.failoverAuthEpoch := by
  rw [winElection, clusterFailoverReplaceYourMaster]
  split
  · rfl
  · split <;> rfl

lemma slave_of_mayFailover (h : ¬ mayFailover cfg inp n st = false) : (st.table.node n).master = false := by
  rw [mayFailover] at h
  cases hm : (st.table.node n).master with
  | false => rfl
  | true =>
    refine absurd ?_ h
    split
    · rfl
    · rw [hm]
      rfl

lemma proceedElection_ok (h : NodeOk voters n st) (slave : (st.table.node n).master = false) (expired : Bool) :
    Advances voters n st (proceedElection inp n st expired).1 ∧ ((proceedElection inp n st expired).2 = true →
      (proceedElection inp n st expired).1.failoverAuthEpoch = st.failoverAuthEpoch ∧
      voters.card < 2 * st.votes.length) := by
  rw [proceedElection]
  split
  · exact ⟨h.refl, nofun⟩
  split
  · exact ⟨h.refl, nofun⟩
  split
  · rename_i idle
    exact ⟨startElection_ok inp h idle, nofun⟩
  split
  · rename_i quorum
    refine ⟨winElection_ok inp h, fun _ => ⟨winElection_frame inp st, ?_⟩⟩
    rw [h.knows.2 slave, h.count] at quorum
    omega
  · exact ⟨h.refl, nofun⟩

lemma handleSlaveFailover_ok (cfg : ServerConfig) (h : NodeOk voters n st) :
    Advances voters n st (clusterHandleSlaveFailover cfg inp n st).1 ∧
      ((clusterHandleSlaveFailover cfg inp n st).2 = true →
        (clusterHandleSlaveFailover cfg inp n st).1.failoverAuthEpoch = st.failoverAuthEpoch ∧
        voters.card < 2 * st.votes.length) := by
  rw [clusterHandleSlaveFailover]
  split
  · exact ⟨h.refl, nofun⟩
  rename_i may
  split
  · exact ⟨scheduleElection_ok inp h, nofun⟩
  have ranked := updateRank_ok inp h
  obtain ⟨htable, hepoch, hvotes⟩ := updateRank_frame inp st
  obtain ⟨proceeds, won⟩ := proceedElection_ok inp ranked.ok (htable ▸ slave_of_mayFailover inp may) _
  rw [hepoch, hvotes] at won
  exact ⟨ranked.andThen proceeds, won⟩

end Failover

section Packets

variable {sender : Node} {hdr : ClusterMsg}

lemma epoch_of_mayVote {now master} (h : mayVote cfg now n st sender hdr = some master) :
    st.currentEpoch ≤ hdr.currentEpoch ∧ st.lastVoteEpoch ≠ st.currentEpoch := by
  rw [mayVote] at h
  split at h
  · cases h
  split at h
  · cases h
  rename_i hle
  split at h
  · cases h
  · rename_i hne
    exact ⟨Nat.not_lt.mp hle, hne⟩

/-- A change of a node's state by a vote for a node in an epoch. -/
structure Grants (voters : Finset Node) (n : Node) (st st' : ClusterState Node) (c : Node) (e : Nat) : Prop where
  ok : NodeOk voters n st'
  asked : ∀ e, Asked st e → Asked st' e
  saved : st'.saved = st.saved
  votes : st'.votes = st.votes
  acks : pendingAcks n st'.sndbuf = pendingAcks n st.sndbuf ++ [⟨n, c, e⟩]
  new : st.lastVoteEpoch < e

lemma sendFailoverAuthIfNeeded_cases (now : Int) (linked : Bool) (h : NodeOk voters n st) :
    Advances voters n st (clusterSendFailoverAuthIfNeeded cfg now linked n st sender hdr) ∨
    Grants voters n st (clusterSendFailoverAuthIfNeeded cfg now linked n st sender hdr) sender st.currentEpoch ∧
      st.currentEpoch ≤ hdr.currentEpoch := by
  rw [clusterSendFailoverAuthIfNeeded]
  split
  · exact .inl h.refl
  rename_i master hmay
  obtain ⟨hepoch, hne⟩ := epoch_of_mayVote hmay
  have hlt : st.lastVoteEpoch < st.currentEpoch := Nat.lt_of_le_of_ne h.voted hne
  set st₁ : ClusterState Node := { st with
    lastVoteEpoch := st.currentEpoch
    table := st.table.modify master fun nd => { nd with votedTime := now }
    todoSave := true } with hst₁
  have knows : (st.table.modify master fun nd => { nd with votedTime := now }).Knows voters n :=
    h.knows.modify rfl rfl
  have ok₁ : NodeOk voters n st₁ := by
    refine { h with knows, voted := le_rfl, lastVote := h.lastVote.trans hlt.le,
                    requests := ?_, grants := ?_ }
    · intro m hm ht
      obtain ⟨hc, he, -⟩ := h.requests m hm ht
      exact ⟨hc, he, nofun⟩
    · intro m hm ht
      exact ⟨(h.grants m hm ht).1.trans hlt.le, nofun⟩
  cases linked with
  | false => exact .inl ⟨⟨fun _ he => ⟨he.current, he.election, he.saved⟩, le_rfl, .refl _, .refl _⟩, ok₁⟩
  | true =>
    refine .inr ⟨⟨?_, fun _ he => ⟨he.current, he.election, he.saved⟩, rfl, rfl, pendingAcks_append .., hlt⟩, hepoch⟩
    exact { ok₁ with requests := forall_mem_append.mpr ⟨ok₁.requests, forall_mem_singleton.mpr nofun⟩,
                     grants := forall_mem_append.mpr ⟨ok₁.grants, forall_mem_singleton.mpr fun _ => ⟨le_rfl, nofun⟩⟩ }

lemma ElectionInv.vote (h : ElectionInv voters s) {c e} (grants : Grants voters n (s.nodes n) st' c e)
    (hask : Asked (s.nodes c) e) : ElectionInv voters (s.setNode n st') := by
  refine h.setNode grants.ok grants.asked (by rw [grants.saved]) ?_ ?_ ?_
  · rw [grants.acks, map_append, ← append_assoc]
    refine pairwise_append.mpr ⟨h.ledger n, pairwise_singleton .., ?_⟩
    intro x hx y hy
    cases mem_singleton.mp hy
    refine lt_of_le_of_lt ?_ grants.new
    rcases mem_append.mp hx with hx | hx
    · obtain ⟨a, ha, rfl⟩ := mem_map.mp hx
      obtain ⟨ha, hv⟩ := mem_filter.mp ha
      have hle := h.savedVotes a ha
      rw [of_decide_eq_true hv] at hle
      exact hle.trans (h.node n).lastVote
    · obtain ⟨a, ha, rfl⟩ := mem_map.mp hx
      obtain ⟨m, hm, ht, rfl⟩ := exists_of_mem_pendingAcks ha
      exact ((h.node n).grants m hm ht).1
  · rw [grants.acks]
    exact forall_mem_append.mpr ⟨h.askedPending n, forall_mem_singleton.mpr hask⟩
  · intro v
    rw [grants.votes]
    exact h.chain v n

lemma ackEpochs_sndbuf (n c : Node) (sndbuf : List (Node × ClusterMsg)) :
    ackEpochs ((sndbuf.filter fun m => m.1 = c).map (·.2)) = sentTo (pendingAcks n sndbuf) n c := by
  simp only [ackEpochs, sentTo, pendingAcks]
  induction sndbuf with
  | nil => rfl
  | cons m sndbuf ih =>
    by_cases hack : m.2.type = .failoverAuthAck <;> by_cases hdst : m.1 = c <;> simp [hack, hdst, ih]

lemma voter_of_mem_pendingAcks {sndbuf a} (h : a ∈ pendingAcks n sndbuf) :
    a.voter = n := by
  obtain ⟨m, -, -, rfl⟩ := exists_of_mem_pendingAcks h
  rfl

lemma ElectionInv.flush (h : ElectionInv voters s) (saved : (s.nodes n).todoSave = false) :
    ElectionInv voters (s.flush n) := by
  set pend := pendingAcks n (s.nodes n).sndbuf with hpend
  have ok := h.node n
  have hasked : ∀ m e, Asked (s.nodes m) e → Asked ((s.flush n).nodes m) e := by
    intro m e
    revert m
    exact (forall_update_iff s.nodes fun m x => Asked (s.nodes m) e → Asked x e).mpr
      ⟨fun he => ⟨he.current, he.election, he.saved⟩, fun _ _ => id⟩
  have hother : ∀ {v}, v ≠ n → ∀ a ∈ pend, a.voter ≠ v := by
    intro v hv a ha hav
    exact hv (hav.symm.trans (voter_of_mem_pendingAcks ha))
  constructor
  case node =>
    refine (forall_update_iff s.nodes fun m x => NodeOk voters m x).mpr ⟨?_, fun m _ => h.node m⟩
    exact { ok with requests := nofun, grants := nofun }
  case ledger =>
    refine (forall_update_iff s.nodes fun v x =>
      (sentEpochs (s.acks ++ pend) v ++ (pendingAcks v x.sndbuf).map (·.epoch)).Pairwise (· < ·)).mpr ⟨?_, ?_⟩
    · have hall : pend.filter (·.voter = n) = pend :=
        filter_eq_self.mpr fun a ha => decide_eq_true (voter_of_mem_pendingAcks ha)
      have hledger := h.ledger n
      rw [sentEpochs, filter_append, hall, map_append]
      exact (append_nil _).symm ▸ hledger
    · intro v hv
      have hnone : pend.filter (·.voter = v) = [] :=
        filter_eq_nil_iff.mpr fun a ha => by simpa using hother hv a ha
      rw [sentEpochs, filter_append, hnone, append_nil]
      exact h.ledger v
  case savedVotes =>
    have hsaved : ∀ v, ((s.flush n).nodes v).saved = (s.nodes v).saved :=
      (forall_update_iff s.nodes fun v x => x.saved = (s.nodes v).saved).mpr ⟨rfl, fun _ _ => rfl⟩
    intro a ha
    rw [hsaved]
    rcases mem_append.mp ha with ha | ha
    · exact h.savedVotes a ha
    · obtain ⟨m, hm, ht, rfl⟩ := exists_of_mem_pendingAcks ha
      exact (ok.grants m hm ht).2 saved
  case asked =>
    exact forall_mem_append.mpr ⟨fun a ha => hasked _ _ (h.asked a ha), fun a ha => hasked _ _ (h.askedPending n a ha)⟩
  case askedPending =>
    refine (forall_update_iff s.nodes fun v x =>
      ∀ a ∈ pendingAcks v x.sndbuf, Asked ((s.flush n).nodes a.candidate) a.epoch).mpr ⟨nofun, ?_⟩
    exact fun v _ a ha => hasked _ _ (h.askedPending v a ha)
  case askedRequest =>
    refine (forall_update_iff s.links fun m x =>
      ∀ dst, ∀ msg ∈ x dst, msg.type = .failoverAuthRequest → Asked ((s.flush n).nodes m) msg.currentEpoch).mpr
        ⟨?_, fun m _ dst msg hm ht => hasked _ _ (h.askedRequest m dst msg hm ht)⟩
    intro dst msg hm ht
    refine hasked _ _ ?_
    rcases mem_append.mp hm with hm | hm
    · exact h.askedRequest n dst msg hm ht
    · obtain ⟨m, hmem, rfl⟩ := mem_map.mp hm
      obtain ⟨hc, he, hs⟩ := ok.requests m (mem_filter.mp hmem).1 ht
      exact ⟨hc, he, hs saved⟩
  case chain =>
    have hvotes : ∀ c, ((s.flush n).nodes c).votes = (s.nodes c).votes :=
      (forall_update_iff s.nodes fun c x => x.votes = (s.nodes c).votes).mpr ⟨rfl, fun _ _ => rfl⟩
    have hto : ∀ v c, sentTo (s.acks ++ pend) v c = sentTo s.acks v c ++ sentTo pend v c := by
      intro v c
      rw [sentTo, filter_append, map_append]
      rfl
    intro v c
    show (countedEpochs ((s.flush n).nodes c).votes v ++ ackEpochs ((s.flush n).links v c)).Sublist
      (sentTo (s.acks ++ pend) v c)
    rw [hvotes, hto]
    revert c
    refine (forall_update_iff s.links fun v x =>
      ∀ c, (countedEpochs (s.nodes c).votes v ++ ackEpochs (x c)).Sublist (sentTo s.acks v c ++ sentTo pend v c)).mpr
        ⟨?_, fun v _ c => (h.chain v c).trans (sublist_append_left ..)⟩ v
    intro c
    have hnew := ackEpochs_sndbuf n c (s.nodes n).sndbuf
    rw [← hpend] at hnew
    rw [ackEpochs, filter_append, map_append, ← append_assoc]
    refine (h.chain n c).append ?_
    rw [← hnew]
    rfl
  case won =>
    intro w hw
    obtain ⟨quorum, hsub, hcard, hacks⟩ := h.won w hw
    exact ⟨quorum, hsub, hcard, fun v hv => mem_append_left _ (hacks v hv)⟩

lemma ElectionInv.count (h : ElectionInv voters s) {src dst : Node} {rest} (hne : src ≠ dst)
    (hlink : s.links src dst = hdr :: rest) (hack : hdr.type = .failoverAuthAck)
    (counts : countsVote (s.nodes dst) src hdr = true) (under : (s.nodes dst).failoverAuthSent = true)
    (quiet : Advances voters dst (s.nodes dst) st) (frame : EpochsFrame (s.nodes dst) st src hdr) :
    ElectionInv voters ((s.setLink src dst rest).setNode dst
      { st with failoverAuthCount := st.failoverAuthCount + 1, votes := st.votes ++ [(src, hdr.currentEpoch)] }) := by
  have hpop : ElectionInv voters (s.setLink src dst rest) := h.setLink (hlink ▸ sublist_cons_self ..)
  have hchain := h.chain src dst
  rw [hlink, ackEpochs_cons hack] at hchain
  -- The vote was asked for in this epoch or before, and the test says that it is not from an earlier one.
  have hsent : (⟨src, dst, hdr.currentEpoch⟩ : Ack Node) ∈ s.acks :=
    mem_sentTo.mp (hchain.subset (mem_append_right _ (mem_cons_self ..)))
  rw [countsVote, Bool.and_eq_true] at counts
  have hepoch : hdr.currentEpoch = st.failoverAuthEpoch := by
    rw [frame.failoverAuthEpoch]
    exact le_antisymm ((h.asked _ hsent).election under) (of_decide_eq_true counts.2)
  have hvoter : src ∈ voters := (h.node dst).knows.1 src hne counts.1
  refine hpop.setNode ?_ ?_ quiet.savedVote ?_ ?_ ?_
  · refine { quiet.ok with count := ?_, idle := ?_, counted := ?_ }
    · show st.failoverAuthCount + 1 = (st.votes ++ [_]).length
      rw [quiet.ok.count, length_append]
      rfl
    · intro hidle
      have hsent' : st.failoverAuthSent = false := hidle
      rw [frame.failoverAuthSent, under] at hsent'
      cases hsent'
    · exact forall_mem_append.mpr ⟨quiet.ok.counted, forall_mem_singleton.mpr ⟨hepoch, hvoter⟩⟩
  · exact fun e he => ⟨(quiet.asked e he).current, (quiet.asked e he).election, (quiet.asked e he).saved⟩
  · exact (h.ledger dst).sublist ((quiet.acks.map _).append_left _)
  · exact fun a ha => h.askedPending dst a (quiet.acks.subset ha)
  · intro v
    show (countedEpochs (st.votes ++ [(src, hdr.currentEpoch)]) v ++ ackEpochs ((s.setLink src dst rest).links v dst)).Sublist
      (sentTo s.acks v dst)
    rw [frame.votes]
    by_cases hv : v = src
    · subst hv
      have hrest : (s.setLink v dst rest).links v dst = rest := by
        simp only [ClusterRun.setLink, update_self]
      rw [hrest, countedEpochs_concat_self, append_assoc]
      exact hchain
    · have hsame : (s.setLink src dst rest).links v dst = s.links v dst := by
        simp only [ClusterRun.setLink, update_of_ne hv]
      rw [hsame, countedEpochs_concat_of_ne (Ne.symm hv)]
      exact h.chain v dst

lemma ElectionInv.processPacket (h : ElectionInv voters s) {src dst} {rest} (hne : src ≠ dst)
    (hlink : s.links src dst = hdr :: rest)
    (calm : hdr.type = .failoverAuthAck → countsVote (s.nodes dst) src hdr = true →
      (s.nodes dst).failoverAuthSent = true) (now : Int) (linked : Bool) :
    ElectionInv voters ((s.setLink src dst rest).setNode dst
      (clusterProcessPacket cfg now linked dst (s.nodes dst) src hdr)) := by
  have hpop : ElectionInv voters (s.setLink src dst rest) := h.setLink (hlink ▸ sublist_cons_self ..)
  have quiet := updateEpochs_ok (h.node dst) src hdr
  have frame := updateEpochs_frame (s.nodes dst) src hdr
  rw [clusterProcessPacket]
  cases htype : hdr.type with
  | ping => exact hpop.quiet quiet
  | failoverAuthRequest =>
    have hask := h.askedRequest src dst hdr (hlink ▸ mem_cons_self ..) htype
    rcases sendFailoverAuthIfNeeded_cases now linked quiet.ok with quiet' | ⟨⟨ok, asked, saved, votes, hack, new⟩, hle⟩
    · exact hpop.quiet (quiet.andThen quiet')
    -- The epoch of the vote is the one of the request, which the voter has taken over.
    have hepoch : (updateEpochs (s.nodes dst) src hdr).currentEpoch = hdr.currentEpoch := by
      refine le_antisymm hle ?_
      rw [frame.currentEpoch]
      exact le_max_right ..
    rw [frame.sndbuf, hepoch] at hack
    rw [frame.lastVoteEpoch, hepoch] at new
    exact hpop.vote ⟨ok, fun e he => asked e (quiet.asked e he), saved.trans frame.saved, votes.trans frame.votes, hack, new⟩
      hask
  | failoverAuthAck =>
    rw [frame.countsVote]
    by_cases counts : countsVote (s.nodes dst) src hdr = true
    · rw [if_pos counts]
      exact h.count hne hlink htype counts (calm htype counts) quiet frame
    · rw [if_neg counts]
      exact hpop.quiet quiet

end Packets

section Safety

lemma ClusterStart.inv (start : ClusterStart Node voters) : ElectionInv voters start.run where
  node n :=
    { knows := start.knows n, savedKnows := start.knows n, voted := start.voted n, savedVoted := start.voted n,
      lastVote := le_rfl, election := nofun, count := rfl, idle := fun _ => rfl, counted := nofun, requests := nofun,
      grants := nofun }
  ledger _ := List.Pairwise.nil
  savedVotes := nofun
  asked := nofun
  askedPending := nofun
  askedRequest := nofun
  chain _ _ := List.Sublist.refl _
  won := nofun

lemma ElectionInv.sentEpochs_sorted (h : ElectionInv voters s) (v : Node) : (sentEpochs s.acks v).Pairwise (· < ·) :=
  (pairwise_append.mp (h.ledger v)).1

lemma sentTo_sublist (acks : List (Ack Node)) (v c : Node) : (sentTo acks v c).Sublist (sentEpochs acks v) := by
  refine List.Sublist.map _ ?_
  have hboth : acks.filter (fun a => a.voter = v ∧ a.candidate = c) =
      (acks.filter (·.voter = v)).filter (·.candidate = c) := by
    rw [filter_filter]
    refine filter_congr fun a _ => ?_
    rw [Bool.decide_and, Bool.and_comm]
  rw [hboth]
  exact filter_sublist

section

variable (h : ElectionInv voters s)
include h

lemma ElectionInv.votes_nodup (n : Node) : ((s.nodes n).votes.map (·.1)).Nodup := by
  rw [nodup_iff_count_le_one]
  intro v
  have hsorted : (countedEpochs (s.nodes n).votes v).Pairwise (· < ·) :=
    (h.sentEpochs_sorted v).sublist
      (((sublist_append_left ..).trans (h.chain v n)).trans (sentTo_sublist s.acks v n))
  have hsame : ∀ e ∈ countedEpochs (s.nodes n).votes v, e = (s.nodes n).failoverAuthEpoch := by
    intro e he
    obtain ⟨w, hw, rfl⟩ := mem_map.mp he
    exact ((h.node n).counted w (mem_filter.mp hw).1).1
  have hcount : ((s.nodes n).votes.map (·.1)).count v = (countedEpochs (s.nodes n).votes v).length := by
    rw [countedEpochs, length_map, List.count, countP_map, countP_eq_length_filter]
    rfl
  rw [hcount]
  -- All the epochs are the same one, and they grow.
  match hl : countedEpochs (s.nodes n).votes v with
  | [] => exact Nat.zero_le _
  | [_] => exact le_rfl
  | e :: e' :: rest =>
    rw [hl] at hsorted hsame
    have hlt := rel_of_pairwise_cons hsorted (mem_cons_self ..)
    rw [hsame e (mem_cons_self ..), hsame e' (mem_cons_of_mem _ (mem_cons_self ..))] at hlt
    exact absurd hlt (lt_irrefl _)

lemma ElectionInv.sent_of_counted {v} (hv : v ∈ (s.nodes n).votes) :
    ⟨v.1, n, v.2⟩ ∈ s.acks := by
  have hmem : v.2 ∈ countedEpochs (s.nodes n).votes v.1 :=
    mem_map_of_mem (mem_filter.mpr ⟨hv, decide_eq_true rfl⟩)
  exact mem_sentTo.mp ((h.chain v.1 n).subset (mem_append_left _ hmem))

lemma ElectionInv.elected (hq : voters.card < 2 * (s.nodes n).votes.length) :
    Elected voters s.acks n (s.nodes n).failoverAuthEpoch := by
  refine ⟨((s.nodes n).votes.map (·.1)).toFinset, ?_, ?_, ?_⟩
  · intro v hv
    obtain ⟨w, hw, rfl⟩ := mem_map.mp (mem_toFinset.mp hv)
    exact ((h.node n).counted w hw).2
  · rw [toFinset_card_of_nodup (h.votes_nodup n), length_map]
    exact hq
  · intro v hv
    obtain ⟨w, hw, rfl⟩ := mem_map.mp (mem_toFinset.mp hv)
    have hsent := h.sent_of_counted hw
    rwa [((h.node n).counted w hw).1] at hsent

lemma ElectionInv.step [Fintype Node] {ev} (calm : Calm s ev)
    (hs : clusterStep cfg voters s ev = some s') : ElectionInv voters s' := by
  cases ev with
  | handleSlaveFailover n inp =>
    obtain ⟨quiet, won⟩ := handleSlaveFailover_ok inp cfg (h.node n)
    have hinv := h.quiet quiet
    cases hs
    split_ifs with victory
    · obtain ⟨hepoch, hq⟩ := won victory
      rw [hepoch]
      exact { hinv with won := forall_mem_append.mpr ⟨h.won, forall_mem_singleton.mpr (h.elected hq)⟩ }
    · exact hinv
  | processPacket src dst now linked =>
    rw [clusterStep] at hs
    split at hs
    · cases hs
    rename_i hne
    split at hs
    · cases hs
    rename_i hdr rest hlink
    cases hs
    refine h.processPacket hne hlink (calm hdr ?_) now linked
    rw [hlink]
    rfl
  | lose src dst i =>
    cases hs
    exact h.setLink (eraseIdx_sublist ..)
  | sendPing n dst =>
    cases hs
    have ping : ∀ m ∈ [(dst, clusterBuildMessageHdr n (s.nodes n) .ping)], m.2.type = .ping := by
      intro m hm
      cases mem_singleton.mp hm
      rfl
    refine h.quiet ⟨.send fun m hm => ?_, (h.node n).send ping⟩
    rw [ping m hm]
    exact nofun
  | updateTable n table save =>
    rw [clusterStep] at hs
    split at hs
    · rename_i knows
      cases hs
      exact h.quiet ⟨.raise le_rfl, (h.node n).raise le_rfl knows fun hdue => by rw [hdue, Bool.true_or]⟩
    · cases hs
  | bumpEpoch n =>
    cases hs
    exact h.quiet ⟨.raise (Nat.le_succ _), (h.node n).raise (Nat.le_succ _) (h.node n).knows fun _ => rfl⟩
  | manualFailover n mfEnd mfCanStart =>
    cases hs
    have ok := h.node n
    exact h.quiet ⟨⟨fun _ he => ⟨he.current, he.election, he.saved⟩, le_rfl, .refl _, .refl _⟩, { ok with knows := ok.knows }⟩
  | saveConfig n =>
    cases hs
    exact h.quiet ⟨saveConfig_quiet (h.node n) _, saveConfig_ok (h.node n) _⟩
  | beforeSleep n =>
    cases hs
    obtain ⟨quiet, hsaved⟩ := beforeSleep_ok (h.node n)
    refine (h.quiet quiet).flush ?_
    show (update s.nodes n _ n).todoSave = false
    rwa [update_self]
  | restart n nodes =>
    cases hs
    exact h.quiet (restart_ok (h.node n) nodes)

end

lemma pairwise_of_sentEpochs {acks : List (Ack Node)} (h : ∀ v, (sentEpochs acks v).Pairwise (· < ·)) :
    acks.Pairwise fun a b => a.voter = b.voter → a.epoch < b.epoch := by
  induction acks with
  | nil => exact List.Pairwise.nil
  | cons a acks ih =>
    refine List.Pairwise.cons (fun b hb hab => ?_) (ih fun v => (h v).sublist ?_)
    · have hcons : sentEpochs (a :: acks) a.voter = a.epoch :: sentEpochs acks a.voter := by simp [sentEpochs]
      have hsorted := h a.voter
      rw [hcons] at hsorted
      refine rel_of_pairwise_cons hsorted (mem_map_of_mem (mem_filter.mpr ⟨hb, ?_⟩))
      exact decide_eq_true hab.symm
    · exact ((sublist_cons_self a acks).filter _).map _

lemma ElectionInv.acks_nodup (h : ElectionInv voters s) : (s.acks.map fun a => (a.voter, a.epoch)).Nodup := by
  refine pairwise_map.mpr ((pairwise_of_sentEpochs h.sentEpochs_sorted).imp fun hab heq => ?_)
  obtain ⟨hv, he⟩ := Prod.mk.inj heq
  exact absurd he (hab hv).ne

lemma ElectionInv.candidate_unique (h : ElectionInv voters s) {v a b e} (ha : ⟨v, a, e⟩ ∈ s.acks)
    (hb : ⟨v, b, e⟩ ∈ s.acks) : a = b :=
  congrArg Ack.candidate (inj_on_of_nodup_map h.acks_nodup ha hb rfl)

lemma ElectionInv.winner_unique (h : ElectionInv voters s) {a b e} (ha : (a, e) ∈ s.victories)
    (hb : (b, e) ∈ s.victories) : a = b := by
  obtain ⟨qa, hqa, hca, hacksa⟩ := h.won _ ha
  obtain ⟨qb, hqb, hcb, hacksb⟩ := h.won _ hb
  obtain ⟨v, hv⟩ := Finset.inter_nonempty_of_card_lt_card_add_card hqa hqb (by omega)
  obtain ⟨hva, hvb⟩ := Finset.mem_inter.mp hv
  exact h.candidate_unique (hacksa v hva) (hacksb v hvb)

/-- In a run in which votes arrive only while the election they were asked for is under way, a master sends one vote
in an epoch, a replica counts a vote once and in the election it was asked for, and no two replicas claim victory in
the same epoch. -/
theorem election_safe [Fintype Node] (cfg : ServerConfig) (start : ClusterStart Node voters)
    {evs : List (ClusterEvent Node)} (hrun : run (clusterStep cfg voters) start.run evs = some s)
    (calm : Along (clusterStep cfg voters) Calm start.run evs) :
    (s.acks.map fun a => (a.voter, a.epoch)).Nodup ∧
      (∀ n, (s.nodes n).failoverAuthCount = (s.nodes n).votes.length ∧ ((s.nodes n).votes.map (·.1)).Nodup ∧
        ∀ v ∈ (s.nodes n).votes, v.2 = (s.nodes n).failoverAuthEpoch ∧ ⟨v.1, n, v.2⟩ ∈ s.acks) ∧
      ∀ a b e, (a, e) ∈ s.victories → (b, e) ∈ s.victories → a = b := by
  have h : ElectionInv voters s := run_invariant_along (fun h c hs => h.step c hs) start.inv calm hrun
  refine ⟨h.acks_nodup, fun n => ⟨(h.node n).count, h.votes_nodup n, fun v hv => ?_⟩, fun a b e => h.winner_unique⟩
  exact ⟨((h.node n).counted v hv).1, h.sent_of_counted hv⟩

end Safety

section Sample

/-- Three masters, of which the last is failing, and two slaves of the last. -/
def sampleTable : NodeTable (Fin 5) where
  node n := { master := n < 3, slaveof := if n < 3 then none else some 2, fail := n = 2,
              slots := if n < 3 then [n.val] else [], configEpoch := 0, votedTime := 0 }
  slots j := if h : j < 3 then some ⟨j, Nat.lt_of_lt_of_le h (by decide)⟩ else none
  size := 3

def sampleStart : ClusterStart (Fin 5) {0, 1, 2} where
  config _ := { currentEpoch := 0, lastVoteEpoch := 0, table := sampleTable }
  knows := by decide
  voted _ := le_rfl

def sampleConfig : ServerConfig where
  clusterNodeTimeout := 15000
  clusterSlaveValidityFactor := 10
  replPingSlavePeriod := 10
  clusterSlaveNoFailover := false

/-- `clusterHandleSlaveFailover` at a time, with no delay beyond the fixed one. -/
def failoverAt (n : Fin 5) (now : Int) : ClusterEvent (Fin 5) :=
  .handleSlaveFailover n { now, random := 0, dataAge := 0, rank := 0, peers := [0, 1, 2, 3, 4], slaves := [] }

/-- Slave `n` schedules an election, asks for votes, and the first two masters vote for it. -/
def electionOf (n : Fin 5) (now : Int) : List (ClusterEvent (Fin 5)) :=
  [failoverAt n now, failoverAt n (now + 1000), .beforeSleep n, .processPacket n 0 (now + 1000) true,
    .processPacket n 1 (now + 1000) true, .beforeSleep 0, .beforeSleep 1]

def votesFor (n : Fin 5) (now : Int) : List (ClusterEvent (Fin 5)) :=
  [.processPacket 0 n now true, .processPacket 1 n now true]

theorem election_safe_sample :
    ∃ s, run (clusterStep sampleConfig {0, 1, 2}) sampleStart.run
        (electionOf 3 100000 ++ votesFor 3 101000 ++ [failoverAt 3 101000]) = some s ∧ s.victories = [(3, 1)] ∧
      (s.acks.map fun a => (a.voter, a.epoch)).Nodup ∧
      (∀ n, (s.nodes n).failoverAuthCount = (s.nodes n).votes.length ∧ ((s.nodes n).votes.map (·.1)).Nodup ∧
        ∀ v ∈ (s.nodes n).votes, v.2 = (s.nodes n).failoverAuthEpoch ∧ ⟨v.1, n, v.2⟩ ∈ s.acks) ∧
      ∀ a b e, (a, e) ∈ s.victories → (b, e) ∈ s.victories → a = b := by
  obtain ⟨s, hrun, hwon⟩ := run_checked (clusterStep sampleConfig {0, 1, 2}) sampleStart.run
    (electionOf 3 100000 ++ votesFor 3 101000 ++ [failoverAt 3 101000]) (p := fun s => s.victories = [(3, 1)])
    (by decide +kernel)
  refine ⟨s, hrun, of_decide_eq_true hwon, election_safe sampleConfig sampleStart hrun ?_⟩
  exact along_of_check (c := fun s ev => decide (Calm s ev)) of_decide_eq_true (by decide +kernel)

/-- The votes for slave 3 in epoch 1 arrive after it has scheduled its next election, and count in epoch 2, which
slave 4 wins with the votes of that epoch. -/
theorem election_two_winners :
    ∃ s, run (clusterStep sampleConfig {0, 1, 2}) sampleStart.run
        (electionOf 3 100000 ++ [.processPacket 3 4 101000 true, failoverAt 3 200000] ++ votesFor 3 200000 ++
          electionOf 4 200000 ++ votesFor 4 201000 ++
          [failoverAt 4 201000, failoverAt 3 201000, failoverAt 3 201001]) = some s ∧
      s.victories = [(4, 2), (3, 2)] := by
  obtain ⟨s, hrun, hwon⟩ := run_checked (clusterStep sampleConfig {0, 1, 2}) sampleStart.run
    (electionOf 3 100000 ++ [.processPacket 3 4 101000 true, failoverAt 3 200000] ++ votesFor 3 200000 ++
      electionOf 4 200000 ++ votesFor 4 201000 ++ [failoverAt 4 201000, failoverAt 3 201000, failoverAt 3 201001])
    (p := fun s => s.victories = [(4, 2), (3, 2)]) (by decide +kernel)
  exact ⟨s, hrun, of_decide_eq_true hwon⟩

end Sample

end JitRedis.Cluster
