import JitRedis.Sentinel.Election

/-!
# Safety of the Sentinel election

A Sentinel votes in growing epochs, so that it has one vote in each; what the others know of it are votes that it has
cast. `sentinelGetLeader` counts the votes of the others for the current epoch and its own for the epoch of the
failover. As long as these are the same epoch, a leader has a majority of the votes of that epoch.
-/

set_option linter.unusedSectionVars false

namespace JitRedis.Sentinel

open Runs Function

variable {S : Type} [DecidableEq S] {all : List S} {a c : S} {st st' st'' : SentinelState S} {s s' : SentinelRun S}
  {inp : TickInput S}

/-- A Sentinel that waits for the votes of its failover has heard of no later epoch. -/
def Calm (s : SentinelRun S) : SentinelEvent S → Prop
  | .tick a _ => (s.sentinels a).failoverInProgress = true → (s.sentinels a).failoverState = .waitStart →
      (s.sentinels a).currentEpoch = (s.sentinels a).failoverEpoch
  | _ => True

instance (s : SentinelRun S) (ev : SentinelEvent S) : Decidable (Calm s ev) :=
  match ev with
  | .tick a _ => inferInstanceAs (Decidable ((s.sentinels a).failoverInProgress = true → _))
  | .processRequest .. | .receiveReply .. | .loseRequest .. | .loseReply .. | .sendHello .. | .receiveHello ..
  | .promoted .. | .switchToPromoted .. => .isTrue trivial

section Voting

/-- The votes of a Sentinel have growing epochs, and the last one is the one it reports. -/
structure VotesOk (st : SentinelState S) : Prop where
  sorted : (st.voted.map (·.2)).Pairwise (· < ·)
  bound : ∀ v ∈ st.voted, v.2 ≤ st.leaderEpoch
  vote : ∀ x, st.leader = some x → (x, st.leaderEpoch) ∈ st.voted

/-- What a step of a Sentinel keeps: its votes, and of the votes of the others it learns nothing. -/
structure Keeps (st st' : SentinelState S) : Prop where
  voted : ∀ v ∈ st.voted, v ∈ st'.voted
  peers : ∀ c x, (st'.peers c).leader = some x →
    (st.peers c).leader = some x ∧ (st'.peers c).leaderEpoch = (st.peers c).leaderEpoch

/-- A step of a Sentinel that votes as it may. -/
structure Advances (st st' : SentinelState S) : Prop extends Keeps st st' where
  ok : VotesOk st → VotesOk st'

lemma Advances.trans (h : Advances st st') (h' : Advances st' st'') : Advances st st'' := by
  refine ⟨⟨fun v hv => h'.voted v (h.voted v hv), fun c x hx => ?_⟩, fun ok => h'.ok (h.ok ok)⟩
  obtain ⟨hx', he'⟩ := h'.peers c x hx
  obtain ⟨hx, he⟩ := h.peers c x hx'
  exact ⟨hx, he'.trans he⟩

lemma VotesOk.congr (h : VotesOk st) (voted : st'.voted = st.voted) (epoch : st'.leaderEpoch = st.leaderEpoch)
    (leader : ∀ x, st'.leader = some x → st.leader = some x) : VotesOk st' := by
  refine ⟨voted ▸ h.sorted, ?_, ?_⟩
  · rw [voted, epoch]
    exact h.bound
  · intro x hx
    rw [voted, epoch]
    exact h.vote x (leader x hx)

lemma Advances.congr (voted : st'.voted = st.voted) (peers : st'.peers = st.peers)
    (epoch : st'.leaderEpoch = st.leaderEpoch) (leader : ∀ x, st'.leader = some x → st.leader = some x) :
    Advances st st' := by
  refine ⟨⟨fun v hv => voted ▸ hv, fun c x hx => ?_⟩, fun h => h.congr voted epoch leader⟩
  rw [peers] at hx ⊢
  exact ⟨hx, rfl⟩

lemma Advances.refl : Advances st st := .congr rfl rfl rfl fun _ hx => hx

lemma sentinelVoteLeader_ok (now : Int) (rand : Nat) (me : S) (st : SentinelState S) (epoch : Nat) (runid : S) :
    Advances st (sentinelVoteLeader now rand me st epoch runid) := by
  rw [sentinelVoteLeader]
  split
  · rename_i hvote
    have hepoch : max st.currentEpoch epoch = epoch := le_antisymm hvote.2 (le_max_right ..)
    rw [hepoch]
    refine ⟨⟨fun v hv => List.mem_append_left _ hv, fun _ _ hx => ⟨hx, rfl⟩⟩, fun h => ⟨?_, ?_, ?_⟩⟩
    · show ((st.voted ++ [(runid, epoch)]).map (·.2)).Pairwise (· < ·)
      rw [List.map_append]
      refine List.pairwise_append.mpr ⟨h.sorted, List.pairwise_singleton .., ?_⟩
      intro x hx y hy
      obtain ⟨v, hv, rfl⟩ := List.mem_map.mp hx
      cases List.mem_singleton.mp hy
      exact lt_of_le_of_lt (h.bound v hv) hvote.1
    · exact List.forall_mem_append.mpr ⟨fun v hv => (h.bound v hv).trans hvote.1.le, List.forall_mem_singleton.mpr le_rfl⟩
    · intro x hx
      cases hx
      exact List.mem_append_right _ (List.mem_singleton_self _)
  · exact .congr rfl rfl rfl fun _ hx => hx

end Voting

section Counting

/-- The other Sentinels that are known to have voted for a Sentinel in the current epoch. -/
def votersFor (others : List S) (st : SentinelState S) (x : S) : List S :=
  others.filter fun ri => (st.peers ri).leader = some x ∧ (st.peers ri).leaderEpoch = st.currentEpoch

lemma countVote_eq (counters : S → Nat) (ri x : S) :
    countVote st counters ri x = counters x + (votersFor [ri] st x).length := by
  rw [countVote]
  cases hl : (st.peers ri).leader with
  | none => simp [votersFor, hl]
  | some leader =>
    by_cases he : (st.peers ri).leaderEpoch = st.currentEpoch
    · by_cases hx : leader = x
      · subst hx
        simp [votersFor, hl, he, sentinelLeaderIncr]
      · have hx' : x ≠ leader := fun h => hx h.symm
        simp [votersFor, hl, he, sentinelLeaderIncr, hx, hx']
    · simp [votersFor, hl, he]

lemma countVotes_eq (others : List S) (counters : S → Nat) (x : S) :
    others.foldl (countVote st) counters x = counters x + (votersFor others st x).length := by
  induction others generalizing counters with
  | nil => rfl
  | cons ri others ih =>
    have hcons : votersFor (ri :: others) st x = votersFor [ri] st x ++ votersFor others st x := by
      rw [votersFor, votersFor, votersFor, ← List.filter_append]
      rfl
    rw [List.foldl_cons, ih, countVote_eq, hcons, List.length_append, Nat.add_assoc]

/-- Whoever is said to have the most votes has at most as many as stated by `votes`. -/
def Backed (best : Nat × Option S) (votes : S → Nat) : Prop := ∀ x, best.2 = some x → best.1 ≤ votes x

lemma Backed.moreVoted {best} {votes : S → Nat} (h : Backed best votes) {n : Nat} {x : S}
    (hn : n ≤ votes x) : Backed (moreVoted best n x) votes := by
  rw [Sentinel.moreVoted]
  split
  · intro y hy
    cases hy
    exact hn
  · exact h

lemma backed_mostVoted (counters : S → Nat) (order : List S) : Backed (mostVoted counters order) counters := by
  have hfold : ∀ best, Backed best counters →
      Backed (order.foldl (fun best runid => moreVoted best (counters runid) runid) best) counters := by
    induction order with
    | nil => exact fun best h => h
    | cons runid order ih => exact fun best h => ih _ (h.moreVoted le_rfl)
  exact hfold _ nofun

/-- The votes of a Sentinel, with the own one. -/
def ownVotes (st : SentinelState S) (epoch : Nat) (me x : S) : List S :=
  if st.leader = some x ∧ st.leaderEpoch = epoch then [me] else []

lemma backed_withOwnVote (st : SentinelState S) {counters : S → Nat} {best}
    (h : Backed best counters) (epoch : Nat) (me : S) :
    Backed (withOwnVote counters best st epoch) fun x => counters x + (ownVotes st epoch me x).length := by
  have hmore : Backed best fun x => counters x + (ownVotes st epoch me x).length :=
    fun x hx => (h x hx).trans (Nat.le_add_right ..)
  rw [withOwnVote]
  split
  · rename_i myvote hl
    split_ifs with he
    · refine hmore.moreVoted ?_
      simp [sentinelLeaderIncr, ownVotes, hl, he]
    · exact hmore
  · exact hmore

lemma sentinelGetLeader_fst (others : List S) (inp : TickInput S) (me : S) (st : SentinelState S) (epoch : Nat) :
    ∃ runid, (sentinelGetLeader others inp me st epoch).1 = sentinelVoteLeader inp.now inp.rand me st epoch runid := by
  rw [sentinelGetLeader]
  split
  · exact ⟨_, rfl⟩
  · exact ⟨_, rfl⟩

/-- The leader that `sentinelGetLeader` names has a majority: of the others' votes for the current epoch, and perhaps
the own vote for the epoch asked about. -/
lemma sentinelGetLeader_majority {others : List S} {epoch : Nat} {me x : S}
    (hx : (sentinelGetLeader others inp me st epoch).2 = some x) :
    others.length + 1 < 2 * ((votersFor others st x).length +
      (ownVotes (sentinelGetLeader others inp me st epoch).1 epoch me x).length) := by
  rw [sentinelGetLeader] at hx ⊢
  set counters := others.foldl (countVote st) fun _ => 0 with hcounters
  have hback := backed_withOwnVote (sentinelVoteLeader inp.now inp.rand me st epoch
    ((mostVoted counters inp.order).2.getD me)) (backed_mostVoted counters inp.order) epoch me
  split at hx
  · cases hx
  rename_i hq
  rw [if_neg hq]
  have hle := hback x hx
  have hcount : counters x = (votersFor others st x).length := by
    rw [hcounters, countVotes_eq, Nat.zero_add]
  dsimp only at hle ⊢
  rw [hcount] at hle
  omega

end Counting

section Tick

/-- What a Sentinel needs to be elected: votes of the others that it knows of and perhaps its own, for one epoch. -/
def Majority (others : List S) (st st' : SentinelState S) (me : S) : Prop :=
  others.length + 1 < 2 * ((votersFor others st me).length + (ownVotes st' st.failoverEpoch me me).length)

variable (others : List S) (inp : TickInput S) (me : S)

lemma getLeader_ok (st : SentinelState S) (epoch : Nat) : Advances st (sentinelGetLeader others inp me st epoch).1 := by
  obtain ⟨runid, heq⟩ := sentinelGetLeader_fst others inp me st epoch
  rw [heq]
  exact sentinelVoteLeader_ok inp.now inp.rand me st epoch runid

lemma waitStart_ok (st : SentinelState S) : Advances st (sentinelFailoverWaitStart others inp me st).1 ∧
    ((sentinelFailoverWaitStart others inp me st).2 = true →
      Majority others st (sentinelFailoverWaitStart others inp me st).1 me) := by
  have advances := getLeader_ok others inp me st st.failoverEpoch
  rw [sentinelFailoverWaitStart]
  split_ifs with leader
  · exact ⟨advances.trans (.congr rfl rfl rfl fun _ hx => hx), fun _ => sentinelGetLeader_majority leader⟩
  · dsimp only
    split
    · exact ⟨advances.trans (.congr rfl rfl rfl fun _ hx => hx), nofun⟩
    · exact ⟨advances, nofun⟩

lemma failoverProceed_eq (outcome : FailoverOutcome) (st : SentinelState S) :
    ∃ inProgress state, failoverProceed outcome st =
      { st with failoverInProgress := inProgress, failoverState := state } := by
  unfold failoverProceed
  split
  all_goals exact ⟨_, _, rfl⟩

lemma machine_ok (st : SentinelState S) : Advances st (sentinelFailoverStateMachine others inp me st).1 ∧
    ((sentinelFailoverStateMachine others inp me st).2 = true → st.failoverInProgress = true ∧
      st.failoverState = .waitStart ∧ Majority others st (sentinelFailoverStateMachine others inp me st).1 me) := by
  rw [sentinelFailoverStateMachine]
  split
  · exact ⟨.refl, nofun⟩
  rename_i hprog
  split
  · rename_i hstate
    obtain ⟨advances, majority⟩ := waitStart_ok others inp me st
    exact ⟨advances, fun he => ⟨by simpa using hprog, hstate, majority he⟩⟩
  · obtain ⟨inProgress, state, heq⟩ := failoverProceed_eq inp.outcome st
    rw [heq]
    exact ⟨.congr rfl rfl rfl fun _ hx => hx, nofun⟩

lemma forgetOld_leader {now : Int} {ri : Peer S} {x : S} (h : (forgetOld now ri).leader = some x) :
    ri.leader = some x ∧ (forgetOld now ri).leaderEpoch = ri.leaderEpoch := by
  rw [forgetOld] at h ⊢
  split at h
  · cases h
  · rename_i hnew
    rw [if_neg hnew]
    exact ⟨h, rfl⟩

lemma ask_ok (forced : Bool) (st : SentinelState S) :
    Advances st (sentinelAskMasterStateToOtherSentinels others inp forced me st).1 := by
  refine ⟨⟨fun v hv => hv, fun c x hx => ?_⟩, fun h => h.congr rfl rfl fun _ hx => hx⟩
  have hpeer : (sentinelAskMasterStateToOtherSentinels others inp forced me st).1.peers c =
      if c ∈ others then forgetOld inp.now (st.peers c) else st.peers c := rfl
  rw [hpeer] at hx ⊢
  split_ifs at hx with hc
  · rw [if_pos hc]
    exact forgetOld_leader hx
  · rw [if_neg hc]
    exact ⟨hx, rfl⟩

/-- No vote for a failover in progress is waited for in a later epoch. -/
def Current (st : SentinelState S) : Prop :=
  st.failoverInProgress = true → st.failoverState = .waitStart → st.currentEpoch = st.failoverEpoch

lemma startIfNeeded_ok (st : SentinelState S) (current : Current st) :
    Advances st (sentinelStartFailoverIfNeeded others inp me st).1 ∧
      Current (sentinelStartFailoverIfNeeded others inp me st).1 := by
  rw [sentinelStartFailoverIfNeeded]
  split
  · have started : Advances st (sentinelStartFailover inp.now inp.rand st) := .congr rfl rfl rfl fun _ hx => hx
    exact ⟨started.trans (ask_ok others inp me true _), fun _ _ => rfl⟩
  · exact ⟨.refl, current⟩

lemma voteLeader_failoverEpoch (now : Int) (rand : Nat) (me : S) (st : SentinelState S) (epoch : Nat) (runid : S) :
    (sentinelVoteLeader now rand me st epoch runid).failoverEpoch = st.failoverEpoch := by
  rw [sentinelVoteLeader]
  split <;> rfl

lemma machine_failoverEpoch (st : SentinelState S) :
    (sentinelFailoverStateMachine others inp me st).1.failoverEpoch = st.failoverEpoch := by
  rw [sentinelFailoverStateMachine]
  split
  · rfl
  split
  · obtain ⟨runid, heq⟩ := sentinelGetLeader_fst others inp me st st.failoverEpoch
    have hepoch := voteLeader_failoverEpoch inp.now inp.rand me st st.failoverEpoch runid
    rw [← heq] at hepoch
    rw [sentinelFailoverWaitStart]
    split
    · exact hepoch
    · dsimp only
      split <;> exact hepoch
  · obtain ⟨inProgress, state, heq⟩ := failoverProceed_eq inp.outcome st
    rw [heq]

lemma handleRedisInstance_ok (current : Current st) : Advances st (sentinelHandleRedisInstance others inp me st).1 ∧
    ((sentinelHandleRedisInstance others inp me st).2.2 = true →
      ∃ st₁ st₂, Advances st st₁ ∧ Advances st₁ st₂ ∧ Advances st₂ (sentinelHandleRedisInstance others inp me st).1 ∧
        st₁.currentEpoch = st₁.failoverEpoch ∧
        (sentinelHandleRedisInstance others inp me st).1.failoverEpoch = st₁.failoverEpoch ∧
        Majority others st₁ st₂ me) := by
  have down : Advances st (sentinelCheckObjectivelyDown others { st with sDown := inp.sDown }) :=
    .congr rfl rfl rfl fun _ hx => hx
  obtain ⟨started, current'⟩ := startIfNeeded_ok others inp me
    (sentinelCheckObjectivelyDown others { st with sDown := inp.sDown }) current
  have machine := machine_ok others inp me
  have asked := ask_ok others inp me false
  refine ⟨(down.trans started).trans ((machine _).1.trans (asked _)), fun he => ?_⟩
  obtain ⟨hprog, hstate, majority⟩ := (machine _).2 he
  exact ⟨_, _, down.trans started, (machine _).1, asked _, current' hprog hstate, machine_failoverEpoch others inp me _,
    majority⟩

end Tick

section Safety

lemma isMasterDownByAddr_ok (now : Int) (rand : Nat) (tilt : Bool) (me : S) (h : VotesOk st) (req : Request S) :
    Advances st (isMasterDownByAddr now rand tilt me st req).1 ∧
      ∀ x, (isMasterDownByAddr now rand tilt me st req).2.leader = some x →
        (x, (isMasterDownByAddr now rand tilt me st req).2.leaderEpoch) ∈
          (isMasterDownByAddr now rand tilt me st req).1.voted := by
  rw [isMasterDownByAddr]
  split
  · dsimp only
    split
    · rename_i runid _
      have advances := sentinelVoteLeader_ok now rand me st req.epoch runid
      exact ⟨advances, (advances.ok h).vote⟩
    · exact ⟨.refl, nofun⟩
  · exact ⟨.refl, nofun⟩

lemma processHello_ok (hello : Hello) : Advances st (sentinelProcessHelloMessage st hello) := by
  rw [sentinelProcessHelloMessage]
  dsimp only
  split
  · split
    · exact .congr rfl rfl rfl fun _ hx => hx
    · exact .congr rfl rfl rfl nofun
  · exact .congr rfl rfl rfl fun _ hx => hx

/-- A majority of the Sentinels has voted for a Sentinel in an epoch. -/
def Elected (all : List S) (s : SentinelRun S) (a : S) (e : Nat) : Prop :=
  ∃ quorum ⊆ all.toFinset, all.length < 2 * quorum.card ∧ ∀ v ∈ quorum, (a, e) ∈ (s.sentinels v).voted

structure ElectionInv (all : List S) (s : SentinelRun S) : Prop where
  votes : ∀ a, VotesOk (s.sentinels a)
  peers : ∀ a c x, ((s.sentinels a).peers c).leader = some x →
    (x, ((s.sentinels a).peers c).leaderEpoch) ∈ (s.sentinels c).voted
  replies : ∀ a c, ∀ r ∈ s.replies a c, ∀ x, r.leader = some x → (x, r.leaderEpoch) ∈ (s.sentinels c).voted
  elected : ∀ w ∈ s.elected, Elected all s w.1 w.2

def Grows (s s' : SentinelRun S) : Prop := ∀ c, ∀ v ∈ (s.sentinels c).voted, v ∈ (s'.sentinels c).voted

lemma Elected.mono {e : Nat} (h : Elected all s a e) (grows : Grows s s') : Elected all s' a e := by
  obtain ⟨quorum, hsub, hcard, hvoted⟩ := h
  exact ⟨quorum, hsub, hcard, fun v hv => grows v _ (hvoted v hv)⟩

lemma grows_set (voted : ∀ v ∈ (s.sentinels a).voted, v ∈ st'.voted) : Grows s (s.set a st') :=
  (forall_update_iff s.sentinels fun c x => ∀ v ∈ (s.sentinels c).voted, v ∈ x.voted).mpr
    ⟨voted, fun _ _ _ hv => hv⟩

section

variable (h : ElectionInv all s)
include h

lemma ElectionInv.set (ok : VotesOk st') (voted : ∀ v ∈ (s.sentinels a).voted, v ∈ st'.voted)
    (peers : ∀ c x, (st'.peers c).leader = some x → (x, (st'.peers c).leaderEpoch) ∈ (s.sentinels c).voted) :
    ElectionInv all (s.set a st') := by
  have grows : Grows s (s.set a st') := grows_set voted
  constructor
  case votes => exact (forall_update_iff s.sentinels fun _ x => VotesOk x).mpr ⟨ok, fun b _ => h.votes b⟩
  case peers =>
    exact (forall_update_iff s.sentinels fun _ y => ∀ c x, (y.peers c).leader = some x →
      (x, (y.peers c).leaderEpoch) ∈ ((s.set a st').sentinels c).voted).mpr
        ⟨fun c x hx => grows c _ (peers c x hx), fun b _ c x hx => grows c _ (h.peers b c x hx)⟩
  case replies => exact fun b c r hr x hx => grows c _ (h.replies b c r hr x hx)
  case elected => exact fun w hw => (h.elected w hw).mono grows

lemma ElectionInv.advance (advances : Advances (s.sentinels a) st') : ElectionInv all (s.set a st') := by
  refine h.set (advances.ok (h.votes a)) advances.voted fun c x hx => ?_
  obtain ⟨hx', he⟩ := advances.peers c x hx
  rw [he]
  exact h.peers a c x hx'

lemma ElectionInv.setReplies {c : S} {l}
    (hl : ∀ r ∈ l, ∀ x, r.leader = some x → (x, r.leaderEpoch) ∈ (s.sentinels c).voted) :
    ElectionInv all { s with replies := update s.replies a (update (s.replies a) c l) } := by
  refine { h with replies := ?_ }
  refine (forall_update_iff s.replies fun _ y => ∀ c, ∀ r ∈ y c, ∀ x, r.leader = some x →
    (x, r.leaderEpoch) ∈ (s.sentinels c).voted).mpr ⟨?_, fun b _ => h.replies b⟩
  exact (forall_update_iff (s.replies a) fun c y => ∀ r ∈ y, ∀ x, r.leader = some x →
    (x, r.leaderEpoch) ∈ (s.sentinels c).voted).mpr ⟨hl, fun c _ => h.replies a c⟩

lemma receiveReply_voted {r : Reply S} (now : Int)
    (hr : ∀ x, r.leader = some x → (x, r.leaderEpoch) ∈ (s.sentinels c).voted) (x : S)
    (hx : (sentinelReceiveIsMasterDownReply now ((s.sentinels a).peers c) r).leader = some x) :
    (x, (sentinelReceiveIsMasterDownReply now ((s.sentinels a).peers c) r).leaderEpoch) ∈ (s.sentinels c).voted := by
  unfold sentinelReceiveIsMasterDownReply at hx ⊢
  cases hl : r.leader with
  | none =>
    simp only [hl] at hx ⊢
    exact h.peers a c x hx
  | some leader =>
    simp only [hl] at hx ⊢
    exact hr x (hl.trans hx)

lemma ElectionInv.learn {ri : Peer S}
    (hri : ∀ x, ri.leader = some x → (x, ri.leaderEpoch) ∈ (s.sentinels c).voted) :
    ElectionInv all (s.set a { s.sentinels a with peers := update (s.sentinels a).peers c ri }) := by
  refine h.set ((h.votes a).congr rfl rfl fun _ hx => hx) (fun v hv => hv) ?_
  exact (forall_update_iff (s.sentinels a).peers fun c ri => ∀ x, ri.leader = some x →
    (x, ri.leaderEpoch) ∈ (s.sentinels c).voted).mpr ⟨hri, fun b _ => h.peers a b⟩

end

lemma voted_setPeers (s : SentinelRun S) (a c : S) (peers : S → Peer S) :
    ((s.set a { s.sentinels a with peers }).sentinels c).voted = (s.sentinels c).voted := by
  revert c
  refine (forall_update_iff s.sentinels fun c x => x.voted = (s.sentinels c).voted).mpr ⟨?_, fun _ _ => rfl⟩
  rfl

lemma ElectionInv.majority (h : ElectionInv all s) (nodup : all.Nodup) (ha : a ∈ all) (keeps : Keeps (s.sentinels a) st)
    (ok : VotesOk st') (keeps' : ∀ v ∈ st'.voted, v ∈ (s'.sentinels a).voted) (grows : Grows s s')
    (current : st.currentEpoch = st.failoverEpoch) (hmajority : Majority (all.filter (· ≠ a)) st st' a) :
    Elected all s' a st.failoverEpoch := by
  set others := all.filter (· ≠ a) with hothers
  set voters := votersFor others st a with hvoters
  set own := ownVotes st' st.failoverEpoch a a with hown
  have hmem : ∀ v ∈ voters, v ∈ others ∧ (st.peers v).leader = some a ∧ (st.peers v).leaderEpoch = st.currentEpoch := by
    intro v hv
    obtain ⟨hv, hp⟩ := List.mem_filter.mp hv
    exact ⟨hv, of_decide_eq_true hp⟩
  have hne : ∀ v ∈ others, v ∈ all ∧ v ≠ a := by
    intro v hv
    obtain ⟨hv, hp⟩ := List.mem_filter.mp hv
    exact ⟨hv, of_decide_eq_true hp⟩
  have hmine : ∀ v ∈ own, v = a ∧ st'.leader = some a ∧ st'.leaderEpoch = st.failoverEpoch := by
    intro v hv
    rw [hown, ownVotes] at hv
    split_ifs at hv with hvote
    · exact ⟨List.mem_singleton.mp hv, hvote⟩
    · cases hv
  have hlen : all.length = others.length + 1 := by
    rw [← List.length_erase_add_one ha, nodup.erase_eq_filter, hothers]
    congr 2
    exact List.filter_congr fun v _ => by simp [bne, beq_eq_decide]
  have hdisj : (voters ++ own).Nodup := by
    refine List.Nodup.append ((nodup.filter _).filter _) ?_ ?_
    · rw [hown, ownVotes]
      split
      · exact List.nodup_singleton a
      · exact List.nodup_nil
    · intro v hv hv'
      exact (hne v (hmem v hv).1).2 (hmine v hv').1
  refine ⟨(voters ++ own).toFinset, ?_, ?_, ?_⟩
  · intro v hv
    rw [List.mem_toFinset] at hv ⊢
    rcases List.mem_append.mp hv with hv | hv
    · exact (hne v (hmem v hv).1).1
    · rwa [(hmine v hv).1]
  · rw [List.toFinset_card_of_nodup hdisj, List.length_append, hlen]
    exact hmajority
  · intro v hv
    rcases List.mem_append.mp (List.mem_toFinset.mp hv) with hv | hv
    · obtain ⟨-, hleader, hepoch⟩ := hmem v hv
      obtain ⟨hleader', hepoch'⟩ := keeps.peers v a hleader
      have hvoted := h.peers a v a hleader'
      rw [← hepoch', hepoch, current] at hvoted
      exact grows v _ hvoted
    · obtain ⟨rfl, hleader, hepoch⟩ := hmine v hv
      exact keeps' _ (hepoch ▸ ok.vote v hleader)

lemma ElectionInv.step (h : ElectionInv all s) (nodup : all.Nodup) (complete : ∀ a, a ∈ all) {ev}
    (calm : Calm s ev) (hs : sentinelStep all s ev = some s') : ElectionInv all s' := by
  cases ev with
  | tick a inp =>
    rw [sentinelStep] at hs
    split at hs
    · cases hs
      obtain ⟨advances, elected⟩ := handleRedisInstance_ok (all.filter (· ≠ a)) inp a calm
      have hinv := h.advance advances
      refine { hinv with elected := fun w hw => ?_ }
      split_ifs at hw with he
      · rcases List.mem_append.mp hw with hw | hw
        · exact hinv.elected w hw
        cases List.mem_singleton.mp hw
        obtain ⟨st₁, st₂, before, turn, after, current, hepoch, majority⟩ := elected he
        rw [hepoch]
        refine h.majority nodup (complete a) before.toKeeps (turn.ok (before.ok (h.votes a))) (fun v hv => ?_)
          (grows_set advances.voted) current majority
        show v ∈ (update s.sentinels a _ a).voted
        rw [update_self]
        exact after.voted v hv
      · exact hinv.elected w hw
    · cases hs
  | processRequest a c now rand tilt =>
    rw [sentinelStep] at hs
    split at hs
    · cases hs
    split at hs
    · cases hs
    rename_i req rest _
    cases hs
    obtain ⟨advances, hreply⟩ := isMasterDownByAddr_ok now rand tilt c (h.votes c) req
    have hinv := (h.advance advances).setReplies (a := a) (c := c)
      (l := s.replies a c ++ [(isMasterDownByAddr now rand tilt c (s.sentinels c) req).2]) ?_
    · exact { hinv with votes := hinv.votes }
    · intro r hr x hx
      show _ ∈ (update s.sentinels c _ c).voted
      rw [update_self]
      rcases List.mem_append.mp hr with hr | hr
      · exact advances.voted _ (h.replies a c r hr x hx)
      · cases List.mem_singleton.mp hr
        exact hreply x hx
  | receiveReply a c now =>
    rw [sentinelStep] at hs
    split at hs
    · cases hs
    split at hs
    · cases hs
    rename_i r rest hr
    cases hs
    refine (h.learn (receiveReply_voted h now ?_)).setReplies fun r' hr' x hx => ?_
    · exact h.replies a c r (hr ▸ List.mem_cons_self ..)
    · rw [voted_setPeers]
      exact h.replies a c r' (hr ▸ List.mem_cons_of_mem _ hr') x hx
  | loseRequest _ _ _ | sendHello _ =>
    cases hs
    exact { h with votes := h.votes }
  | loseReply a c i =>
    cases hs
    exact h.setReplies fun r hr => h.replies a c r (List.mem_of_mem_eraseIdx hr)
  | receiveHello c i =>
    obtain ⟨hello, -, ⟨⟩⟩ := Option.bind_eq_some_iff.mp hs
    exact h.advance (processHello_ok hello)
  | promoted a =>
    rw [sentinelStep] at hs
    split at hs
    · cases hs
      exact h.advance (.congr rfl rfl rfl fun _ hx => hx)
    · cases hs
  | switchToPromoted a addr =>
    rw [sentinelStep] at hs
    split at hs
    · cases hs
      exact h.advance (.congr rfl rfl rfl nofun)
    · cases hs

lemma sentinelStart_inv (config : S → SentinelConfig) : ElectionInv all (sentinelStart config) where
  votes _ := ⟨List.Pairwise.nil, nofun, nofun⟩
  peers := nofun
  replies := nofun
  elected := nofun

lemma VotesOk.unique (h : VotesOk st) {x y : S} {e : Nat} (hx : (x, e) ∈ st.voted) (hy : (y, e) ∈ st.voted) : x = y :=
  congrArg Prod.fst (List.inj_on_of_nodup_map (h.sorted.imp fun hab => hab.ne) hx hy rfl)

/-- In a run in which a Sentinel that waits for votes has heard of no later epoch, at most one Sentinel is elected in an
epoch. -/
theorem sentinel_election_safe (nodup : all.Nodup) (complete : ∀ a, a ∈ all) (config : S → SentinelConfig)
    {evs : List (SentinelEvent S)} (hrun : run (sentinelStep all) (sentinelStart config) evs = some s)
    (calm : Along (sentinelStep all) Calm (sentinelStart config) evs) :
    ∀ a b e, (a, e) ∈ s.elected → (b, e) ∈ s.elected → a = b := by
  have h : ElectionInv all s :=
    run_invariant_along (fun h c hs => h.step nodup complete c hs) (sentinelStart_inv config) calm hrun
  intro a b e ha hb
  obtain ⟨qa, hqa, hca, hva⟩ := h.elected _ ha
  obtain ⟨qb, hqb, hcb, hvb⟩ := h.elected _ hb
  have hall : all.toFinset.card = all.length := List.toFinset_card_of_nodup nodup
  obtain ⟨v, hv⟩ := Finset.inter_nonempty_of_card_lt_card_add_card hqa hqb (by omega)
  obtain ⟨hv, hv'⟩ := Finset.mem_inter.mp hv
  exact (h.votes v).unique (hva v hv) (hvb v hv')

end Safety

section Sample

local instance five_neZero : NeZero 5 := ⟨by decide⟩

/-- Five Sentinels with a quorum of one, as in a fresh configuration. -/
def fiveSentinels : Fin 5 → SentinelConfig := fun _ =>
  { currentEpoch := 0, leaderEpoch := 0, configEpoch := 0, addr := 0, quorum := 1, failoverTimeout := 180000 }

def allFive : List (Fin 5) := [0, 1, 2, 3, 4]

def tickAt (a : Fin 5) (now : Int) (connected : List (Fin 5)) : SentinelEvent (Fin 5) :=
  .tick a { now, rand := 0, sDown := true, connected, order := allFive, outcome := .stay }

/-- Sentinels 2 and 3 execute a request of a Sentinel, which receives their replies. -/
def askTwoThree (a : Fin 5) (now : Int) : List (SentinelEvent (Fin 5)) :=
  [.processRequest a 2 now 0 false, .processRequest a 3 now 0 false, .receiveReply a 2 now, .receiveReply a 3 now]

/-- Sentinel 1 starts a failover in epoch 1, and is elected with the votes of 2 and 3. -/
def electOne : List (SentinelEvent (Fin 5)) :=
  tickAt 1 400000 allFive :: askTwoThree 1 400000 ++ [tickAt 1 400100 allFive]

theorem sentinel_election_safe_sample :
    ∃ s, run (sentinelStep allFive) (sentinelStart fiveSentinels) electOne = some s ∧ s.elected = [(1, 1)] ∧
      ∀ a b e, (a, e) ∈ s.elected → (b, e) ∈ s.elected → a = b := by
  obtain ⟨s, hrun, helected⟩ := run_checked (sentinelStep allFive) (sentinelStart fiveSentinels) electOne
    (p := fun s => s.elected = [(1, 1)]) (by decide +kernel)
  refine ⟨s, hrun, of_decide_eq_true helected, sentinel_election_safe (by decide) (by decide) fiveSentinels hrun ?_⟩
  exact along_of_check (c := fun s ev => decide (Calm s ev)) of_decide_eq_true (by decide +kernel)

/-- Sentinel 0 starts a failover in epoch 1 too, but reaches nobody. Sentinel 4 hears of epoch 1, starts a failover in
epoch 2, and 0 hears of that: it now asks for votes in epoch 2, and counts them together with its own of epoch 1. -/
def electZero : List (SentinelEvent (Fin 5)) :=
  [.sendHello 1, .receiveHello 4 0, tickAt 4 400500 [], .sendHello 4, .receiveHello 0 1, tickAt 0 401100 allFive] ++
    askTwoThree 0 401100 ++ [tickAt 0 401200 allFive]

/-- Two Sentinels are elected with `failover_epoch` 1. -/
theorem sentinel_two_leaders :
    ∃ s, run (sentinelStep allFive) (sentinelStart fiveSentinels) (tickAt 0 400000 [] :: electOne ++ electZero) = some s ∧
      s.elected = [(1, 1), (0, 1)] := by
  obtain ⟨s, hrun, helected⟩ := run_checked (sentinelStep allFive) (sentinelStart fiveSentinels)
    (tickAt 0 400000 [] :: electOne ++ electZero) (p := fun s => s.elected = [(1, 1), (0, 1)]) (by decide +kernel)
  exact ⟨s, hrun, of_decide_eq_true helected⟩

end Sample

end JitRedis.Sentinel
