import JitRedis.Lib.Runs

/-!
# Election of the Sentinel that leads a failover

Model of the election in `src/sentinel.c`, for Sentinels that monitor one master and know each other. A Sentinel that
sees the master objectively down starts a failover in a new epoch, asks the others for their vote with
`is-master-down-by-addr`, and waits in `sentinelFailoverWaitStart` until `sentinelGetLeader` names it. Requests and
replies keep their order and may be lost; hello messages arrive any time after they were published, or never.

What follows an election (the choice and the promotion of a slave) depends on the slaves, which are not modelled: its
outcome is given with each tick.
-/

namespace JitRedis.Sentinel

open Runs

def SENTINEL_ASK_PERIOD : Int := 1000
def SENTINEL_ELECTION_TIMEOUT : Int := 10000
def SENTINEL_MAX_DESYNC : Nat := 1000

inductive FailoverState
  | none
  | waitStart
  | selectSlave
  | sendSlaveofNoone
  | waitPromotion
  | reconfSlaves
  | updateConfig
  deriving DecidableEq

/-- What is known of another Sentinel: the last vote it reported, and whether it sees the master down. -/
structure Peer (S : Type) where
  leader : Option S
  leaderEpoch : Nat
  lastMasterDownReplyTime : Int
  masterDown : Bool

/-- `sentinelState` and the master's instance. `voted` is a history variable: the votes, with their epochs. -/
structure SentinelState (S : Type) where
  currentEpoch : Nat
  addr : Nat
  quorum : Nat
  failoverTimeout : Int
  configEpoch : Nat
  sDown : Bool
  oDown : Bool
  failoverInProgress : Bool
  failoverState : FailoverState
  failoverEpoch : Nat
  failoverStartTime : Int
  leader : Option S
  leaderEpoch : Nat
  peers : S → Peer S
  voted : List (S × Nat)

/-- `is-master-down-by-addr <addr> <current-epoch> <runid>`; no run id stands for `*`. -/
structure Request (S : Type) where
  addr : Nat
  epoch : Nat
  runid : Option S

/-- The reply: down state, leader (`*` if there is none) and the epoch of the vote. -/
structure Reply (S : Type) where
  isdown : Bool
  leader : Option S
  leaderEpoch : Nat

/-- The fields of a hello message that matter: `current_epoch`, and the master's address and `config_epoch`. -/
structure Hello where
  currentEpoch : Nat
  addr : Nat
  configEpoch : Nat

inductive FailoverOutcome
  | stay
  | next
  | abort
  deriving DecidableEq

/-- What a tick reads from the rest of the Sentinel. -/
structure TickInput (S : Type) where
  now : Int
  rand : Nat
  sDown : Bool
  connected : List S
  order : List S
  outcome : FailoverOutcome

section Functions

variable {S : Type} [DecidableEq S]

/-- `sentinelVoteLeader`: vote for the given Sentinel, or return the old vote. -/
def sentinelVoteLeader (now : Int) (rand : Nat) (me : S) (st : SentinelState S) (reqEpoch : Nat) (reqRunid : S) :
    SentinelState S :=
  let epoch := max st.currentEpoch reqEpoch
  if st.leaderEpoch < reqEpoch ∧ epoch ≤ reqEpoch then
    { st with
      currentEpoch := epoch
      leader := some reqRunid
      leaderEpoch := epoch
      failoverStartTime :=
        if reqRunid = me then st.failoverStartTime else now + (rand % SENTINEL_MAX_DESYNC : Nat)
      voted := st.voted ++ [(reqRunid, epoch)] }
  else { st with currentEpoch := epoch }

/-- `sentinelLeaderIncr`: the counters, with the new count. -/
def sentinelLeaderIncr (counters : S → Nat) (runid : S) : S → Nat :=
  Function.update counters runid (counters runid + 1)

/-- Count the vote of another Sentinel, if it is for the current epoch. -/
def countVote (st : SentinelState S) (counters : S → Nat) (ri : S) : S → Nat :=
  match (st.peers ri).leader with
  | some leader => if (st.peers ri).leaderEpoch = st.currentEpoch then sentinelLeaderIncr counters leader else counters
  | none => counters

/-- The number of votes and the Sentinel that has them, for the better of two. -/
def moreVoted (best : Nat × Option S) (votes : Nat) (runid : S) : Nat × Option S :=
  if best.1 < votes then (votes, some runid) else best

/-- The most voted Sentinel, the first one in the order of the counters. -/
def mostVoted (counters : S → Nat) (order : List S) : Nat × Option S :=
  order.foldl (fun best runid => moreVoted best (counters runid) runid) (0, none)

/-- The own vote is counted if it is for the epoch asked about. -/
def withOwnVote (counters : S → Nat) (best : Nat × Option S) (st : SentinelState S) (epoch : Nat) : Nat × Option S :=
  match st.leader with
  | some myvote =>
    if st.leaderEpoch = epoch then moreVoted best (sentinelLeaderIncr counters myvote myvote) myvote else best
  | none => best

/-- `sentinelGetLeader`. The own vote goes to the most voted Sentinel, or to itself if nobody has voted. -/
def sentinelGetLeader (others : List S) (inp : TickInput S) (me : S) (st : SentinelState S) (epoch : Nat) :
    SentinelState S × Option S :=
  let voters := others.length + 1
  let counters := others.foldl (countVote st) fun _ => 0
  let best := mostVoted counters inp.order
  let st := sentinelVoteLeader inp.now inp.rand me st epoch (best.2.getD me)
  let best := withOwnVote counters best st epoch
  let votersQuorum := voters / 2 + 1
  if best.1 < votersQuorum ∨ best.1 < st.quorum then (st, none) else (st, best.2)

def sentinelAbortFailover (st : SentinelState S) : SentinelState S :=
  { st with failoverInProgress := false, failoverState := .none }

/-- `sentinelFailoverWaitStart`. The flag tells that the Sentinel is elected. -/
def sentinelFailoverWaitStart (others : List S) (inp : TickInput S) (me : S) (st : SentinelState S) :
    SentinelState S × Bool :=
  let r := sentinelGetLeader others inp me st st.failoverEpoch
  let st := r.1
  if r.2 = some me then ({ st with failoverState := .selectSlave }, true)
  else
    let electionTimeout := min SENTINEL_ELECTION_TIMEOUT st.failoverTimeout
    if electionTimeout < inp.now - st.failoverStartTime then (sentinelAbortFailover st, false) else (st, false)

/-- `sentinelResetMaster` when the master's address has changed: the other Sentinels stay known. -/
def sentinelResetMaster (st : SentinelState S) (addr : Nat) : SentinelState S :=
  { st with
    addr
    sDown := false
    oDown := false
    failoverInProgress := false
    failoverState := .none
    failoverStartTime := 0
    leader := none }

/-- The states after the election, from `sentinelFailoverSelectSlave` on. -/
def failoverProceed (outcome : FailoverOutcome) (st : SentinelState S) : SentinelState S :=
  match st.failoverState, outcome with
  | .selectSlave, .abort | .sendSlaveofNoone, .abort | .waitPromotion, .abort => sentinelAbortFailover st
  | .selectSlave, .next | .selectSlave, .stay => { st with failoverState := .sendSlaveofNoone }
  | .sendSlaveofNoone, .next => { st with failoverState := .waitPromotion }
  | .reconfSlaves, .next => { st with failoverState := .updateConfig }
  | _, _ => st

/-- `sentinelFailoverStateMachine`. The flag tells that the Sentinel is elected in this tick. -/
def sentinelFailoverStateMachine (others : List S) (inp : TickInput S) (me : S) (st : SentinelState S) :
    SentinelState S × Bool :=
  if st.failoverInProgress = false then (st, false)
  else if st.failoverState = .waitStart then sentinelFailoverWaitStart others inp me st
  else (failoverProceed inp.outcome st, false)

def sentinelCheckObjectivelyDown (others : List S) (st : SentinelState S) : SentinelState S :=
  let quorum := 1 + (others.filter fun ri => (st.peers ri).masterDown).length
  { st with oDown := st.sDown && decide (st.quorum ≤ quorum) }

def sentinelStartFailover (now : Int) (rand : Nat) (st : SentinelState S) : SentinelState S :=
  { st with
    failoverState := .waitStart
    failoverInProgress := true
    currentEpoch := st.currentEpoch + 1
    failoverEpoch := st.currentEpoch + 1
    failoverStartTime := now + (rand % SENTINEL_MAX_DESYNC : Nat) }

/-- The conditions to start a failover in `sentinelStartFailoverIfNeeded`. -/
def mayStartFailover (now : Int) (st : SentinelState S) : Bool :=
  st.oDown && !st.failoverInProgress && decide (st.failoverTimeout * 2 ≤ now - st.failoverStartTime)

/-- What `sentinelAskMasterStateToOtherSentinels` knows of a Sentinel is forgotten when it is too old. -/
def forgetOld (now : Int) (ri : Peer S) : Peer S :=
  if SENTINEL_ASK_PERIOD * 5 < now - ri.lastMasterDownReplyTime then { ri with masterDown := false, leader := none }
  else ri

/-- The request that is sent: the run id asks for a vote. -/
def askRequest (me : S) (st : SentinelState S) : Request S :=
  { addr := st.addr, epoch := st.currentEpoch, runid := if st.failoverState = .none then none else some me }

/-- `sentinelAskMasterStateToOtherSentinels`: the state, and the requests that are sent. -/
def sentinelAskMasterStateToOtherSentinels (others : List S) (inp : TickInput S) (forced : Bool) (me : S)
    (st : SentinelState S) : SentinelState S × List (S × Request S) :=
  let asked := others.filter fun ri => st.sDown && decide (ri ∈ inp.connected) &&
    (forced || decide (SENTINEL_ASK_PERIOD ≤ inp.now - (st.peers ri).lastMasterDownReplyTime))
  ({ st with peers := fun ri => if ri ∈ others then forgetOld inp.now (st.peers ri) else st.peers ri },
    asked.map fun ri => (ri, askRequest me st))

/-- `sentinelStartFailoverIfNeeded`; a Sentinel that starts a failover asks at once. -/
def sentinelStartFailoverIfNeeded (others : List S) (inp : TickInput S) (me : S) (st : SentinelState S) :
    SentinelState S × List (S × Request S) :=
  if mayStartFailover inp.now st then
    sentinelAskMasterStateToOtherSentinels others inp true me (sentinelStartFailover inp.now inp.rand st)
  else (st, [])

/-- The acting half of `sentinelHandleRedisInstance`; the flag tells that the Sentinel is elected. -/
def sentinelHandleRedisInstance (others : List S) (inp : TickInput S) (me : S) (st : SentinelState S) :
    SentinelState S × List (S × Request S) × Bool :=
  let st := sentinelCheckObjectivelyDown others { st with sDown := inp.sDown }
  let start := sentinelStartFailoverIfNeeded others inp me st
  let machine := sentinelFailoverStateMachine others inp me start.1
  let ask := sentinelAskMasterStateToOtherSentinels others inp false me machine.1
  (ask.1, start.2 ++ ask.2, machine.2)

/-- The `is-master-down-by-addr` command. -/
def isMasterDownByAddr (now : Int) (rand : Nat) (tilt : Bool) (me : S) (st : SentinelState S) (req : Request S) :
    SentinelState S × Reply S :=
  if req.addr = st.addr then
    let isdown := !tilt && st.sDown
    match req.runid with
    | some runid =>
      let st := sentinelVoteLeader now rand me st req.epoch runid
      (st, { isdown, leader := st.leader, leaderEpoch := st.leaderEpoch })
    | none => (st, { isdown, leader := none, leaderEpoch := 0 })
  else (st, { isdown := false, leader := none, leaderEpoch := 0 })

def sentinelReceiveIsMasterDownReply (now : Int) (ri : Peer S) (r : Reply S) : Peer S :=
  let ri := { ri with lastMasterDownReplyTime := now, masterDown := r.isdown }
  match r.leader with
  | some leader => { ri with leader := some leader, leaderEpoch := r.leaderEpoch }
  | none => ri

/-- `sentinelProcessHelloMessage` from a Sentinel that is known. -/
def sentinelProcessHelloMessage (st : SentinelState S) (hello : Hello) : SentinelState S :=
  let st := { st with currentEpoch := max st.currentEpoch hello.currentEpoch }
  if st.configEpoch < hello.configEpoch then
    let st := { st with configEpoch := hello.configEpoch }
    if hello.addr = st.addr then st else sentinelResetMaster st hello.addr
  else st

end Functions

/-- The links are indexed by the Sentinel that asks, then the one that is asked; `elected` has the `failover_epoch`. -/
structure SentinelRun (S : Type) where
  sentinels : S → SentinelState S
  requests : S → S → List (Request S)
  replies : S → S → List (Reply S)
  hellos : List Hello
  elected : List (S × Nat)

inductive SentinelEvent (S : Type)
  | tick (a : S) (inp : TickInput S)
  /-- `c` executes the first request of `a`. -/
  | processRequest (a c : S) (now : Int) (rand : Nat) (tilt : Bool)
  | receiveReply (a c : S) (now : Int)
  | loseRequest (a c : S) (i : Nat)
  | loseReply (a c : S) (i : Nat)
  | sendHello (a : S)
  | receiveHello (c : S) (i : Nat)
  /-- `sentinelRefreshInstanceInfo` finds that the promoted slave is a master. -/
  | promoted (a : S)
  /-- `sentinelFailoverSwitchToPromotedSlave` -/
  | switchToPromoted (a : S) (addr : Nat)

section Run

variable {S : Type} [DecidableEq S]

def SentinelRun.set (s : SentinelRun S) (a : S) (st : SentinelState S) : SentinelRun S :=
  { s with sentinels := Function.update s.sentinels a st }

/-- One event; `all` lists the Sentinels. -/
def sentinelStep (all : List S) (s : SentinelRun S) : SentinelEvent S → Option (SentinelRun S)
  | .tick a inp =>
    -- The counters are gone through in some order, and none is left out.
    if ∀ x ∈ all, x ∈ inp.order then
      let r := sentinelHandleRedisInstance (all.filter (· ≠ a)) inp a (s.sentinels a)
      let sent c := s.requests a c ++ (r.2.1.filter fun q => q.1 = c).map (·.2)
      some { s.set a r.1 with
        requests := Function.update s.requests a sent
        elected := if r.2.2 then s.elected ++ [(a, r.1.failoverEpoch)] else s.elected }
    else none
  | .processRequest a c now rand tilt =>
    if a = c then none
    else
      match s.requests a c with
      | [] => none
      | req :: rest =>
        let r := isMasterDownByAddr now rand tilt c (s.sentinels c) req
        some { s.set c r.1 with
          requests := Function.update s.requests a (Function.update (s.requests a) c rest)
          replies := Function.update s.replies a (Function.update (s.replies a) c (s.replies a c ++ [r.2])) }
  | .receiveReply a c now =>
    if a = c then none
    else
      match s.replies a c with
      | [] => none
      | r :: rest =>
        let st := s.sentinels a
        let ri := sentinelReceiveIsMasterDownReply now (st.peers c) r
        some { s.set a { st with peers := Function.update st.peers c ri } with
          replies := Function.update s.replies a (Function.update (s.replies a) c rest) }
  | .loseRequest a c i =>
    let rest := Function.update (s.requests a) c ((s.requests a c).eraseIdx i)
    some { s with requests := Function.update s.requests a rest }
  | .loseReply a c i =>
    let rest := Function.update (s.replies a) c ((s.replies a c).eraseIdx i)
    some { s with replies := Function.update s.replies a rest }
  | .sendHello a =>
    let st := s.sentinels a
    some { s with hellos := s.hellos ++ [⟨st.currentEpoch, st.addr, st.configEpoch⟩] }
  | .receiveHello c i => do
    let hello ← s.hellos[i]?
    some (s.set c (sentinelProcessHelloMessage (s.sentinels c) hello))
  | .promoted a =>
    let st := s.sentinels a
    if st.failoverInProgress ∧ st.failoverState = .waitPromotion then
      some (s.set a { st with configEpoch := st.failoverEpoch, failoverState := .reconfSlaves })
    else none
  | .switchToPromoted a addr =>
    let st := s.sentinels a
    if st.failoverState = .updateConfig then some (s.set a (sentinelResetMaster st addr)) else none

/-- A Sentinel that has started: no vote is known, and no failover is in progress. -/
structure SentinelConfig where
  currentEpoch : Nat
  leaderEpoch : Nat
  configEpoch : Nat
  addr : Nat
  quorum : Nat
  failoverTimeout : Int

def SentinelConfig.state (c : SentinelConfig) : SentinelState S where
  currentEpoch := c.currentEpoch
  addr := c.addr
  quorum := c.quorum
  failoverTimeout := c.failoverTimeout
  configEpoch := c.configEpoch
  sDown := false
  oDown := false
  failoverInProgress := false
  failoverState := .none
  failoverEpoch := 0
  failoverStartTime := 0
  leader := none
  leaderEpoch := c.leaderEpoch
  peers _ := { leader := none, leaderEpoch := 0, lastMasterDownReplyTime := 0, masterDown := false }
  voted := []

/-- All Sentinels have started, and nothing has been sent. -/
def sentinelStart (config : S → SentinelConfig) : SentinelRun S where
  sentinels a := (config a).state
  requests _ _ := []
  replies _ _ := []
  hellos := []
  elected := []

end Run

end JitRedis.Sentinel
