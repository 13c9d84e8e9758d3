import JitRedis.Lib.Runs

/-!
# Elections of cluster replicas

Model of the election in `src/cluster.c`: `clusterHandleSlaveFailover` asks for votes, masters grant them in
`clusterSendFailoverAuthIfNeeded`, and `clusterProcessPacket` counts them. Nodes exchange messages over links that keep
their order and may lose messages. A message leaves a node only after `clusterBeforeSleep` has saved the configuration,
which is all that a node has left after a crash.

What a node knows of the others beyond the epochs changes in many ways (gossip, failure reports, commands); an event may
replace it as a whole, as long as the masters with slots are the fixed set of `voters` to everyone.
-/

namespace JitRedis.Cluster

open Runs

/-- `clusterNode`: a node without the master flag is a slave; `slots` lists the set bits of the bitmap. -/
structure ClusterNode (Node : Type) where
  master : Bool
  slaveof : Option Node
  fail : Bool
  slots : List Nat
  configEpoch : Nat
  votedTime : Int

/-- A master that serves slots: `nodeIsMaster(node) && node->numslots > 0`. -/
def ClusterNode.serving {Node : Type} (nd : ClusterNode Node) : Bool := nd.master && !nd.slots.isEmpty

/-- The node table, `cluster->slots` and `cluster->size`. -/
structure NodeTable (Node : Type) where
  node : Node → ClusterNode Node
  slots : Nat → Option Node
  size : Nat

inductive MsgType
  | ping
  | failoverAuthRequest
  | failoverAuthAck
  deriving DecidableEq

/-- `clusterMsg`, the header. All that is not about elections is a `ping`. -/
structure ClusterMsg where
  type : MsgType
  currentEpoch : Nat
  configEpoch : Nat
  myslots : List Nat
  forceack : Bool
  deriving DecidableEq

/-- What `clusterSaveConfig` writes. -/
structure ClusterConfig (Node : Type) where
  currentEpoch : Nat
  lastVoteEpoch : Nat
  table : NodeTable Node

/-- `clusterState`, with send buffers and file. `votes` is a history variable: what `failover_auth_count` counts. -/
structure ClusterState (Node : Type) where
  table : NodeTable Node
  currentEpoch : Nat
  lastVoteEpoch : Nat
  failoverAuthTime : Int
  failoverAuthCount : Nat
  failoverAuthSent : Bool
  failoverAuthRank : Nat
  failoverAuthEpoch : Nat
  mfEnd : Int
  mfCanStart : Bool
  todoSave : Bool
  saved : ClusterConfig Node
  sndbuf : List (Node × ClusterMsg)
  votes : List (Node × Nat)

structure ServerConfig where
  clusterNodeTimeout : Int
  clusterSlaveValidityFactor : Int
  replPingSlavePeriod : Int
  clusterSlaveNoFailover : Bool

/-- What `clusterHandleSlaveFailover` reads from the rest of the server, and who the broadcasts reach. -/
structure FailoverInput (Node : Type) where
  now : Int
  random : Nat
  dataAge : Int
  rank : Nat
  peers : List Node
  slaves : List Node

section Node

variable {Node : Type} [DecidableEq Node]

def NodeTable.modify (t : NodeTable Node) (n : Node) (f : ClusterNode Node → ClusterNode Node) : NodeTable Node :=
  { t with node := Function.update t.node n (f (t.node n)) }

/-- `clusterBuildMessageHdr`: a slave announces the slots and the configuration epoch of its master. -/
def clusterBuildMessageHdr (me : Node) (st : ClusterState Node) (type : MsgType) : ClusterMsg :=
  let myself := st.table.node me
  let master := if myself.master = false then st.table.node (myself.slaveof.getD me) else myself
  { type, currentEpoch := st.currentEpoch, configEpoch := master.configEpoch, myslots := master.slots, forceack := false }

def clusterSendMessage (st : ClusterState Node) (dst : Node) (m : ClusterMsg) : ClusterState Node :=
  { st with sndbuf := st.sndbuf ++ [(dst, m)] }

/-- `clusterBroadcastMessage`: to all that are reached, but not to the node itself. -/
def clusterBroadcastMessage (me : Node) (st : ClusterState Node) (peers : List Node) (m : ClusterMsg) :
    ClusterState Node :=
  { st with sndbuf := st.sndbuf ++ (peers.filter (· ≠ me)).map fun dst => (dst, m) }

def clusterSaveConfig (st : ClusterState Node) : ClusterState Node :=
  { st with saved := { currentEpoch := st.currentEpoch, lastVoteEpoch := st.lastVoteEpoch, table := st.table } }

def clusterRequestFailoverAuth (me : Node) (st : ClusterState Node) (peers : List Node) : ClusterState Node :=
  clusterBroadcastMessage me st peers
    { clusterBuildMessageHdr me st .failoverAuthRequest with forceack := st.mfEnd ≠ 0 }

/-- `clusterSendFailoverAuth`: nothing is sent to a node that is not linked. -/
def clusterSendFailoverAuth (me : Node) (st : ClusterState Node) (node : Node) (linked : Bool) : ClusterState Node :=
  if linked then clusterSendMessage st node (clusterBuildMessageHdr me st .failoverAuthAck) else st

/-- Whether a master may vote for a node that asks: the tests of `clusterSendFailoverAuthIfNeeded`, in order. -/
def mayVote (cfg : ServerConfig) (now : Int) (me : Node) (st : ClusterState Node) (node : Node) (request : ClusterMsg) :
    Option Node :=
  let t := st.table
  if (t.node me).master = false ∨ (t.node me).slots = [] then none
  else if request.currentEpoch < st.currentEpoch then none
  else if st.lastVoteEpoch = st.currentEpoch then none
  else if (t.node node).master then none
  else
    match (t.node node).slaveof with
    | none => none
    | some master =>
      if (t.node master).fail = false ∧ request.forceack = false then none
      else if now - (t.node master).votedTime < cfg.clusterNodeTimeout * 2 then none
      else if request.myslots.any fun j => (t.slots j).any fun o => request.configEpoch < (t.node o).configEpoch then none
      else some master

def clusterSendFailoverAuthIfNeeded (cfg : ServerConfig) (now : Int) (linked : Bool) (me : Node)
    (st : ClusterState Node) (node : Node) (request : ClusterMsg) : ClusterState Node :=
  match mayVote cfg now me st node request with
  | none => st
  | some master =>
    let st := { st with
      lastVoteEpoch := st.currentEpoch
      table := st.table.modify master fun nd => { nd with votedTime := now }
      todoSave := true }
    clusterSendFailoverAuth me st node linked

/-- Whether a `FAILOVER_AUTH_ACK` is taken for a vote. -/
def countsVote (st : ClusterState Node) (sender : Node) (hdr : ClusterMsg) : Bool :=
  (st.table.node sender).serving && decide (st.failoverAuthEpoch ≤ hdr.currentEpoch)

/-- The epoch updates that `clusterProcessPacket` makes for every message of a known node. -/
def updateEpochs (st : ClusterState Node) (sender : Node) (hdr : ClusterMsg) : ClusterState Node :=
  let st := { st with currentEpoch := max st.currentEpoch hdr.currentEpoch }
  if (st.table.node sender).configEpoch < hdr.configEpoch then
    { st with
      table := st.table.modify sender fun nd => { nd with configEpoch := hdr.configEpoch }
      todoSave := true }
  else st

/-- `clusterProcessPacket`, as far as elections go. -/
def clusterProcessPacket (cfg : ServerConfig) (now : Int) (linked : Bool) (me : Node) (st : ClusterState Node)
    (sender : Node) (hdr : ClusterMsg) : ClusterState Node :=
  let st := updateEpochs st sender hdr
  match hdr.type with
  | .ping => st
  | .failoverAuthRequest => clusterSendFailoverAuthIfNeeded cfg now linked me st sender hdr
  | .failoverAuthAck =>
    if countsVote st sender hdr then
      { st with failoverAuthCount := st.failoverAuthCount + 1, votes := st.votes ++ [(sender, hdr.currentEpoch)] }
    else st

/-- `clusterFailoverReplaceYourMaster`: take the slots of the old master, save the configuration and announce it. -/
def clusterFailoverReplaceYourMaster (me : Node) (st : ClusterState Node) (peers : List Node) : ClusterState Node :=
  match (st.table.node me).slaveof with
  | none => st
  | some oldmaster =>
    if (st.table.node me).master then st
    else
      let lost := (st.table.node oldmaster).slots
      let table := st.table.modify me fun nd => { nd with master := true, slaveof := none }
      let table := table.modify oldmaster fun nd => { nd with slots := [] }
      let table := table.modify me fun nd => { nd with slots := nd.slots ++ lost }
      let table := { table with slots := fun j => if j ∈ lost then some me else table.slots j }
      let st := clusterSaveConfig { st with table }
      let st := clusterBroadcastMessage me st peers (clusterBuildMessageHdr me st .ping)
      { st with mfEnd := 0, mfCanStart := false }

/-- The preconditions of a failover in `clusterHandleSlaveFailover`, the age of the data included. -/
def mayFailover (cfg : ServerConfig) (inp : FailoverInput Node) (me : Node) (st : ClusterState Node) : Bool :=
  let manual : Bool := st.mfEnd ≠ 0 ∧ st.mfCanStart
  let dataAge := if cfg.clusterNodeTimeout < inp.dataAge then inp.dataAge - cfg.clusterNodeTimeout else inp.dataAge
  match (st.table.node me).slaveof with
  | none => false
  | some master =>
    !(st.table.node me).master && ((st.table.node master).fail || manual) &&
      (!cfg.clusterSlaveNoFailover || manual) && !(st.table.node master).slots.isEmpty &&
      (decide (cfg.clusterSlaveValidityFactor = 0) ||
        decide (dataAge ≤ cfg.replPingSlavePeriod * 1000 + cfg.clusterNodeTimeout * cfg.clusterSlaveValidityFactor) ||
        manual)

/-- A new attempt is set up: the votes of the last one are forgotten. -/
def resetAuth (st : ClusterState Node) (time : Int) (rank : Nat) : ClusterState Node :=
  { st with
    failoverAuthTime := time
    failoverAuthCount := 0
    failoverAuthSent := false
    failoverAuthRank := rank
    votes := [] }

/-- The next election is scheduled, for a manual failover without delay, and the slaves are told the offset. -/
def scheduleElection (inp : FailoverInput Node) (me : Node) (st : ClusterState Node) : ClusterState Node :=
  let delay : Int := 500 + (inp.random % 500 : Nat) + inp.rank * 1000
  let st := if st.mfEnd ≠ 0 then resetAuth st inp.now 0 else resetAuth st (inp.now + delay) inp.rank
  clusterBroadcastMessage me st inp.slaves (clusterBuildMessageHdr me st .ping)

/-- The rank may have become worse while the election waits. -/
def updateRank (inp : FailoverInput Node) (st : ClusterState Node) : ClusterState Node :=
  if st.failoverAuthSent = false ∧ st.mfEnd = 0 ∧ st.failoverAuthRank < inp.rank then
    { st with
      failoverAuthTime := st.failoverAuthTime + ((inp.rank - st.failoverAuthRank : Nat) : Int) * 1000
      failoverAuthRank := inp.rank }
  else st

def startElection (inp : FailoverInput Node) (me : Node) (st : ClusterState Node) : ClusterState Node :=
  let st := { st with currentEpoch := st.currentEpoch + 1, failoverAuthEpoch := st.currentEpoch + 1 }
  { clusterRequestFailoverAuth me st inp.peers with failoverAuthSent := true, todoSave := true }

def winElection (inp : FailoverInput Node) (me : Node) (st : ClusterState Node) : ClusterState Node :=
  let st := { st with
    table := st.table.modify me fun nd => { nd with configEpoch := max nd.configEpoch st.failoverAuthEpoch } }
  clusterFailoverReplaceYourMaster me st inp.peers

/-- The end of `clusterHandleSlaveFailover`, once an election is scheduled. -/
def proceedElection (inp : FailoverInput Node) (me : Node) (st : ClusterState Node) (expired : Bool) :
    ClusterState Node × Bool :=
  let neededQuorum := st.table.size / 2 + 1
  if inp.now < st.failoverAuthTime then (st, false)
  else if expired then (st, false)
  else if st.failoverAuthSent = false then (startElection inp me st, false)
  else if neededQuorum ≤ st.failoverAuthCount then (winElection inp me st, true)
  else (st, false)

/-- `clusterHandleSlaveFailover`. The flag tells that the node claims victory. -/
def clusterHandleSlaveFailover (cfg : ServerConfig) (inp : FailoverInput Node) (me : Node) (st : ClusterState Node) :
    ClusterState Node × Bool :=
  let authAge := inp.now - st.failoverAuthTime
  let authTimeout := max (cfg.clusterNodeTimeout * 2) 2000
  let authRetryTime := authTimeout * 2
  if mayFailover cfg inp me st = false then (st, false)
  else if authRetryTime < authAge then (scheduleElection inp me st, false)
  else proceedElection inp me (updateRank inp st) (decide (authTimeout < authAge))

/-- `clusterGetMaxEpoch` of the saved table, over the nodes listed in the file. -/
def clusterGetMaxEpoch (nodes : List Node) (c : ClusterConfig Node) : Nat :=
  nodes.foldl (fun m n => max m (c.table.node n).configEpoch) c.currentEpoch

/-- `clusterInit` and `clusterLoadConfig` after a crash: only the saved configuration is left. -/
def clusterRestart (nodes : List Node) (st : ClusterState Node) : ClusterState Node where
  table := { st.saved.table with node := fun n => { st.saved.table.node n with votedTime := 0 } }
  currentEpoch := clusterGetMaxEpoch nodes st.saved
  lastVoteEpoch := st.saved.lastVoteEpoch
  failoverAuthTime := 0
  failoverAuthCount := 0
  failoverAuthSent := false
  failoverAuthRank := 0
  failoverAuthEpoch := 0
  mfEnd := 0
  mfCanStart := false
  todoSave := false
  saved := st.saved
  sndbuf := []
  votes := []

end Node

/-- A vote on its way: a `FAILOVER_AUTH_ACK` that has left its sender. -/
structure Ack (Node : Type) where
  voter : Node
  candidate : Node
  epoch : Nat
  deriving DecidableEq

/-- The nodes, their links, the votes that were sent, and the victories that were claimed, with their epochs. -/
structure ClusterRun (Node : Type) where
  nodes : Node → ClusterState Node
  links : Node → Node → List ClusterMsg
  acks : List (Ack Node)
  victories : List (Node × Nat)

inductive ClusterEvent (Node : Type) where
  /-- `clusterHandleSlaveFailover` runs, from `clusterCron` or `clusterBeforeSleep`. -/
  | handleSlaveFailover (n : Node) (inp : FailoverInput Node)
  | processPacket (src dst : Node) (now : Int) (linked : Bool)
  | lose (src dst : Node) (i : Nat)
  | sendPing (n dst : Node)
  /-- What the node knows of the others changes; not every such change is saved. -/
  | updateTable (n : Node) (table : NodeTable Node) (save : Bool)
  /-- `clusterHandleConfigEpochCollision` and the like raise the epoch. -/
  | bumpEpoch (n : Node)
  | manualFailover (n : Node) (mfEnd : Int) (mfCanStart : Bool)
  | saveConfig (n : Node)
  /-- `clusterBeforeSleep`, and then the send buffers are written out. -/
  | beforeSleep (n : Node)
  /-- A crash and a restart; the node file lists the given nodes. -/
  | restart (n : Node) (nodes : List Node)

section Run

variable {Node : Type} [DecidableEq Node]

/-- The masters with slots, as a node knows them, are among the voters; a slave knows their number. -/
def NodeTable.Knows (voters : Finset Node) (n : Node) (t : NodeTable Node) : Prop :=
  (∀ x, x ≠ n → (t.node x).serving = true → x ∈ voters) ∧ ((t.node n).master = false → t.size = voters.card)

instance (voters : Finset Node) (n : Node) (t : NodeTable Node) [Fintype Node] : Decidable (t.Knows voters n) :=
  inferInstanceAs (Decidable (_ ∧ _))

def ClusterRun.setNode (s : ClusterRun Node) (n : Node) (st : ClusterState Node) : ClusterRun Node :=
  { s with nodes := Function.update s.nodes n st }

def ClusterRun.setLink (s : ClusterRun Node) (src dst : Node) (l : List ClusterMsg) : ClusterRun Node :=
  { s with links := Function.update s.links src (Function.update (s.links src) dst l) }

def pendingAcks (n : Node) (sndbuf : List (Node × ClusterMsg)) : List (Ack Node) :=
  sndbuf.filterMap fun m => if m.2.type = .failoverAuthAck then some ⟨n, m.1, m.2.currentEpoch⟩ else none

def ClusterRun.flush (s : ClusterRun Node) (n : Node) : ClusterRun Node :=
  let st := s.nodes n
  let link dst := s.links n dst ++ (st.sndbuf.filter fun m => m.1 = dst).map (·.2)
  { s.setNode n { st with sndbuf := [] } with
    links := Function.update s.links n link
    acks := s.acks ++ pendingAcks n st.sndbuf }

/-- `clusterBeforeSleep` saves the configuration if that is due. -/
def clusterBeforeSleep (st : ClusterState Node) : ClusterState Node :=
  if st.todoSave then { clusterSaveConfig st with todoSave := false } else st

def clusterStep [Fintype Node] (cfg : ServerConfig) (voters : Finset Node) (s : ClusterRun Node) :
    ClusterEvent Node → Option (ClusterRun Node)
  | .handleSlaveFailover n inp =>
    let r := clusterHandleSlaveFailover cfg inp n (s.nodes n)
    let s := s.setNode n r.1
    some (if r.2 then { s with victories := s.victories ++ [(n, r.1.failoverAuthEpoch)] } else s)
  | .processPacket src dst now linked =>
    -- A node has no link to itself.
    if src = dst then none
    else
      match s.links src dst with
      | [] => none
      | hdr :: rest =>
        some ((s.setLink src dst rest).setNode dst
          (clusterProcessPacket cfg now linked dst (s.nodes dst) src hdr))
  | .lose src dst i => some (s.setLink src dst ((s.links src dst).eraseIdx i))
  | .sendPing n dst =>
    let st := s.nodes n
    some (s.setNode n (clusterSendMessage st dst (clusterBuildMessageHdr n st .ping)))
  | .updateTable n table save =>
    let st := s.nodes n
    if table.Knows voters n then some (s.setNode n { st with table, todoSave := st.todoSave || save }) else none
  | .bumpEpoch n =>
    let st := s.nodes n
    some (s.setNode n { st with currentEpoch := st.currentEpoch + 1, todoSave := true })
  | .manualFailover n mfEnd mfCanStart => some (s.setNode n { s.nodes n with mfEnd, mfCanStart })
  | .saveConfig n => some (s.setNode n (clusterSaveConfig (s.nodes n)))
  | .beforeSleep n => some ((s.setNode n (clusterBeforeSleep (s.nodes n))).flush n)
  | .restart n nodes => some (s.setNode n (clusterRestart nodes (s.nodes n)))

structure ClusterStart (Node : Type) [DecidableEq Node] (voters : Finset Node) where
  config : Node → ClusterConfig Node
  knows : ∀ n, (config n).table.Knows voters n
  voted : ∀ n, (config n).lastVoteEpoch ≤ (config n).currentEpoch

def ClusterConfig.state (c : ClusterConfig Node) : ClusterState Node where
  table := c.table
  currentEpoch := c.currentEpoch
  lastVoteEpoch := c.lastVoteEpoch
  failoverAuthTime := 0
  failoverAuthCount := 0
  failoverAuthSent := false
  failoverAuthRank := 0
  failoverAuthEpoch := 0
  mfEnd := 0
  mfCanStart := false
  todoSave := false
  saved := c
  sndbuf := []
  votes := []

def ClusterStart.run {voters : Finset Node} (start : ClusterStart Node voters) : ClusterRun Node where
  nodes n := (start.config n).state
  links _ _ := []
  acks := []
  victories := []

end Run

end JitRedis.Cluster
