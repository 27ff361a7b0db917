import Zongzi.Model.Bootstrap
import Zongzi.Model.HostController

/-! # The raft groups behind the registry

The registry says where the replicas of a shard should run. The raft group of the shard has members of its own, and
two ways lead from the one to the other. A host controller that bootstraps a replica hands raft the members it has
read from the registry. A host controller that joins sends an `Add` request to the hosts of these members, and the
agent that handles it asks raft for a change of membership. The prime shard apart, nothing else in the source changes
a raft group, and nothing takes a member out of it.

Requests and answers may be lost, delayed or repeated: a handler takes any request that was ever sent to its address,
a controller sees any answer to its request or an error, and a change that raft was asked for may take effect at any
later time. Replicas of one group may differ in what they take for their members, so a handler sees some part of all
that was accepted.
-/

namespace Zongzi

open Std Machine

instance : DecidableEq AddRequest := fun left right =>
  decidable_of_iff (left.hostID = right.hostID ∧ left.shardID = right.shardID ∧ left.replicaID = right.replicaID ∧
    left.isNonVoting = right.isNonVoting) <| by
    cases left
    cases right
    simp

/-- The calls of host controllers and of the handlers of `Add`. -/
inductive FabricOp where
  | host (op : HostOp)
  | send (apiAddress : String) (request : AddRequest)
  | await (apiAddress : String) (request : AddRequest)
  | receive (apiAddress : String)
  | reply (apiAddress : String) (request : AddRequest) (value : Except String ℕ)

abbrev FabricRes : FabricOp → Type
  | .host op => HostRes op
  | .send .. => Unit
  | .await .. => Except String ℕ
  | .receive _ => AddRequest
  | .reply .. => Unit

abbrev FabricM : Type → Type := Program FabricOp FabricRes

section Parties

/-- To the controller a request is one call. The request is sent before there is an answer. -/
def overNetwork : (op : HostOp) → FabricM (HostRes op)
  | .add apiAddress request => do
    let _ ← Program.perform (FabricOp.send apiAddress request)
    Program.perform (FabricOp.await apiAddress request)
  | .agent op => Program.perform (FabricOp.host (.agent op))
  | .getNodeHostInfo => Program.perform (FabricOp.host .getNodeHostInfo)
  | .startReplica factory members join config =>
    Program.perform (FabricOp.host (.startReplica factory members join config))

/-- The call of an agent. -/
def onAgent (op : AgentOp) : FabricM (AgentRes op) := Program.perform (FabricOp.host (.agent op))

/-- What an agent does with the request to add a replica. -/
def grpcAdd (apiAddress : String) (request : AddRequest) : AgentM (Except String ℕ) := do
  match ← Program.perform (AgentOp.status apiAddress) with
  | .error err => return .error err
  | .ok status =>
    if status = .ready then
      joinShardReplica request.hostID request.shardID request.replicaID request.isNonVoting
    else return .error ErrAgentNotReady

/-- Handle one request. -/
def handleAdd (apiAddress : String) : FabricM Unit := do
  let request ← Program.perform (FabricOp.receive apiAddress)
  let value ← (grpcAdd apiAddress request).interpret onAgent
  Program.perform (FabricOp.reply apiAddress request value)

end Parties

/-- The registry, the requests and the raft groups. -/
structure Fabric where
  cluster : Cluster
  /-- Every registry up to now. -/
  past : List State
  sent : List (String × AddRequest) := []
  answers : List (String × AddRequest × ℕ) := []
  /-- The changes of membership that raft was asked for. -/
  requested : List AddRequest := []
  /-- What some replica of a raft group takes for a member. -/
  members : List AddRequest := []

/-- What is chosen when a call is served. -/
inductive FabricChoice where
  | host (choice : HostChoice)
  | view (membership : Membership)
  /-- Whether raft takes the members, and the error that the caller sees. -/
  | raft (accepted : Bool) (err : Option String)
  | passed
  | received (request : AddRequest)
  | answered (value : ℕ)
  | failed (err : String)

namespace Fabric

/-- The members that a replica is started with vote. -/
def initial (shardID : ℕ) (members : ExtTreeMap ℕ String) : List AddRequest :=
  members.toList.map fun entry => { hostID := entry.2, shardID, replicaID := entry.1, isNonVoting := false }

/-- The members of a view, voting and not. -/
def viewed (shardID : ℕ) (membership : Membership) : List AddRequest :=
  initial shardID membership.nodes ++
    (initial shardID membership.nonVotings).map fun member => { member with isNonVoting := true }

/-- The cluster moves on. -/
def take (fabric : Fabric) (cluster : Cluster) : Fabric :=
  { fabric with cluster, past := cluster.registry :: fabric.past }

/-- Raft is asked to take members. -/
def accept (fabric : Fabric) (members : List AddRequest) : FabricChoice → Option (Except String Unit × Fabric)
  | .raft true none => some (.ok (), { fabric with members := members ++ fabric.members })
  | .raft true (some err) => some (.error err, { fabric with members := members ++ fabric.members })
  | .raft false (some err) => some (.error err, fabric)
  | _ => none

/-- Raft and the network have no part in the call. -/
def onHost (fabric : Fabric) (op : HostOp) : FabricChoice → Option (HostRes op × Fabric)
  | .host choice => (serveHost fabric.cluster op choice).map fun (answer, cluster) => (answer, fabric.take cluster)
  | _ => none

def serve : Serve Fabric FabricOp FabricRes FabricChoice := fun fabric op choice =>
  match op with
  | .host (.agent (.syncGetShardMembership shardID)) =>
    match choice with
    | .view membership =>
      if viewed shardID membership ⊆ fabric.members then some (.ok membership, fabric) else none
    | .failed err => some (.error err, fabric)
    | _ => none
  | .host (.agent (.syncRequestAdd shardID replicaID hostID isNonVoting _)) =>
    let change : AddRequest := { hostID, shardID, replicaID, isNonVoting }
    { fabric with requested := change :: fabric.requested }.accept [change] choice
  | .host (.startReplica _ members _ config) =>
    fabric.accept (initial config.shardID (members.getD ∅)) choice
  | .host op => fabric.onHost op choice
  | .send apiAddress request =>
    match choice with
    | .passed => some ((), { fabric with sent := (apiAddress, request) :: fabric.sent })
    | _ => none
  | .await apiAddress request =>
    match choice with
    | .answered value => if (apiAddress, request, value) ∈ fabric.answers then some (.ok value, fabric) else none
    | .failed err => some (.error err, fabric)
    | _ => none
  | .receive apiAddress =>
    match choice with
    | .received request => if (apiAddress, request) ∈ fabric.sent then some (request, fabric) else none
    | _ => none
  | .reply apiAddress request value =>
    match choice, value with
    | .passed, .ok value => some ((), { fabric with answers := (apiAddress, request, value) :: fabric.answers })
    | .passed, .error _ => some ((), fabric)
    | _, _ => none

end Fabric

/-- What happens to the registry, the raft groups and the agents on its own. -/
inductive FabricEvent where
  | entry (entry : Entry)
  /-- A change that raft was asked for takes effect. -/
  | land (change : AddRequest)
  | agent (apiAddress : String) (agent : Agent)

def Fabric.outside (fabric : Fabric) : FabricEvent → Option Fabric
  | .entry entry => (fabric.cluster.take entry).map fabric.take
  | .land change =>
    if change ∈ fabric.requested then some { fabric with members := change :: fabric.members } else none
  | .agent apiAddress agent => some (fabric.take (fabric.cluster.setAgent apiAddress fun _ => agent))

/-- Host controllers, and any number of handlers at every address. -/
def raftGroups {ι : Type} (setup : ι → HostController.Setup) :
    ActorSystem Fabric FabricEvent (ι ⊕ String × ℕ) ℕ ℕ FabricOp FabricRes FabricChoice ℕ where
  serve := Fabric.serve
  outside := Fabric.outside
  start
    | .inl i, fuel, index => (HostController.tick (setup i) fuel index).interpret overNetwork
    | .inr handler, _, index => do
      handleAdd handler.1
      return index
  finish _ _ index := index

/-- No registry, no requests and no raft groups yet. -/
def Fabric.fresh (agents : String → Agent) : Fabric where
  cluster := { registry := {}, agents }
  past := [{}]

def idleFabric {ι : Type} (agents : String → Agent) :
    Actors Fabric (ι ⊕ String × ℕ) ℕ FabricOp FabricRes ℕ where
  shared := .fresh agents
  memory _ := 0
  running _ := none

end Zongzi
