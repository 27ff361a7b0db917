import Zongzi.Model.Fsm
import Zongzi.Model.ShardController

/-! # Agents and the cluster they share

An agent's operations are programs over the calls that other agents can observe or delay: reading the
registry, proposing a command, polling another agent, reading and writing its own fields. The cluster
serves one call at a time. A proposal is applied by the state machine under a later index and
acknowledged, or applied while its caller sees an error, or lost. Every answer from outside the model
(raft membership, host metadata, cancellation, map order) is a choice of the cluster.

A panic of the state machine stops every host on the same entry, so the cluster does not serve a
proposal that panics.
-/

namespace Zongzi

open Std Machine

/-- The prime shard. -/
def ShardID : ℕ := 0

def projectUri : String := "zongzi://github.com/logbn/zongzi"

inductive AgentStatus where
  | initializing
  | joining
  | pending
  | ready
  | rejoining
  | stopped
deriving DecidableEq

/-- The fields of an agent that other agents read or that its own steps change. -/
structure Agent where
  /-- Empty until the node host runs. -/
  hostID : String := ""
  replicaID : ℕ := 0
  members : ExtTreeMap ℕ String := ∅
  status : AgentStatus := .pending

/-- The membership of a raft shard. -/
structure Membership where
  nodes : ExtTreeMap ℕ String
  nonVotings : ExtTreeMap ℕ String
  configChangeID : ℕ

/-- The calls of an agent. Those on an agent's own fields name the agent by its address. -/
inductive AgentOp where
  /-- A linearizable read transaction. -/
  | read
  | propose (cmd : Cmd)
  | order (count : ℕ)
  /-- Has the context been cancelled? -/
  | cancelled
  | parseMeta (nhid : String)
  | syncGetShardMembership (shardID : ℕ)
  | syncRequestAdd (shardID replicaID : ℕ) (hostID : String) (isNonVoting : Bool)
      (configChangeID : ℕ)
  | startReplica (members : ExtTreeMap ℕ String) (join : Bool)
  | info (apiAddr : String)
  | members (apiAddr : String)
  | status (apiAddr : String)
  | hostID (self : String)
  | replicaID (self : String)
  | startHost (self : String) (hostID : String)
  | setReplicaID (self : String) (replicaID : ℕ)
  | setMembers (self : String) (members : ExtTreeMap ℕ String)
  | setStatus (self : String) (status : AgentStatus)

abbrev AgentRes : AgentOp → Type
  | .read => Except String Snapshot
  | .propose _ => Except String Result
  | .order count => Program.Order count
  | .cancelled => Bool
  | .parseMeta _ => Except String String
  | .syncGetShardMembership _ => Except String Membership
  | .syncRequestAdd .. => Except String Unit
  | .startReplica .. => Except String Unit
  | .info _ => Except String (String × ℕ)
  | .members _ => Except String (ExtTreeMap ℕ String)
  | .status _ => Except String AgentStatus
  | .hostID _ => String
  | .replicaID _ => ℕ
  | .startHost .. => Unit
  | .setReplicaID .. => Unit
  | .setMembers .. => Unit
  | .setStatus .. => Unit

abbrev AgentM : Type → Type := Program AgentOp AgentRes

/-- The registry of the prime shard and the agents by address. -/
structure Cluster where
  registry : State
  agents : String → Agent

/-- What the cluster chooses when it serves a call. -/
inductive Choice where
  /-- Serve the call. -/
  | serve
  /-- Serve a read with these answers of the tag index. -/
  | snapshot (hostIterateByTag : String → List Host)
  /-- Apply a proposal under this index and acknowledge it. -/
  | applied (index : ℕ)
  /-- Apply a proposal under this index and let the caller see an error. -/
  | timedOut (index : ℕ) (err : String)
  /-- Do nothing and let the caller see an error. -/
  | failed (err : String)
  | order (order : List ℕ)
  | flag (value : Bool)
  | meta_ (apiAddr : String)
  | membership (membership : Membership)

/-- The proposal is applied. -/
def Choice.applies : Choice → Bool
  | .applied _ => true
  | .timedOut .. => true
  | _ => false

/-- The caller sees an error. -/
def Choice.isFault : Choice → Bool
  | .failed _ => true
  | .timedOut .. => true
  | _ => false

namespace Cluster

def setAgent (cluster : Cluster) (self : String) (change : Agent → Agent) : Cluster :=
  { cluster with agents := Function.update cluster.agents self (change (cluster.agents self)) }

/-- Apply a command under an index the log has not reached. -/
def apply (cluster : Cluster) (index : ℕ) (cmd : Cmd) : Option (Result × Cluster) :=
  if cluster.registry.index < index then
    match Fsm.update cluster.registry { index, cmd } with
    | .ok (registry, result) => some (result, { cluster with registry })
    | .error _ => none
  else none

def serve : Serve Cluster AgentOp AgentRes Choice := fun cluster op choice =>
  match op, choice with
  | .read, .snapshot hostIterateByTag => some (.ok ⟨cluster.registry, hostIterateByTag⟩, cluster)
  | .read, .failed err => some (.error err, cluster)
  | .propose cmd, .applied index =>
    (cluster.apply index cmd).map fun (result, next) => (.ok result, next)
  | .propose cmd, .timedOut index err =>
    (cluster.apply index cmd).map fun (_, next) => (.error err, next)
  | .propose _, .failed err => some (.error err, cluster)
  | .order count, .order order =>
    if permutes : order.Perm (List.range count) then some (⟨order, permutes⟩, cluster) else none
  | .cancelled, .flag value => some (value, cluster)
  | .parseMeta _, .meta_ apiAddr => some (.ok apiAddr, cluster)
  | .parseMeta _, .failed err => some (.error err, cluster)
  | .syncGetShardMembership _, .membership membership => some (.ok membership, cluster)
  | .syncGetShardMembership _, .failed err => some (.error err, cluster)
  | .syncRequestAdd .., .serve => some (.ok (), cluster)
  | .syncRequestAdd .., .failed err => some (.error err, cluster)
  | .startReplica .., .serve => some (.ok (), cluster)
  | .startReplica .., .failed err => some (.error err, cluster)
  | .info apiAddr, .serve =>
    some (.ok ((cluster.agents apiAddr).hostID, (cluster.agents apiAddr).replicaID), cluster)
  | .info _, .failed err => some (.error err, cluster)
  | .members apiAddr, .serve => some (.ok (cluster.agents apiAddr).members, cluster)
  | .members _, .failed err => some (.error err, cluster)
  | .status apiAddr, .serve => some (.ok (cluster.agents apiAddr).status, cluster)
  | .status _, .failed err => some (.error err, cluster)
  | .hostID self, .serve => some ((cluster.agents self).hostID, cluster)
  | .replicaID self, .serve => some ((cluster.agents self).replicaID, cluster)
  | .startHost self hostID, .serve =>
    some ((), cluster.setAgent self fun agent => { agent with hostID })
  | .setReplicaID self replicaID, .serve =>
    some ((), cluster.setAgent self fun agent => { agent with replicaID })
  | .setMembers self members, .serve =>
    some ((), cluster.setAgent self fun agent => { agent with members })
  | .setStatus self status, .serve =>
    some ((), cluster.setAgent self fun agent => { agent with status })
  | _, _ => none

end Cluster

section Calls

/-- Read the registry. After an error the callback has not run. -/
def readState : AgentM (Except String Snapshot) := Program.perform AgentOp.read

def primePropose (cmd : Cmd) : AgentM (Except String Result) := Program.perform (AgentOp.propose cmd)

def rangeMap {κ β : Type} [Ord κ] [TransOrd κ] (entries : ExtTreeMap κ β) : AgentM (List (κ × β)) :=
  Program.visit (fun count => Program.perform (AgentOp.order count)) entries

/-- An option changes the shard and may report an error. -/
abbrev ShardOption : Type := Shard → Shard × Option String

def WithName (name : String) : ShardOption := fun shard => ({ shard with name }, none)

/-- Apply options up to the first error. -/
def applyOptions : List ShardOption → Shard → Shard × Option String
  | [], shard => (shard, none)
  | option :: options, shard =>
    match option shard with
    | (shard, none) => applyOptions options shard
    | (shard, some err) => (shard, some err)

/-- What `ShardCreate` returns. -/
structure Creation where
  shard : Shard
  created : Bool
  err : Option String

/-- The shard that options build on. -/
def newShard (uri : String) : Shard := { status := .new, type := uri, tags := some ∅ }

/-- Touch a shard that was found by its name, or post a new one. The result of the post is used as the
new identifier whatever it says. -/
def touchOrPost (shard : Shard) : Option Shard → AgentM Creation
  | some found => do
    match ← primePropose (newCmdShardTouch found.id) with
    | .ok _ => return ⟨found, false, none⟩
    | .error err => return ⟨found, false, some err⟩
  | none => do
    match ← primePropose (newCmdShardPost shard) with
    | .error err => return ⟨shard, false, some err⟩
    | .ok result => return ⟨{ shard with id := result.value }, true, none⟩

/-- Create a shard. If it is named and a shard of that name is found, the found shard is returned. -/
def shardCreate (uri : String) (opts : List ShardOption) : AgentM Creation :=
  match applyOptions opts (newShard uri) with
  | (shard, some err) => return ⟨shard, false, some err⟩
  | (shard, none) => do
    if shard.name = "" then touchOrPost shard none
    else match ← readState with
      | .ok snapshot => touchOrPost shard (snapshot.state.shardFindByName shard.name)
      | .error _ => touchOrPost shard none

/-- Deleting returns an error when nothing was deleted. -/
def shardDelete (id : ℕ) : AgentM (Option String) := do
  match ← primePropose (newCmdShardDel id) with
  | .error err => return some err
  | .ok result =>
    if result.value = 0 then
      return some ("Error deleting shard " ++ toString id ++ ": " ++ result.data)
    else return none

def tagsSet (subject : Subject) (tags : List String) : AgentM (Option String) := do
  match ← primePropose (newCmdTagsSet subject tags) with
  | .error err => return some err
  | .ok _ => return none

def tagsRemove (subject : Subject) (tags : List String) : AgentM (Option String) := do
  match ← primePropose (newCmdTagsRemove subject tags) with
  | .error err => return some err
  | .ok _ => return none

def replicaCreate (hostID : String) (shardID : ℕ) (isNonVoting : Bool) : AgentM (Except String ℕ) := do
  match ← primePropose (newCmdReplicaPost hostID shardID isNonVoting) with
  | .error err => return .error err
  | .ok result => return .ok result.value

def replicaDelete (replicaID : ℕ) : AgentM (Except String Unit) := do
  match ← primePropose (newCmdReplicaDelete replicaID) with
  | .error err => return .error err
  | .ok _ => return .ok ()

/-- Propose the metadata of a host to the prime shard. -/
def primeAddHost (nhid : String) : AgentM (Except String Host) := do
  match ← Program.perform (AgentOp.parseMeta nhid) with
  | .error err => return .error err
  | .ok addr =>
    match ← primePropose (newCmdHostPut nhid addr "" [] .new none) with
    | .error err => return .error err
    | .ok _ => return .ok { id := nhid, status := .new }

/-- Propose a replica of the prime shard. -/
def primeAddReplica (nhid : String) (isNonVoting : Bool) : AgentM (Except String ℕ) := do
  match ← primePropose (newCmdReplicaPost nhid ShardID isNonVoting) with
  | .error err => return .error err
  | .ok result => return .ok result.value

/-- Add a replica to the raft membership of its shard, unless it is a member already. -/
def joinShardReplica (hostID : String) (shardID replicaID : ℕ) (isNonVoting : Bool) :
    AgentM (Except String ℕ) := do
  match ← Program.perform (AgentOp.syncGetShardMembership shardID) with
  | .error err => return .error err
  | .ok membership =>
    let joined := if isNonVoting then membership.nonVotings else membership.nodes
    if joined.contains replicaID then return .ok replicaID
    else
      match ← Program.perform
          (AgentOp.syncRequestAdd shardID replicaID hostID isNonVoting membership.configChangeID) with
      | .error err => return .error err
      | .ok _ => return .ok replicaID

/-- The first replica of a shard on a host, zero if there is none. -/
def findReplicaID (snapshot : Snapshot) (hostID : String) (shardID : ℕ) : ℕ :=
  match snapshot.state.replicaIterateByHostID hostID with
  | .error _ => 0
  | .ok replicas => ((replicas.find? (·.shardID = shardID)).map Replica.id).getD 0

/-- The record of a host that wants to join, which is added if it is missing. -/
def joinPrimeHost (hostID : String) : AgentM (Except String Host) := do
  match ← readState with
  | .error _ => primeAddHost hostID
  | .ok snapshot =>
    let host := snapshot.state.hostOrZero hostID
    if host.id = "" then primeAddHost hostID else return .ok host

/-- The identifier of the host's replica, which is added if it is missing. -/
def joinPrimeRecord (hostID : String) (host : Host) (shardID : ℕ) (isNonVoting : Bool) :
    AgentM (Except String ℕ) := do
  match ← readState with
  | .error _ => primeAddReplica hostID isNonVoting
  | .ok snapshot =>
    let replicaID := findReplicaID snapshot host.id shardID
    if replicaID = 0 then primeAddReplica hostID isNonVoting else return .ok replicaID

/-- Register the host, then its replica, then join. Each registration is decided by a read of its
own. -/
def joinPrimeReplica (hostID : String) (shardID : ℕ) (isNonVoting : Bool) :
    AgentM (Except String ℕ) := do
  match ← joinPrimeHost hostID with
  | .error err => return .error err
  | .ok host =>
    match ← joinPrimeRecord hostID host shardID isNonVoting with
    | .error err => return .error err
    | .ok replicaID => joinShardReplica hostID shardID replicaID isNonVoting

end Calls

section ControllerManager

/-- Controls propose through the agent and remember whether anything was updated. -/
def controls : (op : ControlOp) → StateT Bool AgentM (ControlRes op)
  | .order count => StateT.lift (Program.perform (AgentOp.order count))
  | .create hostID shardID isNonVoting => do
    let id ← StateT.lift (replicaCreate hostID shardID isNonVoting)
    if id.isOk then set true
    return id
  | .delete replicaID => do
    let deleted ← StateT.lift (replicaDelete replicaID)
    if deleted.isOk then set true
    return deleted

/-- Record the outcome of a reconciliation in the tags of its shard. The result is whether there was
an error. -/
def reportError (shard : Shard) : Option String → AgentM Bool
  | some err => do
    let _ ← tagsSet (.shard shard) ["zongzi:controller:error=" ++ err]
    return true
  | none => do
    if (shard.tags.getD ∅).contains "zongzi:controller:error" then
      let _ ← tagsRemove (.shard shard) ["zongzi:controller:error"]
    return false

/-- Reconcile shards of one snapshot until one of them causes an update. The first result is whether
the controls of the last reconciled shard updated anything, or what it was before if there was none. -/
def reconcileShards (controller : Controller) (snapshot : Snapshot) :
    List Shard → (updated hadErr : Bool) → AgentM (Bool × Bool)
  | [], updated, hadErr => return (updated, hadErr)
  | shard :: shards, updated, hadErr => do
    if ← Program.perform AgentOp.cancelled then return (updated, hadErr)
    else if shard.id = ShardID then reconcileShards controller snapshot shards updated hadErr
    else
      let (err, updated) ← ((controller snapshot shard).interpret controls).run false
      let failed ← reportError shard err
      let hadErr := hadErr || failed
      if updated then return (updated, hadErr)
      else reconcileShards controller snapshot shards updated hadErr

/-- Passes over fresh snapshots while the last one updated anything. A tick that is not done after `fuel`
of them goes on in the source; here it ends like one with an error, so that it raises nothing. -/
def tickPasses (controller : Controller) (after : ℕ) :
    (fuel index : ℕ) → (updated hadErr : Bool) → AgentM (ℕ × Bool)
  | 0, index, _, _ => return (index, true)
  | fuel + 1, index, updated, hadErr => do
    match ← readState with
    | .error _ => return (index, true)
    | .ok snapshot =>
      let (updated, hadErr) ← reconcileShards controller snapshot
        (snapshot.state.shardIterateUpdatedAfter after) updated hadErr
      if updated then tickPasses controller after fuel snapshot.state.index updated hadErr
      else return (snapshot.state.index, hadErr)

/-- One tick of the controller manager; the result is its new index. -/
def tick (controller : Controller) (isLeader : Bool) (fuel index : ℕ) : AgentM ℕ := do
  if isLeader then
    let (reached, hadErr) ← tickPasses controller index fuel 0 false false
    return if !hadErr && index < reached then reached else index
  else return index

end ControllerManager

/-- The operations that agents run side by side. -/
inductive Call where
  | shardCreate (uri : String) (opts : List ShardOption)
  | shardDelete (id : ℕ)
  | joinPrimeReplica (hostID : String) (isNonVoting : Bool)
  | tick (isLeader : Bool) (fuel index : ℕ)

inductive Reply where
  | created (creation : Creation)
  | deleted (err : Option String)
  | joined (replicaID : Except String ℕ)
  | ticked (index : ℕ)

def Call.program (controller : Controller) : Call → AgentM Reply
  | .shardCreate uri opts => .created <$> Zongzi.shardCreate uri opts
  | .shardDelete id => .deleted <$> Zongzi.shardDelete id
  | .joinPrimeReplica hostID isNonVoting =>
    .joined <$> Zongzi.joinPrimeReplica hostID ShardID isNonVoting
  | .tick isLeader fuel index => .ticked <$> Zongzi.tick controller isLeader fuel index

/-- Calls that share a cluster, before their first step. -/
def callPool {ι : Type} (controller : Controller) (cluster : Cluster) (calls : ι → Call) :
    Pool Cluster ι AgentOp AgentRes Reply where
  shared := cluster
  threads i := (calls i).program controller

end Zongzi
