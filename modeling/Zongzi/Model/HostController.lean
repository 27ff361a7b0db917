import Zongzi.Model.ControllerManager

/-! # The host controller

A tick of the host controller starts the replicas that the registry assigns to its host and that the node
host does not run. It decides on one snapshot, whatever happens to the registry while replicas start. The
node host and the other agents answer from outside the model.

The loops that try again until a shard was joined have fuel. A tick that runs out of it would go on in the
source; here it ends without raising the index.
-/

namespace Zongzi

open Std Machine

/-- The fields of a replica's configuration that the host controller sets. -/
structure ReplicaConfig where
  shardID : ℕ := 0
  replicaID : ℕ := 0
  isNonVoting : Bool := false
  waitReady : Bool := false
deriving DecidableEq

/-- A state machine is started in memory or on disk. -/
inductive Factory where
  | stateMachine
  | stateMachinePersistent
deriving DecidableEq

/-- What an agent has registered for a type of shards. -/
structure ShardType where
  config : ReplicaConfig := {}
  factory : Factory

/-- A replica that the node host runs. -/
structure ShardInfo where
  replicaID : ℕ
  isNonVoting : Bool := false

structure AddRequest where
  hostID : String
  shardID : ℕ
  replicaID : ℕ
  isNonVoting : Bool

/-- The calls of a host controller: those of its agent, of its node host, and to other agents. -/
inductive HostOp where
  | agent (op : AgentOp)
  | getNodeHostInfo
  /-- `StartConcurrentReplica` or `StartOnDiskReplica`. -/
  | startReplica (factory : Factory) (members : Option (ExtTreeMap ℕ String)) (join : Bool)
      (config : ReplicaConfig)
  | add (apiAddress : String) (request : AddRequest)

abbrev HostRes : HostOp → Type
  | .agent op => AgentRes op
  | .getNodeHostInfo => List ShardInfo
  | .startReplica .. => Except String Unit
  | .add .. => Except String ℕ

abbrev HostM : Type → Type := Program HostOp HostRes

section Join

/-- Ask one agent until it answers. -/
def addReplica (apiAddress : String) (request : AddRequest) : (fuel : ℕ) → HostM (Option ℕ)
  | 0 => return none
  | fuel + 1 => do
    match ← Program.perform (HostOp.add apiAddress request) with
    | .ok value => return some value
    | .error _ => addReplica apiAddress request fuel

/-- Ask the members one after the other. A member whose host cannot be read is asked at the address of the
member before it. -/
def requestMembers (request : AddRequest) (fuel : ℕ) :
    List (ℕ × String) → (host : Option Host) → (value : ℕ) → HostM (Option ℕ)
  | [], _, value => return some value
  | (_, hostID) :: members, host, value => do
    let host ← match ← Program.perform (HostOp.agent .read) with
      | .error _ => pure host
      | .ok snapshot => pure (snapshot.state.host hostID).toOption.join
    match host with
    | none => requestMembers request fuel members none value
    | some found =>
      match ← addReplica found.apiAddress request fuel with
      | none => return none
      | some value =>
        if 0 < value then return some value else requestMembers request fuel members host value

/-- Request that a replica is added to a shard. -/
def requestShardJoin (members : ExtTreeMap ℕ String) (request : AddRequest) (fuel : ℕ) : HostM (Option ℕ) := do
  let members ← Program.visit (fun count => Program.perform (HostOp.agent (.order count))) members
  requestMembers request fuel members none 0

/-- Request again until the replica was added. -/
def joinShard (members : ExtTreeMap ℕ String) (request : AddRequest) : (fuel : ℕ) → HostM (Option ℕ)
  | 0 => return none
  | fuel + 1 => do
    match ← requestShardJoin members request (fuel + 1) with
    | none => return none
    | some value => if 0 < value then return some value else joinShard members request fuel

end Join

namespace HostController

/-- The host of a controller and the types its agent has registered. -/
structure Setup where
  hostID : String
  shardTypes : String → Option ShardType

/-- The error of a call, if any. -/
def errorOf {α : Type} : Except String α → Option String
  | .ok _ => none
  | .error err => some err

/-- Start one replica as its status asks. A replica in another status is left alone, and the error is that
of the replica before it. -/
def startReplica (setup : Setup) (fuel : ℕ) (item : ShardType) (members : ExtTreeMap ℕ String)
    (shard : Shard) (replica : Replica) (err : Option String) : HostM (Option (Option String)) := do
  let config := { item.config with
    shardID := shard.id
    replicaID := replica.id
    isNonVoting := replica.isNonVoting
    waitReady := true }
  match replica.status with
  | .bootstrapping =>
    if members.size < 3 then return some (some "Not enough members")
    else
      let started ← Program.perform (HostOp.startReplica item.factory (some members) false config)
      return some (errorOf started)
  | .joining =>
    let request := {
      hostID := setup.hostID
      shardID := shard.id
      replicaID := replica.id
      isNonVoting := replica.isNonVoting }
    match ← joinShard members request fuel with
    | none => return none
    | some _ =>
      let started ← Program.perform (HostOp.startReplica item.factory none true config)
      return some (errorOf started)
  | .active =>
    let started ← Program.perform (HostOp.startReplica item.factory none false config)
    return some (errorOf started)
  | _ => return some err

/-- Start every replica that is not running and report it active. The result is whether there was an
error, or `none` when the tick did not end. -/
def startMissing (setup : Setup) (fuel : ℕ) (state : State) :
    List (ℕ × Bool) → (err : Option String) → (hadErr : Bool) → HostM (Option Bool)
  | [], _, hadErr => return some hadErr
  | (id, running) :: found, err, hadErr => do
    if running then startMissing setup fuel state found err hadErr
    else match state.replica id with
      | none => startMissing setup fuel state found err true
      | some replica =>
        match state.shard replica.shardID with
        | none => startMissing setup fuel state found err true
        | some shard =>
          match setup.shardTypes shard.type with
          | none => startMissing setup fuel state found err hadErr
          | some item =>
            match ← startReplica setup fuel item (state.shardMembers shard.id) shard replica err with
            | none => return none
            | some (some err) => startMissing setup fuel state found (some err) true
            | some none =>
              match ← Program.perform
                  (HostOp.agent (.propose (newCmdReplicaUpdateStatus replica.id .active))) with
              | .error err => startMissing setup fuel state found (some err) true
              | .ok result => startMissing setup fuel state found none (hadErr || result.value != 1)

/-- The replicas that should exist on the host, outside the prime shard, and which of them do. -/
def findReplicas (state : State) (assigned : List Replica) (infos : List ShardInfo) : ExtTreeMap ℕ Bool :=
  let found := assigned.foldl
    (fun found replica => if 0 < replica.shardID then found.insert replica.id false else found) ∅
  infos.foldl (fun found info =>
    match state.replica info.replicaID with
    | some replica => found.insert replica.id true
    | none => found) found

/-- Start the assigned replicas that the node host does not run. -/
def startAssigned (setup : Setup) (fuel : ℕ) (state : State) (assigned : List Replica) :
    HostM (Option Bool) := do
  let infos ← Program.perform HostOp.getNodeHostInfo
  let found ← Program.visit (fun count => Program.perform (HostOp.agent (.order count)))
    (findReplicas state assigned infos)
  startMissing setup fuel state found none false

/-- What a tick does with its snapshot; the result is the new index. An identifier that does not parse stops
the process, so there is nothing to model of that tick. -/
def reconcileHost (setup : Setup) (fuel index : ℕ) (state : State) : HostM ℕ :=
  match state.host setup.hostID, state.replicaIterateByHostID setup.hostID with
  | .ok (some host), .ok assigned =>
    if host.updated ≤ index then return index
    else do
      match ← startAssigned setup fuel state assigned with
      | some false => return host.updated
      | _ => return index
  | _, _ => return index

def tick (setup : Setup) (fuel index : ℕ) : HostM ℕ := do
  match ← Program.perform (HostOp.agent .read) with
  | .error _ => return index
  | .ok snapshot => reconcileHost setup fuel index snapshot.state

end HostController

section System

/-- What is chosen when a call of a host controller is served. -/
inductive HostChoice where
  | agent (choice : Choice)
  | running (infos : List ShardInfo)
  | started
  | added (value : ℕ)
  | failed (err : String)

def serveHost : Serve Cluster HostOp HostRes HostChoice := fun cluster op choice =>
  match op, choice with
  | .agent op, .agent choice => cluster.serveRegular op choice
  | .getNodeHostInfo, .running infos => some (infos, cluster)
  | .startReplica .., .started => some (.ok (), cluster)
  | .startReplica .., .failed err => some (.error err, cluster)
  | .add .., .added value => some (.ok value, cluster)
  | .add .., .failed err => some (.error err, cluster)
  | _, _ => none

/-- The index of a host controller, with the calls of its ticks so far. -/
structure HostMemory where
  index : ℕ := 0
  calls : List (Σ op, HostRes op) := []

/-- Host controllers beside everything else that reaches the registry. -/
def hostControllers {ι : Type} (setup : ι → HostController.Setup) :
    ActorSystem Cluster Entry ι HostMemory ℕ HostOp HostRes HostChoice (ℕ × List (Σ op, HostRes op)) where
  serve := serveHost
  outside := Cluster.take
  start i fuel memory := (HostController.tick (setup i) fuel memory.index).record
  finish _ memory := fun (index, calls) => { index, calls := memory.calls ++ calls }

/-- Controllers that have not ticked yet. -/
def idleControllers {ι : Type} (cluster : Cluster) :
    Actors Cluster ι HostMemory HostOp HostRes (ℕ × List (Σ op, HostRes op)) where
  shared := cluster
  memory _ := {}
  running _ := none

end System

end Zongzi
