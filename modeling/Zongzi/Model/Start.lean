import Zongzi.Model.Bootstrap

/-! # The end of a start

An agent that has become a member of the prime shard describes its host to the registry, sets its replica of the
prime shard active and is ready.
-/

namespace Zongzi

open Std Machine

/-- What an agent says about its host. -/
structure HostConfig where
  raftAddress : String := ""
  hostTags : List String := []
  /-- The keys of the registered shard types. -/
  shardTypes : ExtTreeSet String := ∅

/-- Put the record of the agent's own host. -/
def updateHost (self : String) (config : HostConfig) : AgentM (Option String) := do
  let hostID ← Program.perform (AgentOp.hostID self)
  match ← Program.perform (AgentOp.parseMeta hostID) with
  | .error err => return some err
  | .ok apiAddr =>
    let hostID ← Program.perform (AgentOp.hostID self)
    match ← primePropose (newCmdHostPut hostID apiAddr config.raftAddress config.hostTags .active
        (some config.shardTypes.toList)) with
    | .error err => return some err
    | .ok _ => return none

def updateReplica (self : String) : AgentM (Option String) := do
  let replicaID ← Program.perform (AgentOp.replicaID self)
  match ← primePropose (newCmdReplicaUpdateStatus replicaID .active) with
  | .error err => return some ("Failed to update replica status: " ++ err)
  | .ok _ => return none

def start (peers : List String) (self hostID : String) (localReplicaID fuel : ℕ) (config : HostConfig) :
    AgentM Startup := do
  match ← startPrime peers self hostID localReplicaID fuel with
  | .started =>
    match ← updateHost self config with
    | some err => return .failed err
    | none =>
      match ← updateReplica self with
      | some err => return .failed err
      | none =>
        let _ ← Program.perform (AgentOp.setStatus self .ready)
        return .started
  | startup => return startup

/-- The operations that register hosts. -/
inductive StartCall where
  | joinPrimeReplica (hostID : String) (shardID : ℕ) (isNonVoting : Bool)
  | primeInit (members : ExtTreeMap ℕ String)
  | start (peers : List String) (self hostID : String) (localReplicaID fuel : ℕ) (config : HostConfig)

def StartCall.program : StartCall → AgentM Unit
  | .joinPrimeReplica hostID shardID isNonVoting => (fun _ => ()) <$> Zongzi.joinPrimeReplica hostID shardID isNonVoting
  | .primeInit members => (fun _ => ()) <$> Zongzi.primeInit members
  | .start peers self hostID localReplicaID fuel config =>
    (fun _ => ()) <$> Zongzi.start peers self hostID localReplicaID fuel config

end Zongzi
