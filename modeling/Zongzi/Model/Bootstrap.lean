import Zongzi.Model.Agent

/-! # Bootstrap of the prime shard

An agent that starts polls its peers until it knows every member of the prime shard. Peers that have a
replica identifier are members; when no peer has one, identifiers are positions in the peer list and
the agent initializes the shard; otherwise an initialized peer is asked for its members. The agent then
forms the shard, waits for it to be formed, joins it or rejoins it.

The loops of the source end only on success, on an error, or with the agent. Here they take fuel, and
an agent whose fuel ends is still polling.
-/

namespace Zongzi

open Std Machine

def ErrAgentNotReady : String := "Agent not ready"

section Resolve

/-- What a poll of the peers has found: the members by identifier, and the hosts of the peers that have
no identifier yet. -/
structure Poll where
  members : ExtTreeMap ℕ String := ∅
  uninitialized : ExtTreeMap String String := ∅

/-- A peer without a host is not counted. -/
def Poll.add (poll : Poll) (apiAddr hostID : String) (replicaID : ℕ) : Poll :=
  if hostID = "" then poll
  else if replicaID = 0 then
    { poll with uninitialized := poll.uninitialized.insert apiAddr hostID }
  else { poll with members := poll.members.insert replicaID hostID }

/-- The host and replica identifiers of a peer. The agent answers for itself once its host runs. -/
def peerInfo (self apiAddr : String) : AgentM (Except String (String × ℕ)) := do
  if apiAddr = self then
    if (← Program.perform (AgentOp.hostID self)) ≠ "" then
      let replicaID ← Program.perform (AgentOp.replicaID self)
      let hostID ← Program.perform (AgentOp.hostID self)
      return .ok (hostID, replicaID)
    else Program.perform (AgentOp.info apiAddr)
  else Program.perform (AgentOp.info apiAddr)

/-- Poll peers in order up to the first error. -/
def pollPeers (self : String) : List String → Poll → AgentM (Poll × Option String)
  | [], poll => return (poll, none)
  | apiAddr :: peers, poll => do
    match ← peerInfo self apiAddr with
    | .error err => return (poll, some err)
    | .ok (hostID, replicaID) => pollPeers self peers (poll.add apiAddr hostID replicaID)

/-- Number the peers from `position + 1` on, and take the agent's own number. -/
def assignReplicaIDs (self : String) (uninitialized : ExtTreeMap String String) :
    List String → ℕ → ExtTreeMap ℕ String → AgentM (ExtTreeMap ℕ String)
  | [], _, members => return members
  | apiAddr :: peers, position, members => do
    let members := members.insert (position + 1) (uninitialized[apiAddr]?.getD "")
    if apiAddr = self then
      let _ ← Program.perform (AgentOp.setReplicaID self (position + 1))
      assignReplicaIDs self uninitialized peers (position + 1) members
    else assignReplicaIDs self uninitialized peers (position + 1) members

/-- Add the members a peer answered, up to the agent's own host. -/
def adoptMembers (self : String) :
    List (ℕ × String) → ExtTreeMap ℕ String → AgentM (ExtTreeMap ℕ String)
  | [], members => return members
  | (replicaID, hostID) :: answered, members => do
    let members := members.insert replicaID hostID
    if hostID = (← Program.perform (AgentOp.hostID self)) then
      let _ ← Program.perform (AgentOp.setReplicaID self replicaID)
      return members
    else adoptMembers self answered members

/-- Ask the first other peer that is not uninitialized for its members. -/
def queryMembers (self : String) (uninitialized : ExtTreeMap String String) :
    List String → ExtTreeMap ℕ String → AgentM (ExtTreeMap ℕ String × Option String)
  | [], members => return (members, none)
  | apiAddr :: peers, members => do
    if apiAddr = self then queryMembers self uninitialized peers members
    else if uninitialized.contains apiAddr then queryMembers self uninitialized peers members
    else
      match ← Program.perform (AgentOp.members apiAddr) with
      | .error err => return (members, some err)
      | .ok answered =>
        let answered ← rangeMap answered
        let members ← adoptMembers self answered members
        return (members, none)

/-- What `resolvePrimeMembership` returns. -/
structure Resolution where
  members : ExtTreeMap ℕ String
  init : Bool
  err : Option String

/-- Some peers are initialized. -/
def resolveInitialized (peers : List String) (self : String)
    (uninitialized : ExtTreeMap String String) (members : ExtTreeMap ℕ String) :
    AgentM (Option Resolution) := do
  if members.size + uninitialized.size = peers.length then
    match ← queryMembers self uninitialized peers members with
    | (members, some err) => return some ⟨members, false, some err⟩
    | (members, none) =>
      let replicaID ← Program.perform (AgentOp.replicaID self)
      if 0 < replicaID ∧ members.size = peers.length then return some ⟨members, false, none⟩
      else return none
  else return none

/-- All peers are uninitialized. -/
def resolveUninitialized (peers : List String) (self : String) (poll : Poll) :
    AgentM (Option Resolution) := do
  let members ← assignReplicaIDs self poll.uninitialized peers 0 poll.members
  let replicaID ← Program.perform (AgentOp.replicaID self)
  if 0 < replicaID then return some ⟨members, true, none⟩
  else resolveInitialized peers self poll.uninitialized members

/-- One pass of the loop. It returns nothing when the agent has to poll again. -/
def resolvePass (peers : List String) (self : String) : AgentM (Option Resolution) := do
  match ← pollPeers self peers {} with
  | (poll, some err) => return some ⟨poll.members, false, some err⟩
  | (poll, none) =>
    if poll.members.size = peers.length then return some ⟨poll.members, false, none⟩
    else if poll.uninitialized.size = peers.length then resolveUninitialized peers self poll
    else resolveInitialized peers self poll.uninitialized poll.members

/-- Resolve the peers to replica and host identifiers. -/
def resolvePrimeMembership (peers : List String) (self : String) : ℕ → AgentM (Option Resolution)
  | 0 => return none
  | fuel + 1 => do
    match ← resolvePass peers self with
    | some resolution => return some resolution
    | none => resolvePrimeMembership peers self fuel

end Resolve

section Initialize

/-- Add the hosts of the members, and list them by replica identifier. An identifier outside the list
is a panic. -/
def primeInitHosts : List (ℕ × String) → List String → AgentM (Except String (List String))
  | [], toAdd => return .ok toAdd
  | (replicaID, nhid) :: members, toAdd => do
    match ← primeAddHost nhid with
    | .error err => return .error err
    | .ok _ =>
      if 0 < replicaID ∧ replicaID ≤ toAdd.length then
        primeInitHosts members (toAdd.set (replicaID - 1) nhid)
      else return .error "index out of range"

def primeInitReplicas : List String → AgentM (Option String)
  | [] => return none
  | nhid :: toAdd => do
    match ← primeAddReplica nhid false with
    | .error err => return some err
    | .ok _ => primeInitReplicas toAdd

/-- Propose the initial cluster state: the prime shard, the hosts in any order, and the replicas in
the order of their identifiers. -/
def primeInit (members : ExtTreeMap ℕ String) : AgentM (Option String) := do
  match ← primePropose (newCmdShardPut { id := ShardID, name := "zongzi", type := projectUri }) with
  | .error err => return some err
  | .ok _ =>
    let entries ← rangeMap members
    match ← primeInitHosts entries (List.replicate members.size "") with
    | .error err => return some err
    | .ok toAdd => primeInitReplicas toAdd

end Initialize

section Start

/-- How far an agent has come. -/
inductive Startup where
  | running
  | failed (err : String)
  | started

def Startup.ofError : Option String → Startup
  | some err => .failed err
  | none => .started

def startPrimeReplica (members : ExtTreeMap ℕ String) (join : Bool) : AgentM (Option String) := do
  match ← Program.perform (AgentOp.startReplica members join) with
  | .error err => return some err
  | .ok _ => return none

/-- Wait until the agent's host has a replica. -/
def primeInitAwait (self : String) : ℕ → AgentM Startup
  | 0 => return .running
  | fuel + 1 => do
    match ← readState with
    | .error err => return .failed err
    | .ok snapshot =>
      let hostID ← Program.perform (AgentOp.hostID self)
      match snapshot.state.replicaIterateByHostID hostID with
      | .ok (_ :: _) => return .started
      | _ => primeInitAwait self fuel

/-- What a peer does with a request to join. -/
def join (apiAddr hostID : String) (isNonVoting : Bool) : AgentM (Except String ℕ) := do
  match ← Program.perform (AgentOp.status apiAddr) with
  | .error err => return .error err
  | .ok status =>
    if status = .ready then joinPrimeReplica hostID ShardID isNonVoting
    else return .error ErrAgentNotReady

/-- Ask the peers in order until one returns an identifier. -/
def joinPrimeShard (self : String) (isNonVoting : Bool) :
    List String → Except String ℕ → AgentM (Except String ℕ)
  | [], last => return last
  | apiAddr :: peers, _ => do
    let hostID ← Program.perform (AgentOp.hostID self)
    match ← join apiAddr hostID isNonVoting with
    | .error err => joinPrimeShard self isNonVoting peers (.error err)
    | .ok replicaID =>
      if 0 < replicaID then return .ok replicaID
      else joinPrimeShard self isNonVoting peers (.ok 0)

def startUntil : ℕ → AgentM Startup
  | 0 => return .running
  | fuel + 1 => do
    match ← startPrimeReplica ∅ true with
    | some _ => startUntil fuel
    | none => return .started

/-- Ask to join until a request succeeds, and start the replica. -/
def joinUntil (peers : List String) (self : String) : ℕ → AgentM Startup
  | 0 => return .running
  | fuel + 1 => do
    match ← joinPrimeShard self (!peers.contains self) peers (.ok 0) with
    | .error _ => joinUntil peers self fuel
    | .ok replicaID =>
      let _ ← Program.perform (AgentOp.setReplicaID self replicaID)
      startUntil fuel

/-- Start the host, find its replica in the log, and resolve the members. -/
def primeMembership (peers : List String) (self hostID : String) (localReplicaID fuel : ℕ) :
    AgentM (Option Resolution) := do
  let _ ← Program.perform (AgentOp.startHost self hostID)
  let _ ← Program.perform (AgentOp.setReplicaID self localReplicaID)
  match ← resolvePrimeMembership peers self fuel with
  | none => return none
  | some resolution =>
    let _ ← Program.perform (AgentOp.setMembers self resolution.members)
    return some resolution

/-- Form the prime shard. -/
def startInit (self : String) (members : ExtTreeMap ℕ String) : AgentM Startup := do
  let _ ← Program.perform (AgentOp.setStatus self .initializing)
  match ← startPrimeReplica members false with
  | some err => return .failed err
  | none => return .ofError (← primeInit members)

/-- Wait for another agent to form it. -/
def startAwait (self : String) (members : ExtTreeMap ℕ String) (fuel : ℕ) : AgentM Startup := do
  let _ ← Program.perform (AgentOp.setStatus self .joining)
  match ← startPrimeReplica members false with
  | some err => return .failed err
  | none => primeInitAwait self fuel

def startJoin (peers : List String) (self : String) (fuel : ℕ) : AgentM Startup := do
  let _ ← Program.perform (AgentOp.setStatus self .joining)
  joinUntil peers self fuel

def startRejoin (self : String) : AgentM Startup := do
  let _ ← Program.perform (AgentOp.setStatus self .rejoining)
  return .ofError (← startPrimeReplica ∅ false)

/-- The part of `Start` after which the agent is a member of the prime shard. -/
def startPrime (peers : List String) (self hostID : String) (localReplicaID fuel : ℕ) :
    AgentM Startup := do
  match ← primeMembership peers self hostID localReplicaID fuel with
  | none => return .running
  | some resolution =>
    match resolution.err with
    | some err => return .failed err
    | none =>
      let replicaID ← Program.perform (AgentOp.replicaID self)
      if replicaID = 0 then startJoin peers self fuel
      else if localReplicaID = 0 then
        if resolution.init then startInit self resolution.members
        else startAwait self resolution.members fuel
      else startRejoin self

end Start

end Zongzi
