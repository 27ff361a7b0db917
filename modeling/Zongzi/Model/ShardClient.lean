import Zongzi.Model.Requests

/-! # Routing requests to shards

The client manager keeps for every shard the hosts of its replicas and of its members in the order of their pings,
and the host of its leader. A tick rebuilds the entries of the shards that have changed since the last one. A shard
client tries the hosts of its shard in this order until one of them serves its request.

A tick reads the registry of its own agent. The hosts it does not know yet are looked up in the same registry.
-/

namespace Zongzi

open Std Machine

structure HostClientLeader where
  client : HostClient
  replicaID : ℕ
  term : ℕ
deriving DecidableEq

/-- An ordered map from pings to clients. -/
abbrev PingMap : Type := List (ℤ × HostClient)

/-- A key that is set again keeps its place. -/
def PingMap.set (entries : PingMap) (ping : ℤ) (client : HostClient) : PingMap :=
  if entries.any (·.1 = ping) then
    entries.map fun entry => if entry.1 = ping then (ping, client) else entry
  else entries ++ [(ping, client)]

structure ClientManager where
  /-- The client of an unknown host has no agent. -/
  clientHost : ExtTreeMap String (Option HostClient) := ∅
  clientLeader : ExtTreeMap ℕ HostClientLeader := ∅
  clientMember : ExtTreeMap ℕ PingMap := ∅
  clientReplica : ExtTreeMap ℕ PingMap := ∅
  index : ℕ := 0

namespace ClientManager

/-- What stops a tick. -/
inductive Failure where
  | registry (panic : Panic)
  /-- A host that is not in the registry was pinged. -/
  | nilAgent (hostID : String)

def hostClient (state : State) (hostID : String) : Except Failure (Option HostClient) :=
  match state.host hostID with
  | .error panic => .error (.registry panic)
  | .ok host => .ok (host.map HostClient.mk)

/-- What a tick is given: the answers of other hosts, for the replica at which they are asked, and the sorting of its
lists, which leaves the order of equal pings open. -/
structure Pings where
  answer : ℕ → Except String ℤ
  sort : PingMap → PingMap
  perm : ∀ entries, (sort entries).Perm entries
  sorted : ∀ entries, (sort entries).Pairwise (·.1 ≤ ·.1)

instance : CoeFun Pings fun _ => ℕ → Except String ℤ := ⟨Pings.answer⟩

/-- Equal pings stay in the order in which they are found. -/
def Pings.stable (answer : ℕ → Except String ℤ) : Pings where
  answer
  sort entries := entries.mergeSort fun left right => left.1 ≤ right.1
  perm entries := List.mergeSort_perm entries _
  sorted entries := (List.pairwise_mergeSort (fun first second third => by simpa using Int.le_trans)
    (fun left right => by simpa using Int.le_total left.1 right.1) entries).imp of_decide_eq_true

/-- An agent does not ping its own host. -/
def ping (self : String) (answers : Pings) (replicaID : ℕ) (client : HostClient) : Except String ℤ :=
  if client.host.id = self then .ok 0 else answers replicaID

/-- What a tick has found about the replicas of a shard. -/
structure Visit where
  clientHost : ExtTreeMap String (Option HostClient)
  /-- The pings of the tick, also those for other shards. -/
  pings : ExtTreeMap String ℤ
  members : PingMap := []
  replicas : PingMap := []
  leaderClient : Option HostClient := none

variable (self : String) (answers : Pings) (state : State)

/-- The client that is kept for a host, or a new one that is kept from now on. -/
def keptClient (clientHost : ExtTreeMap String (Option HostClient)) (hostID : String) :
    Except Failure (Option HostClient × ExtTreeMap String (Option HostClient)) :=
  match clientHost[hostID]? with
  | some client => return (client, clientHost)
  | none => do
    let client ← hostClient state hostID
    return (client, clientHost.insert hostID client)

/-- Find the client of a replica's host. -/
def Visit.client (visit : Visit) (hostID : String) : Except Failure (HostClient × Visit) := do
  match ← keptClient state visit.clientHost hostID with
  | (none, _) => .error (.nilAgent hostID)
  | (some client, clientHost) => return (client, { visit with clientHost })

/-- Enter a replica whose host has answered. -/
def Visit.enter (visit : Visit) (shard : Shard) (replica : Replica) (client : HostClient) (ping : ℤ) : Visit :=
  { visit with
    replicas := visit.replicas ++ [(ping, client)]
    members := if replica.isNonVoting then visit.members else visit.members ++ [(ping, client)]
    leaderClient := if shard.leader = replica.id then some client else visit.leaderClient }

/-- A host is pinged once in a tick, and passed over if it does not answer. -/
def Visit.replica (shard : Shard) (visit : Visit) (replica : Replica) : Except Failure Visit := do
  let (client, visit) ← visit.client state replica.hostID
  match visit.pings[replica.hostID]? with
  | some ping => return visit.enter shard replica client ping
  | none =>
    match ping self answers replica.id client with
    | .error _ => return visit
    | .ok ping => return { visit with pings := visit.pings.insert replica.hostID ping }.enter shard replica client ping

def byPing (entries : PingMap) : PingMap :=
  (answers.sort entries).foldl (fun map entry => PingMap.set map entry.1 entry.2) []

/-- Rebuild the entries of a shard. -/
def route (manager : ClientManager) (shard : Shard) (visit : Visit) : ClientManager :=
  { manager with
    clientHost := visit.clientHost
    clientLeader := match visit.leaderClient with
      | some client => manager.clientLeader.insert shard.id ⟨client, shard.leader, shard.term⟩
      | none => manager.clientLeader.erase shard.id
    clientMember := manager.clientMember.insert shard.id (byPing answers visit.members)
    clientReplica := manager.clientReplica.insert shard.id (byPing answers visit.replicas) }

def tickShard (progress : ClientManager × ExtTreeMap String ℤ) (shard : Shard) :
    Except Failure (ClientManager × ExtTreeMap String ℤ) := do
  let (manager, pings) := progress
  let visit ← (state.replicaIterateByShardID shard.id).foldlM (Visit.replica self answers state shard)
    { clientHost := manager.clientHost, pings }
  return (route answers manager shard visit, visit.pings)

/-- One tick. The new index is the one of the last shard that was visited. -/
def tick (manager : ClientManager) : Except Failure ClientManager := do
  let shards := state.shardIterateUpdatedAfter manager.index
  let (manager, _) ← shards.foldlM (tickShard self answers state) (manager, ∅)
  return match shards.getLast? with
    | some shard => { manager with index := shard.updated }
    | none => manager

end ClientManager

section Client

variable {α : Type}

/-- A client of one shard. -/
structure ShardClient where
  shardID : ℕ
  writeToLeader : Bool := false

/-- Try the hosts in order until one serves the request. Without any the answer is what it was before. -/
def tryHosts (call : HostClient → RequestM (Answer α)) :
    PingMap → (last : Except RequestErr α) → RequestM (Answer α)
  | [], last => return some last
  | (_, client) :: clients, _ => do
    match ← call client with
    | none => return none
    | some (.ok value) => return some (.ok value)
    | some (.error err) => tryHosts call clients (.error err)

namespace ShardClient

variable (client : ShardClient) (self : String) (manager : ClientManager)

/-- Try the hosts of a list, if the shard has one. -/
def tryListed (table : ExtTreeMap ℕ PingMap) (call : HostClient → RequestM (Answer α))
    (last : Except RequestErr α) : RequestM (Answer α) :=
  match table[client.shardID]? with
  | none => return some (.error .shardNotReady)
  | some list => tryHosts call list last

/-- Nothing is asked when the list is empty. -/
def index (fuel : ℕ) : RequestM (Answer Unit) :=
  client.tryListed manager.clientReplica (fun host => host.readIndex self client.shardID fuel) (.ok ())

/-- The leader is asked alone, the members one after the other. -/
def write (call : HostClient → RequestM (Answer α)) (zero : α) : RequestM (Answer α) :=
  match (if client.writeToLeader then manager.clientLeader[client.shardID]? else none) with
  | some leader => call leader.client
  | none => client.tryListed manager.clientMember call (.ok zero)

def apply (cmd : String) (fuel : ℕ) : RequestM (Answer Result) :=
  client.write manager (fun host => host.apply self client.shardID cmd fuel) {}

def commit (cmd : String) (fuel : ℕ) : RequestM (Answer Unit) :=
  client.write manager (fun host => host.commit self client.shardID cmd fuel) ()

/-- A stale request tries every replica first, then the members. An empty list of replicas is passed over. -/
def lookup (stale : Bool) (call : HostClient → RequestM (Answer α)) (zero : α) : RequestM (Answer α) :=
  if stale then
    match manager.clientReplica[client.shardID]? with
    | none => return some (.error .shardNotReady)
    | some list => do
      match ← tryHosts call list (.ok zero) with
      | none => return none
      | some (.ok value) =>
        if list.isEmpty then client.tryListed manager.clientMember call (.ok value)
        else return some (.ok value)
      | some (.error err) => client.tryListed manager.clientMember call (.error err)
  else client.tryListed manager.clientMember call (.ok zero)

def read (query : String) (stale : Bool) : RequestM (Answer Result) :=
  client.lookup manager stale (fun host => host.read self client.shardID query stale) {}

def watch (query : String) (stale : Bool) (fuel : ℕ) : RequestM (Answer Unit) :=
  client.lookup manager stale (fun host => host.watch self client.shardID query stale fuel) ()

def stream (stale : Bool) : RequestM (Answer Unit) :=
  client.lookup manager stale (fun host => host.stream self client.shardID stale) ()

end ShardClient

end Client

end Zongzi
