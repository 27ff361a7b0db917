import Zongzi.ToStd.PartialTable
import Zongzi.Model.Fsm

/-! # The registry as a ledger of records

The abstract registry is three partial functions and two counters. It has no indexes and no loops. A
command rewrites one record, drops the replicas of a record it deletes, and touches the neighbours of
what it wrote: the shards of the replicas that a scan finds for a host, the hosts with a replica of a
shard, the host and the shard of a replica. `Ledger.Step` says which record each command writes and whom
it touches. Setting the leader of a shard and posting a shard touch nobody.
-/

namespace Zongzi

open Std PartialTable

def Host.touch (host : Host) (index : ℕ) : Host := { host with updated := index }

def Shard.touch (shard : Shard) (index : ℕ) : Shard := { shard with updated := index }

/-- The tag function of an action. -/
def Action.tagFn : Action → Option Fsm.TagFn
  | .tagsSet => some Fsm.tagsSet
  | .tagsSetNX => some Fsm.tagsSetNX
  | .tagsRemove => some Fsm.tagsRemove
  | _ => none

/-- How a host command changes the host it names. -/
inductive HostWrite (entry : Entry) (key : String) : Option Host → Option Host → Prop
  | new {host : Host} (cmd : entry.cmd = .host .put host) (parsed : uuidKey host.id = some key) :
      HostWrite entry key none (some { host with created := entry.index, updated := entry.index })
  | put {host old : Host} {tags : Tags} {changed : Bool} (cmd : entry.cmd = .host .put host)
      (parsed : uuidKey host.id = some key)
      (merged : Fsm.tagsSetNX host.tags old.tags = .ok (tags, changed)) :
      HostWrite entry key (some old)
        (some { host with created := old.created, tags, updated := entry.index })
  | tags {action : Action} {host stored : Host} {fn : Fsm.TagFn} {tags : Tags}
      (cmd : entry.cmd = .host action host) (parsed : uuidKey host.id = some key)
      (tagFn : action.tagFn = some fn) (changed : fn stored.tags host.tags = .ok (tags, true)) :
      HostWrite entry key (some stored) (some { stored with tags })
  | del {host stored : Host} (cmd : entry.cmd = .host .del host)
      (parsed : uuidKey host.id = some key) : HostWrite entry key (some stored) none

/-- How a shard command that announces its change changes the shard it names. -/
inductive ShardWrite (entry : Entry) (last id : ℕ) : Option Shard → Option Shard → Prop
  | prime {shard : Shard} (cmd : entry.cmd = .shard .put shard) (named : shard.id = id)
      (prime : id = 0) (first : last = 0) :
      ShardWrite entry last id none
        (some { shard with created := entry.index, updated := entry.index })
  | put {shard old : Shard} {tags : Tags} {changed : Bool} (cmd : entry.cmd = .shard .put shard)
      (named : shard.id = id) (merged : Fsm.tagsSetNX shard.tags old.tags = .ok (tags, changed)) :
      ShardWrite entry last id (some old)
        (some { shard with created := old.created, tags, updated := entry.index })
  | touch {shard : Shard} {stored : Option Shard} (cmd : entry.cmd = .shard .touch shard)
      (named : shard.id = id) :
      ShardWrite entry last id stored (stored.map (·.touch entry.index))
  | status {shard stored : Shard} (cmd : entry.cmd = .shard .statusUpdate shard)
      (named : shard.id = id) :
      ShardWrite entry last id (some stored)
        (some { stored with status := shard.status, updated := entry.index })
  | tags {action : Action} {shard stored : Shard} {fn : Fsm.TagFn} {tags : Tags}
      (cmd : entry.cmd = .shard action shard) (named : shard.id = id)
      (tagFn : action.tagFn = some fn) (changed : fn stored.tags shard.tags = .ok (tags, true)) :
      ShardWrite entry last id (some stored) (some { stored with tags })
  | del {shard stored : Shard} (cmd : entry.cmd = .shard .del shard) (named : shard.id = id) :
      ShardWrite entry last id (some stored) none

/-- How a replica command other than a post changes the replica it names, and the replica whose host
and shard it touches. -/
inductive ReplicaWrite (entry : Entry) (id : ℕ) : Replica → Option Replica → Replica → Prop
  | status {cmd stored : Replica} (is : entry.cmd = .replica .statusUpdate cmd) (named : cmd.id = id) :
      ReplicaWrite entry id stored (some { stored with status := cmd.status }) stored
  | put {replica old : Replica} {tags : Tags} {changed : Bool} (is : entry.cmd = .replica .put replica)
      (named : replica.id = id)
      (merged : Fsm.tagsSetNX replica.tags old.tags = .ok (tags, changed)) :
      ReplicaWrite entry id old
        (some { replica with created := old.created, tags, updated := entry.index }) replica
  | tags {action : Action} {cmd stored : Replica} {fn : Fsm.TagFn} {tags : Tags}
      (is : entry.cmd = .replica action cmd) (named : cmd.id = id) (tagFn : action.tagFn = some fn)
      (changed : fn stored.tags cmd.tags = .ok (tags, true)) :
      ReplicaWrite entry id stored (some { stored with tags }) stored
  | del {cmd stored : Replica} (is : entry.cmd = .replica .del cmd) (named : cmd.id = id) :
      ReplicaWrite entry id stored none stored

structure Ledger where
  /-- By parsed identifier. -/
  hosts : String → Option Host
  shards : ℕ → Option Shard
  replicas : ℕ → Option Replica
  shardID : ℕ
  replicaID : ℕ

namespace Ledger

/-- The shards of the replicas that a scan finds for a host. -/
def shardsOn (ledger : Ledger) (key : String) : Set ℕ :=
  { shardID | ∃ id replica, ledger.replicas id = some replica ∧
    Scans key replica.hostID replica.id ∧ replica.shardID = shardID }

/-- The hosts with a replica of a shard. -/
def hostsOf (ledger : Ledger) (shardID : ℕ) : Set String :=
  { key | ∃ id replica, ledger.replicas id = some replica ∧ replica.shardID = shardID ∧
    uuidKey replica.hostID = some key }

/-- A voting replica of a shard. -/
def Votes (ledger : Ledger) (shardID id : ℕ) : Prop :=
  ∃ replica, ledger.replicas id = some replica ∧ replica.shardID = shardID ∧
    replica.isNonVoting = false

/-- The shard has at least three voting replicas. -/
def ThreeVote (ledger : Ledger) (shardID : ℕ) : Prop :=
  ∃ ids : Finset ℕ, ids.card = 3 ∧ ∀ id ∈ ids, ledger.Votes shardID id

/-- Touch the host and the shard of a replica. -/
noncomputable def touchOwners (ledger : Ledger) (replica : Replica) (index : ℕ) : Ledger :=
  { ledger with
    hosts := rewrite ledger.hosts { key | uuidKey replica.hostID = some key } (·.touch index)
    shards := rewrite ledger.shards {replica.shardID} (·.touch index) }

/-- A replica command only takes effect where the host of its replica exists. -/
def Hosts (ledger : Ledger) (hostID : String) : Prop :=
  ∃ key, uuidKey hostID = some key ∧ (ledger.hosts key).isSome

/-- The entry writes the host under a key: it puts the host, or finds it and deletes it or changes its
tags. -/
def WritesHost (ledger : Ledger) (entry : Entry) (key : String) : Prop :=
  ∃ action host, entry.cmd = .host action host ∧ uuidKey host.id = some key ∧
    (action = .put ∨ ∃ stored, ledger.hosts key = some stored ∧
      (action = .del ∨ ∃ fn tags, action.tagFn = some fn ∧ fn stored.tags host.tags = .ok (tags, true)))

/-- What one entry does to the ledger. -/
inductive Step (ledger : Ledger) (entry : Entry) : Ledger → Prop
  /-- Everything but a replica post may change nothing, unless it writes a host. -/
  | idle (post : ∀ replica, entry.cmd ≠ .replica .post replica)
      (host : ∀ key, ¬ ledger.WritesHost entry key) : Step ledger entry ledger
  | host {key : String} {record : Option Host} (write : HostWrite entry key (ledger.hosts key) record) :
      Step ledger entry { ledger with
        hosts := Function.update ledger.hosts key record
        shards := rewrite ledger.shards (ledger.shardsOn key) (·.touch entry.index)
        replicas := dropWhere ledger.replicas fun replica =>
          record = none ∧ Scans key replica.hostID replica.id }
  | shardPost {shard : Shard} {id : ℕ} (cmd : entry.cmd = .shard .post shard)
      (fresh : id = (ledger.shardID + 1) % 2 ^ 64) :
      Step ledger entry { ledger with
        shardID := id
        shards := Function.update ledger.shards id
          (some { shard with id, created := entry.index, updated := entry.index }) }
  | shardLeader {shard stored : Shard} (cmd : entry.cmd = .shard .leaderSet shard)
      (found : ledger.shards shard.id = some stored) :
      Step ledger entry { ledger with
        shards := Function.update ledger.shards shard.id
          (some { stored with leader := shard.leader, term := shard.term, updated := entry.index }) }
  | shard {id : ℕ} {record : Option Shard}
      (write : ShardWrite entry ledger.shardID id (ledger.shards id) record) :
      Step ledger entry { ledger with
        shards := Function.update ledger.shards id record
        hosts := rewrite ledger.hosts (ledger.hostsOf id) (·.touch entry.index)
        replicas := dropWhere ledger.replicas fun replica =>
          (∃ shard, entry.cmd = .shard .del shard) ∧ replica.shardID = id }
  | replicaPost {replica : Replica} {id : ℕ} {status : ReplicaStatus}
      (cmd : entry.cmd = .replica .post replica) (fresh : id = (ledger.replicaID + 1) % 2 ^ 64)
      (joins : status = .bootstrapping ∧ replica.isNonVoting = false ∧
          ¬ ledger.ThreeVote replica.shardID ∨
        status = .joining ∧ (replica.isNonVoting ∨ ledger.ThreeVote replica.shardID))
      (hosted : ledger.Hosts replica.hostID) :
      Step ledger entry { ledger.touchOwners replica entry.index with
        replicaID := id
        replicas := Function.update ledger.replicas id
          (some { replica with id, created := entry.index, updated := entry.index, status }) }
  | replica {id : ℕ} {stored owner : Replica} {record : Option Replica}
      (found : ledger.replicas id = some stored) (write : ReplicaWrite entry id stored record owner)
      (hosted : ledger.Hosts owner.hostID) :
      Step ledger entry { ledger.touchOwners owner entry.index with
        replicas := Function.update ledger.replicas id record }

end Ledger

end Zongzi
