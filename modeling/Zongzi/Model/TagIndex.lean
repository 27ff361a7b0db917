import Zongzi.ToStd.MultiIndex
import Zongzi.Model.Fsm

/-! # The tag indexes of the registry

Every table has an index with one entry for each tag of each record. An insert drops the entries it
computes from the record stored under the same identifier and adds those of the new record. A tag action
changes the map of the stored record in place and then inserts the record, so its insert computes both
from the new tags; such an insert is a `retag`.

`Store` is the registry with its three tag indexes. The writes of the state machine are its journal, in
the order in which it makes them, with every record it writes.
-/

namespace Zongzi

open Std

/-- The tags of a record as they are indexed; an empty key is skipped. -/
def tagLabels (tags : Tags) : Finset (String × String) :=
  ((Fsm.entries tags).filter fun tag => tag.1 ≠ "").toFinset

def Host.labels (host : Host) : Finset (String × String) := tagLabels host.tags

def Shard.labels (shard : Shard) : Finset (String × String) := tagLabels shard.tags

def Replica.labels (replica : Replica) : Finset (String × String) := tagLabels replica.tags

/-- One write of the state machine to the store. -/
inductive Write where
  | metaSetIndex (index : ℕ)
  | setHostID (id : String)
  | shardIncr
  | replicaIncr
  | hostPut (host : Host)
  /-- Insert a host whose tag map was changed in place. -/
  | hostRetag (host : Host)
  | hostTouch (id : String) (index : ℕ)
  | hostDelete (host : Host)
  | shardPut (shard : Shard)
  | shardRetag (shard : Shard)
  | shardTouch (id index : ℕ)
  | shardDelete (shard : Shard)
  | replicaPut (replica : Replica)
  | replicaRetag (replica : Replica)
  | replicaDelete (replica : Replica)

/-- What a write does to the registry. -/
def State.write (state : State) : Write → Except Panic State
  | .metaSetIndex index => .ok (state.metaSetIndex index)
  | .setHostID id => .ok (state.setHostID id)
  | .shardIncr => .ok state.shardIncr.2
  | .replicaIncr => .ok state.replicaIncr.2
  | .hostPut host | .hostRetag host => state.hostPut host
  | .hostTouch id index => state.hostTouch id index
  | .hostDelete host => state.hostDelete host
  | .shardPut shard | .shardRetag shard => .ok (state.shardPut shard)
  | .shardTouch id index => .ok (state.shardTouch id index)
  | .shardDelete shard => .ok (state.shardDelete shard)
  | .replicaPut replica | .replicaRetag replica => state.replicaPut replica
  | .replicaDelete replica => .ok (state.replicaDelete replica)

/-- The registry with its tag indexes. Hosts are known to the index by their parsed identifiers. -/
structure Store where
  state : State := {}
  hostTags : MultiIndex.Index String String String := ∅
  shardTags : MultiIndex.Index ℕ String String := ∅
  replicaTags : MultiIndex.Index ℕ String String := ∅

namespace Store

/-- The hosts, by parsed identifier, that a lookup of the tag calls back. -/
def hostIterateByTag (store : Store) (tag : String) : Multiset String :=
  MultiIndex.visit store.hostTags tag

def shardIterateByTag (store : Store) (tag : String) : Multiset ℕ := MultiIndex.visit store.shardTags tag

def replicaIterateByTag (store : Store) (tag : String) : Multiset ℕ :=
  MultiIndex.visit store.replicaTags tag

/-- The tag index of the host table after a write. -/
def hostTagsAfter (store : Store) : Write → MultiIndex.Index String String String
  | .hostPut host =>
    (uuidKey host.id).elim store.hostTags fun key =>
      MultiIndex.insert Host.labels store.hostTags key store.state.hosts.id[key]? host
  | .hostRetag host =>
    (uuidKey host.id).elim store.hostTags fun key =>
      MultiIndex.insert Host.labels store.hostTags key (some host) host
  | .hostTouch id index =>
    (uuidKey id).elim store.hostTags fun key =>
      (store.state.hosts.id[key]?).elim store.hostTags fun host =>
        MultiIndex.insert Host.labels store.hostTags key (some host) { host with updated := index }
  | .hostDelete host =>
    (uuidKey host.id).elim store.hostTags fun key =>
      (store.state.hosts.id[key]?).elim store.hostTags
        (MultiIndex.delete Host.labels store.hostTags key)
  | _ => store.hostTags

def shardTagsAfter (store : Store) : Write → MultiIndex.Index ℕ String String
  | .shardPut shard =>
    MultiIndex.insert Shard.labels store.shardTags shard.id (store.state.shard shard.id) shard
  | .shardRetag shard => MultiIndex.insert Shard.labels store.shardTags shard.id (some shard) shard
  | .shardTouch id index =>
    (store.state.shard id).elim store.shardTags fun shard =>
      MultiIndex.insert Shard.labels store.shardTags id (some shard) { shard with updated := index }
  | .shardDelete shard =>
    (store.state.shard shard.id).elim store.shardTags
      (MultiIndex.delete Shard.labels store.shardTags shard.id)
  | _ => store.shardTags

def replicaTagsAfter (store : Store) : Write → MultiIndex.Index ℕ String String
  | .replicaPut replica =>
    MultiIndex.insert Replica.labels store.replicaTags replica.id (store.state.replica replica.id) replica
  | .replicaRetag replica =>
    MultiIndex.insert Replica.labels store.replicaTags replica.id (some replica) replica
  | .replicaDelete replica =>
    (store.state.replica replica.id).elim store.replicaTags
      (MultiIndex.delete Replica.labels store.replicaTags replica.id)
  | _ => store.replicaTags

def write (store : Store) (write : Write) : Except Panic Store := do
  return {
    state := ← store.state.write write
    hostTags := store.hostTagsAfter write
    shardTags := store.shardTagsAfter write
    replicaTags := store.replicaTagsAfter write }

/-- Make the writes of a journal in order. -/
def replay (store : Store) (writes : List Write) : Except Panic Store := writes.foldlM write store

end Store

namespace Journal

/-- The writes of a command, or the panic it meets before it writes. -/
abbrev Writes : Type := Except Panic (List Write)

def touchShards (replicas : List Replica) (index : ℕ) : List Write :=
  replicas.map fun replica => .shardTouch replica.shardID index

def touchHosts (replicas : List Replica) (index : ℕ) : List Write :=
  replicas.map fun replica => .hostTouch replica.hostID index

section Host

def hostCmdPut (state : State) (entry : Entry) (host : Host) : Writes := do
  let (host, created) ← match ← state.host host.id with
    | some old => do
      let (tags, _) ← Fsm.tagsSetNX host.tags old.tags
      pure ({ host with created := old.created, tags }, [])
    | none => pure ({ host with created := entry.index }, [.setHostID host.id])
  let replicas ← state.replicaIterateByHostID host.id
  return created ++ touchShards replicas entry.index ++ [.hostPut { host with updated := entry.index }]

def hostCmdDel (state : State) (entry : Entry) (host : Host) : Writes := do
  match ← state.host host.id with
  | none => return []
  | some host => do
    let replicas ← state.replicaIterateByHostID host.id
    return replicas.flatMap (fun replica =>
      [.replicaDelete replica, .shardTouch replica.shardID entry.index]) ++ [.hostDelete host]

def hostTagAction (fn : Fsm.TagFn) (state : State) (entry : Entry) (cmd : Host) : Writes := do
  match ← state.host cmd.id with
  | none => return []
  | some host => do
    let (tags, written) ← fn host.tags cmd.tags
    if written then
      let replicas ← state.replicaIterateByHostID cmd.id
      return touchShards replicas entry.index ++ [.hostRetag { host with tags }]
    else return []

def hostUpdate (state : State) (entry : Entry) (action : Action) (host : Host) : Writes :=
  match action with
  | .put => hostCmdPut state entry host
  | .del => hostCmdDel state entry host
  | .tagsSet => hostTagAction Fsm.tagsSet state entry host
  | .tagsSetNX => hostTagAction Fsm.tagsSetNX state entry host
  | .tagsRemove => hostTagAction Fsm.tagsRemove state entry host
  | _ => return []

end Host

section Shard

def shardCmdPost (state : State) (entry : Entry) (shard : Shard) : Writes :=
  if shard.name ≠ "" ∧ (state.shardFindByName shard.name).isSome then return []
  else
    let id := state.shardIncr.1
    return [.shardIncr, .shardPut { shard with id, created := entry.index, updated := entry.index }]

def shardCmdTouch (state : State) (entry : Entry) (shard : Shard) : Writes :=
  return .shardTouch shard.id entry.index ::
    touchHosts (state.replicaIterateByShardID shard.id) entry.index

def shardCmdPut (state : State) (entry : Entry) (shard : Shard) : Writes := do
  let write (shard : Shard) : Writes :=
    return .shardPut { shard with updated := entry.index } ::
      touchHosts (state.replicaIterateByShardID shard.id) entry.index
  match state.shard shard.id with
  | some old => do
    let (tags, _) ← Fsm.tagsSetNX shard.tags old.tags
    write { shard with created := old.created, tags }
  | none =>
    if shard.id = 0 ∧ state.shardID = 0 then write { shard with created := entry.index }
    else return []

def shardCmdStatusUpdate (state : State) (entry : Entry) (cmd : Shard) : Writes :=
  match state.shard cmd.id with
  | none => return []
  | some shard =>
    return .shardPut { shard with status := cmd.status, updated := entry.index } ::
      touchHosts (state.replicaIterateByShardID shard.id) entry.index

def shardCmdLeaderSet (state : State) (entry : Entry) (cmd : Shard) : Writes :=
  match state.shard cmd.id with
  | none => return []
  | some shard =>
    return [.shardPut { shard with leader := cmd.leader, term := cmd.term, updated := entry.index }]

def shardCmdDel (state : State) (entry : Entry) (cmd : Shard) : Writes :=
  match state.shard cmd.id with
  | none => return []
  | some shard =>
    return (state.replicaIterateByShardID shard.id).flatMap (fun replica =>
      [.replicaDelete replica, .hostTouch replica.hostID entry.index]) ++ [.shardDelete shard]

def shardTagAction (fn : Fsm.TagFn) (state : State) (entry : Entry) (cmd : Shard) : Writes := do
  match state.shard cmd.id with
  | none => return []
  | some shard => do
    let (tags, written) ← fn shard.tags cmd.tags
    if written then
      return touchHosts (state.replicaIterateByShardID cmd.id) entry.index ++
        [.shardRetag { shard with tags }]
    else return []

def shardUpdate (state : State) (entry : Entry) (action : Action) (shard : Shard) : Writes :=
  match action with
  | .post => shardCmdPost state entry shard
  | .touch => shardCmdTouch state entry shard
  | .put => shardCmdPut state entry shard
  | .statusUpdate => shardCmdStatusUpdate state entry shard
  | .leaderSet => shardCmdLeaderSet state entry shard
  | .del => shardCmdDel state entry shard
  | .tagsSet => shardTagAction Fsm.tagsSet state entry shard
  | .tagsSetNX => shardTagAction Fsm.tagsSetNX state entry shard
  | .tagsRemove => shardTagAction Fsm.tagsRemove state entry shard
  | _ => return []

end Shard

section Replica

def touchOwners (replica : Replica) (index : ℕ) : List Write :=
  [.hostTouch replica.hostID index, .shardTouch replica.shardID index]

def replicaCmdPost (state : State) (entry : Entry) (replica : Replica) : Writes :=
  let id := state.replicaIncr.1
  let bootstraps := !replica.isNonVoting && (state.shardMembers replica.shardID).size < 3
  let status : ReplicaStatus := if bootstraps then .bootstrapping else .joining
  return [.replicaIncr,
    .replicaPut { replica with id, created := entry.index, updated := entry.index, status }] ++
    touchOwners replica entry.index

def replicaCmdStatusUpdate (state : State) (entry : Entry) (cmd : Replica) : Writes :=
  match state.replica cmd.id with
  | none => return []
  | some replica =>
    return .replicaPut { replica with status := cmd.status } :: touchOwners replica entry.index

def replicaCmdPut (state : State) (entry : Entry) (replica : Replica) : Writes := do
  match state.replica replica.id with
  | none => return []
  | some old => do
    let (tags, _) ← Fsm.tagsSetNX replica.tags old.tags
    return .replicaPut { replica with created := old.created, tags, updated := entry.index } ::
      touchOwners replica entry.index

def replicaCmdDel (state : State) (entry : Entry) (cmd : Replica) : Writes :=
  match state.replica cmd.id with
  | none => return []
  | some replica => return touchOwners replica entry.index ++ [.replicaDelete replica]

def replicaTagAction (fn : Fsm.TagFn) (state : State) (entry : Entry) (cmd : Replica) : Writes := do
  match state.replica cmd.id with
  | none => return []
  | some replica => do
    let (tags, written) ← fn replica.tags cmd.tags
    if written then return touchOwners replica entry.index ++ [.replicaRetag { replica with tags }]
    else return []

def replicaUpdate (state : State) (entry : Entry) (action : Action) (replica : Replica) : Writes :=
  match action with
  | .post => replicaCmdPost state entry replica
  | .statusUpdate => replicaCmdStatusUpdate state entry replica
  | .put => replicaCmdPut state entry replica
  | .del => replicaCmdDel state entry replica
  | .tagsSet => replicaTagAction Fsm.tagsSet state entry replica
  | .tagsSetNX => replicaTagAction Fsm.tagsSetNX state entry replica
  | .tagsRemove => replicaTagAction Fsm.tagsRemove state entry replica
  | _ => return []

end Replica

def apply (state : State) (entry : Entry) : Writes :=
  match entry.cmd with
  | .invalid | .unrecognized => return []
  | .host action host => hostUpdate state entry action host
  | .shard action shard => shardUpdate state entry action shard
  | .replica action replica => replicaUpdate state entry action replica

def update (state : State) (entry : Entry) : Writes :=
  if entry.cmd = .invalid then return []
  else do return (← apply state entry) ++ [.metaSetIndex entry.index]

end Journal

/-- Apply one entry to the registry and its tag indexes. -/
def Store.update (store : Store) (entry : Entry) : Except Panic (Store × Result) := do
  let (_, result) ← Fsm.update store.state entry
  return (← store.replay (← Journal.update store.state entry), result)

end Zongzi
