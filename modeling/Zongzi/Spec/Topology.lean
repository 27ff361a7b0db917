import Zongzi.Model.Fsm

/-! # What the registry is for: the cluster topology

The abstract registry records which hosts exist, which shards exist under which names, which
replica is placed where, and the last identifiers given out. Indexes, timestamps, tags and statuses
are not part of it. `Topology.Step` says what an entry may do to it and what the entry returns:
posts take the next identifier, deletes cascade to the replicas that are found for the deleted record, a
replica is only written where its host exists, and nothing asks whether a replica's shard exists.
-/

namespace Zongzi

/-- Where a replica is placed. -/
structure Placement where
  hostID : String
  shardID : ℕ
deriving DecidableEq

/-- The cluster as placement decisions see it. Hosts are found by their parsed identifiers. -/
structure Topology where
  hosts : String → Option String
  shards : ℕ → Option String
  replicas : ℕ → Option Placement
  shardID : ℕ
  replicaID : ℕ

namespace Topology

open Classical in
/-- Keep the replicas that satisfy a predicate. -/
@[irreducible] noncomputable def keep (topology : Topology) (kept : ℕ → Placement → Prop) : ℕ → Option Placement :=
  fun id => (topology.replicas id).filter fun placement => kept id placement

/-- A replica can be written where its host exists. -/
def Hosts (topology : Topology) (hostID : String) : Prop :=
  ∃ key, uuidKey hostID = some key ∧ (topology.hosts key).isSome

/-- What one entry does to the topology, and the value it returns where that is an identifier. -/
inductive Step (topology : Topology) (entry : Entry) : Topology → Result → Prop
  /-- Everything but an accepted post may leave the topology alone. -/
  | idle {result : Result}
      (shardPost : ∀ shard, entry.cmd = .shard .post shard → result.value = entry.result.value ∧
        result.data = ErrShardExists ++ ": " ++ shard.name)
      (replicaPost : ∀ replica, entry.cmd ≠ .replica .post replica) :
      Step topology entry topology result
  | hostPut {host : Host} {key : String} {result : Result} (cmd : entry.cmd = .host .put host)
      (parsed : uuidKey host.id = some key) :
      Step topology entry
        { topology with hosts := Function.update topology.hosts key (some host.id) } result
  | hostDel {host : Host} {key : String} {result : Result} (cmd : entry.cmd = .host .del host)
      (parsed : uuidKey host.id = some key) (present : (topology.hosts key).isSome) :
      Step topology entry
        { topology with
          hosts := Function.update topology.hosts key none
          replicas := topology.keep fun id placement => ¬ Scans key placement.hostID id } result
  | shardPost {shard : Shard} {result : Result} {id : ℕ} (cmd : entry.cmd = .shard .post shard)
      (fresh : id = (topology.shardID + 1) % 2 ^ 64) (value : result.value = id) :
      Step topology entry
        { topology with
          shardID := id
          shards := Function.update topology.shards id (some shard.name) } result
  | shardPut {shard : Shard} {result : Result} (cmd : entry.cmd = .shard .put shard)
      (allowed : (topology.shards shard.id).isSome ∨ shard.id = 0 ∧ topology.shardID = 0) :
      Step topology entry
        { topology with shards := Function.update topology.shards shard.id (some shard.name) } result
  | shardDel {shard : Shard} {result : Result} (cmd : entry.cmd = .shard .del shard)
      (present : (topology.shards shard.id).isSome) :
      Step topology entry
        { topology with
          shards := Function.update topology.shards shard.id none
          replicas := topology.keep fun _ placement => placement.shardID ≠ shard.id } result
  | replicaPost {replica : Replica} {result : Result} {id : ℕ}
      (cmd : entry.cmd = .replica .post replica)
      (fresh : id = (topology.replicaID + 1) % 2 ^ 64) (value : result.value = id)
      (hosted : topology.Hosts replica.hostID) :
      Step topology entry
        { topology with
          replicaID := id
          replicas := Function.update topology.replicas id
            (some ⟨replica.hostID, replica.shardID⟩) } result
  | replicaPut {replica : Replica} {result : Result} (cmd : entry.cmd = .replica .put replica)
      (present : (topology.replicas replica.id).isSome) (hosted : topology.Hosts replica.hostID) :
      Step topology entry
        { topology with
          replicas := Function.update topology.replicas replica.id
            (some ⟨replica.hostID, replica.shardID⟩) } result
  | replicaDel {replica : Replica} {result : Result} (cmd : entry.cmd = .replica .del replica)
      (present : (topology.replicas replica.id).isSome) :
      Step topology entry
        { topology with replicas := Function.update topology.replicas replica.id none } result

end Topology

end Zongzi
