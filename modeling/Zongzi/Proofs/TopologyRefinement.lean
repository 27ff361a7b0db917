import Zongzi.Spec.Topology
import Zongzi.Proofs.LedgerRefinement

/-! # The state machine refines the topology

The topology of a registry state forgets everything but identifiers, shard names and placements. It can be read off the
ledger, and touches are invisible in it: they rewrite a record in place. So a step of the ledger is a step of the
topology, and only what a post returns is left to see in the state machine itself.
-/

namespace Zongzi

open Std ExceptFold PartialTable

def Replica.placement (replica : Replica) : Placement := ⟨replica.hostID, replica.shardID⟩

/-- The abstract registry a store stands for. -/
def State.topology (state : State) : Topology where
  hosts key := state.hosts.id[key]?.map Host.id
  shards id := (state.shard id).map Shard.name
  replicas id := (state.replica id).map Replica.placement
  shardID := state.shardID
  replicaID := state.replicaID

namespace Ledger

/-- What a ledger says about placements. -/
def topology (ledger : Ledger) : Topology where
  hosts key := (ledger.hosts key).map Host.id
  shards id := (ledger.shards id).map Shard.name
  replicas id := (ledger.replicas id).map Replica.placement
  shardID := ledger.shardID
  replicaID := ledger.replicaID

variable {ledger next : Ledger} {entry : Entry} {result : Result}

section Views

variable {κ α β : Type} [DecidableEq κ] {table : κ → Option α} {key : κ} {value : Option α}

theorem view_update (view : α → β) :
    (fun other => (Function.update table key value other).map view) =
      Function.update (fun other => (table other).map view) key (value.map view) :=
  Function.comp_update (Option.map view) table key value

/-- Rewriting a record in place is invisible as long as it keeps its view. -/
theorem view_update_of_same {view : α → β} (same : value.map view = (table key).map view) :
    (fun other => (Function.update table key value other).map view) = fun other => (table other).map view := by
  rw [view_update, same]
  exact Function.update_eq_self key _

end Views

theorem hosts_touched (chosen : Set String) (index : ℕ) :
    (fun key => (rewrite ledger.hosts chosen (·.touch index) key).map Host.id) = ledger.topology.hosts :=
  funext fun _ => map_rewrite fun _ => rfl

theorem shards_touched (chosen : Set ℕ) (index : ℕ) :
    (fun id => (rewrite ledger.shards chosen (·.touch index) id).map Shard.name) = ledger.topology.shards :=
  funext fun _ => map_rewrite fun _ => rfl

/-- The replicas that are not dropped keep their placements. -/
theorem replicas_dropped {dropped : Replica → Prop} {gone : ℕ → Placement → Prop}
    (same : ∀ id replica, ledger.replicas id = some replica → (dropped replica ↔ gone id replica.placement)) :
    (fun id => (dropWhere ledger.replicas dropped id).map Replica.placement) =
      ledger.topology.keep fun id placement => ¬ gone id placement := by
  funext id
  simp only [dropWhere, Topology.keep, topology]
  cases found : ledger.replicas id with
  | none => simp
  | some replica => by_cases drop : dropped replica <;> simp [Option.filter, drop, ← same id replica found]

theorem Hosts.topology {hostID : String} (hosted : ledger.Hosts hostID) : ledger.topology.Hosts hostID := by
  obtain ⟨key, parsed, present⟩ := hosted
  exact ⟨key, parsed, by rwa [Ledger.topology, Option.isSome_map]⟩

section Writes

variable {replicas : ℕ → Option Placement}

private theorem idle_of_same (shardPost : ∀ shard, entry.cmd ≠ .shard .post shard)
    (replicaPost : ∀ replica, entry.cmd ≠ .replica .post replica) :
    ledger.topology.Step entry ledger.topology result :=
  .idle (fun shard cmd => (shardPost shard cmd).elim) replicaPost

theorem hostWrite_topology {key : String} {record : Option Host}
    (write : HostWrite entry key (ledger.hosts key) record)
    (kept : record ≠ none → replicas = ledger.topology.replicas)
    (dropped : record = none → replicas = ledger.topology.keep fun id placement => ¬ Scans key placement.hostID id) :
    ledger.topology.Step entry { ledger.topology with
      hosts := Function.update ledger.topology.hosts key (record.map Host.id), replicas } result := by
  generalize stored : ledger.hosts key = old at write
  cases write with
  | @new host cmd parsed =>
    rw [kept (by simp)]
    exact @Topology.Step.hostPut _ _ host key _ cmd parsed
  | @put host _ _ _ cmd parsed =>
    rw [kept (by simp)]
    exact @Topology.Step.hostPut _ _ host key _ cmd parsed
  | @tags action host old fn tags cmd parsed tagFn =>
    have same : some old.id = ledger.topology.hosts key := by simp [Ledger.topology, stored]
    rw [kept (by simp), Option.map_some, same, Function.update_eq_self]
    exact idle_of_same (by simp [cmd]) (by simp [cmd])
  | del cmd parsed =>
    rw [dropped rfl]
    exact .hostDel cmd parsed (by simp [Ledger.topology, stored])

theorem shardWrite_topology {id : ℕ} {record : Option Shard}
    (write : ShardWrite entry ledger.shardID id (ledger.shards id) record)
    (kept : (∀ shard, entry.cmd ≠ .shard .del shard) → replicas = ledger.topology.replicas)
    (dropped : (∃ shard, entry.cmd = .shard .del shard) →
      replicas = ledger.topology.keep fun _ placement => placement.shardID ≠ id) :
    ledger.topology.Step entry { ledger.topology with
      shards := Function.update ledger.topology.shards id (record.map Shard.name), replicas } result := by
  -- A shard that keeps its name is written in place.
  have same (other : ∀ shard, entry.cmd ≠ .shard .post shard) (keeps : ∀ shard, entry.cmd ≠ .shard .del shard)
      (replica : ∀ replica, entry.cmd ≠ .replica .post replica)
      (name : record.map Shard.name = (ledger.shards id).map Shard.name) :
      ledger.topology.Step entry { ledger.topology with
        shards := Function.update ledger.topology.shards id (record.map Shard.name), replicas } result := by
    rw [kept keeps, name]
    change ledger.topology.Step entry { ledger.topology with
      shards := Function.update ledger.topology.shards id (ledger.topology.shards id) } result
    rw [Function.update_eq_self]
    exact idle_of_same other replica
  generalize stored : ledger.shards id = old at write same
  cases write with
  | prime cmd named prime first =>
    subst named
    rw [kept (by simp [cmd])]
    exact .shardPut cmd (.inr ⟨prime, first⟩)
  | put cmd named =>
    subst named
    rw [kept (by simp [cmd])]
    exact .shardPut cmd (.inl (by simp [Ledger.topology, stored]))
  | touch cmd => exact same (by simp [cmd]) (by simp [cmd]) (by simp [cmd]) (by cases old <;> rfl)
  | status cmd => exact same (by simp [cmd]) (by simp [cmd]) (by simp [cmd]) rfl
  | tags cmd named tagFn =>
    refine same (fun shard post => ?_) (fun shard del => ?_) (by simp [cmd]) rfl
    · cases cmd.symm.trans post
      cases tagFn
    · cases cmd.symm.trans del
      cases tagFn
  | del cmd named =>
    subst named
    rw [dropped ⟨_, cmd⟩]
    exact .shardDel cmd (by simp [Ledger.topology, stored])

theorem replicaWrite_topology {id : ℕ} {stored owner : Replica} {record : Option Replica}
    (write : ReplicaWrite entry id stored record owner) (found : ledger.replicas id = some stored)
    (hosted : ledger.Hosts owner.hostID) :
    ledger.topology.Step entry { ledger.topology with
      replicas := Function.update ledger.topology.replicas id (record.map Replica.placement) } result := by
  have present : ledger.topology.replicas id = some stored.placement := by simp [Ledger.topology, found]
  cases write with
  | status cmd =>
    change ledger.topology.Step entry { ledger.topology with
      replicas := Function.update ledger.topology.replicas id (some stored.placement) } result
    rw [← present, Function.update_eq_self]
    exact idle_of_same (by simp [cmd]) (by simp [cmd])
  | put cmd named =>
    subst named
    exact .replicaPut cmd (by rw [present]; rfl) hosted.topology
  | tags cmd named tagFn =>
    change ledger.topology.Step entry { ledger.topology with
      replicas := Function.update ledger.topology.replicas id (some stored.placement) } result
    rw [← present, Function.update_eq_self]
    refine idle_of_same (by simp [cmd]) fun replica post => ?_
    cases cmd.symm.trans post
    cases tagFn
  | del cmd named =>
    subst named
    exact .replicaDel cmd (by rw [present]; rfl)

end Writes

/-- Apart from shard posts, which may be rejected, a step of the ledger is a step of the topology. -/
theorem Step.topology (step : ledger.Step entry next)
    (keyed : ∀ id replica, ledger.replicas id = some replica → replica.id = id)
    (shardPost : ∀ shard, entry.cmd ≠ .shard .post shard)
    (replicaPost : ∀ replica, entry.cmd = .replica .post replica → result.value = (ledger.replicaID + 1) % 2 ^ 64) :
    ledger.topology.Step entry next.topology result := by
  cases step with
  | idle post => exact idle_of_same shardPost post
  | @host key record write =>
    unfold Ledger.topology
    simp only [view_update, shards_touched]
    refine hostWrite_topology write (fun written => ?_) fun gone => ?_
    · rw [dropWhere_of_not fun _ drop => written drop.1]
      rfl
    · refine replicas_dropped fun id replica found => ?_
      rw [keyed id replica found]
      exact and_iff_right gone
  | shardPost cmd => exact absurd cmd (shardPost _)
  | @shardLeader shard stored cmd found =>
    unfold Ledger.topology
    simp only
    rw [view_update_of_same (by rw [found]; rfl)]
    exact idle_of_same shardPost (by simp [cmd])
  | @shard id record write =>
    unfold Ledger.topology
    simp only [view_update, hosts_touched]
    refine shardWrite_topology write (fun kept => ?_) fun del => ?_
    · rw [dropWhere_of_not fun _ drop => drop.1.elim kept]
      rfl
    · exact replicas_dropped fun _ _ _ => and_iff_right del
  | @replicaPost replica id status cmd fresh joins hosted =>
    subst fresh
    unfold Ledger.topology touchOwners
    simp only [view_update, hosts_touched, shards_touched]
    exact @Topology.Step.replicaPost _ _ replica _ _ cmd rfl (replicaPost replica cmd) hosted.topology
  | @replica id stored owner record found write hosted =>
    unfold Ledger.topology touchOwners
    simp only [view_update, hosts_touched, shards_touched]
    exact replicaWrite_topology write found hosted

end Ledger

namespace State

variable {state next : State}

@[simp] theorem topology_shardTouch (state : State) (id index : ℕ) :
    (state.shardTouch id index).topology = state.topology := by
  change (state.shardTouch id index).ledger.topology = state.ledger.topology
  rw [ledger_shardTouch, Ledger.topology]
  simp only [Ledger.shards_touched]
  rfl

theorem topology_hostTouch {id : String} {index : ℕ} (touched : state.hostTouch id index = .ok next) :
    next.topology = state.topology := by
  change next.ledger.topology = state.ledger.topology
  rw [(ledger_hostTouch touched).2, Ledger.topology]
  simp only [Ledger.hosts_touched]
  rfl

/-- Rewriting a replica in place is invisible as long as it stays where it is. -/
theorem topology_replicaPut_of_found {replica found : Replica}
    (written : state.replicaPut replica = .ok next) (stored : state.replica replica.id = some found)
    (placed : replica.placement = found.placement) : next.topology = state.topology := by
  have present : state.ledger.replicas replica.id = some found := stored
  change next.ledger.topology = state.ledger.topology
  rw [ledger_replicaPut written, Ledger.topology]
  simp only
  rw [Ledger.view_update_of_same (by rw [present, Option.map_some, placed, Option.map_some])]
  rfl

theorem topology_shardPut (state : State) (shard : Shard) :
    (state.shardPut shard).topology = { state.topology with
      shards := Function.update state.topology.shards shard.id (some shard.name) } := by
  change (state.shardPut shard).ledger.topology = _
  rw [ledger_shardPut, Ledger.topology]
  simp only [Ledger.view_update]
  rfl

end State

namespace Fsm

variable {state next : State} {entry : Entry} {result : Result}

theorem shardCmdPost_refines {shard : Shard} (cmd : entry.cmd = .shard .post shard)
    (applied : shardCmdPost state entry shard = .ok (next, result)) :
    state.topology.Step entry next.topology result := by
  obtain ⟨-, -, rfl, rfl⟩ | ⟨-, rfl, rfl⟩ := shardCmdPost_cases applied
  · refine .idle ?_ (by simp [cmd])
    intro other same
    cases cmd.symm.trans same
    exact ⟨rfl, rfl⟩
  · rw [State.topology_shardPut]
    exact @Topology.Step.shardPost _ _ shard _ _ cmd rfl rfl

/-- Every entry applied without a panic is a step of the abstract registry. -/
theorem update_refines (applied : update state entry = .ok (next, result)) :
    state.topology.Step entry next.topology result := by
  have applies {cmd : Cmd} (is : entry.cmd = cmd) (valid : cmd ≠ .invalid) :
      ∃ middle, apply state entry = .ok (middle, result) ∧ next = middle.metaSetIndex entry.index := by
    obtain ⟨invalid, -⟩ | ⟨middle, ran, same, -⟩ := update_cases applied
    · exact absurd (is.symm.trans invalid) valid
    · exact ⟨middle, ran, same⟩
  by_cases post : ∃ shard, entry.cmd = .shard .post shard
  · obtain ⟨shard, cmd⟩ := post
    obtain ⟨middle, ran, rfl⟩ := applies cmd (by simp)
    rw [apply, cmd] at ran
    have refined : state.topology.Step entry middle.topology result := shardCmdPost_refines cmd ran
    exact refined
  · refine (update_ledger applied).topology (fun id replica found => State.replica_id found)
      (fun shard cmd => post ⟨shard, cmd⟩) fun replica cmd => ?_
    obtain ⟨middle, ran, rfl⟩ := applies cmd (by simp)
    rw [apply, cmd] at ran
    obtain ⟨_, _, -, -, -, -, -, -, rfl⟩ := replicaCmdPost_cases ran
    rfl

end Fsm

end Zongzi
