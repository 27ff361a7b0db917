import Zongzi.Spec.TopologyInvariants
import Zongzi.Proofs.Cluster

/-! # Replicas of concurrent calls

A shard is deleted with its replicas, and callers look before they post a replica. Between the look and
the post the registry moves on, and the post itself asks for neither the shard nor for another replica
of it on the host. So the two placement properties hold along a run exactly when every post that is
applied still finds what its caller had seen.
-/

namespace Zongzi

open Std Machine

namespace State

variable {state next : State} {entry : Entry} {result : Result}

/-- Every replica belongs to a shard that exists. -/
def NoOrphans (state : State) : Prop :=
  ∀ id replica, state.replica id = some replica → (state.shard replica.shardID).isSome

/-- No two replicas of a shard are on the same host. -/
def Spread (state : State) : Prop :=
  ∀ id other left right, state.replica id = some left → state.replica other = some right →
    left.hostID = right.hostID → left.shardID = right.shardID → id = other

/-- The shard of a posted replica exists. -/
def ShardFound (state : State) (cmd : Cmd) : Prop :=
  ∀ replica, cmd = .replica .post replica → (state.shard replica.shardID).isSome

/-- No other record holds the place of a posted replica. -/
def PlaceFree (state : State) (cmd : Cmd) : Prop :=
  ∀ replica, cmd = .replica .post replica →
    ∀ id stored, state.replica id = some stored → id ≠ (state.replicaID + 1) % 2 ^ 64 →
      ¬ (stored.hostID = replica.hostID ∧ stored.shardID = replica.shardID)

theorem topology_replicas_eq_some_iff {id : ℕ} {placement : Placement} :
    state.topology.replicas id = some placement ↔
      ∃ replica, state.replica id = some replica ∧ replica.placement = placement :=
  Option.map_eq_some_iff

theorem topology_noOrphans_iff : state.topology.NoOrphans ↔ state.NoOrphans := by
  simp only [Topology.NoOrphans, topology_replicas_eq_some_iff, NoOrphans]
  constructor
  · intro owned id replica stored
    simpa [topology, Replica.placement] using owned id replica.placement ⟨replica, stored, rfl⟩
  · rintro owned id _ ⟨replica, stored, rfl⟩
    simpa [topology, Replica.placement] using owned id replica stored

theorem topology_spread_iff : state.topology.Spread ↔ state.Spread := by
  simp only [Topology.Spread, topology_replicas_eq_some_iff, Spread]
  constructor
  · intro spread id other left right atLeft atRight sameHost sameShard
    refine spread id other left.placement ⟨left, atLeft, rfl⟩ ⟨right, atRight, ?_⟩
    simp [Replica.placement, sameHost, sameShard]
  · rintro spread id other _ ⟨left, atLeft, rfl⟩ ⟨right, atRight, same⟩
    injection same with sameHost sameShard
    exact spread id other left right atLeft atRight sameHost.symm sameShard.symm

/-- An entry keeps the registry free of orphans exactly when it finds the shard it posts to. -/
theorem noOrphans_update_iff (owned : state.NoOrphans)
    (put : ∀ replica, entry.cmd ≠ .replica .put replica)
    (updated : Fsm.update state entry = .ok (next, result)) :
    next.NoOrphans ↔ state.ShardFound entry.cmd := by
  rw [← topology_noOrphans_iff] at owned ⊢
  rw [(Fsm.update_refines updated).noOrphans_iff owned put]
  simp [ShardFound, topology]

/-- An entry keeps replicas apart exactly when it posts to a free place. -/
theorem spread_update_iff (spread : state.Spread)
    (put : ∀ replica, entry.cmd ≠ .replica .put replica)
    (updated : Fsm.update state entry = .ok (next, result)) :
    next.Spread ↔ state.PlaceFree entry.cmd := by
  rw [← topology_spread_iff] at spread ⊢
  rw [(Fsm.update_refines updated).spread_iff spread put]
  simp only [PlaceFree, ne_eq, topology_replicas_eq_some_iff, not_exists, not_and]
  constructor
  · intro vacant replica post id stored present other sameHost sameShard
    refine vacant replica post id other stored present ?_
    simp [Replica.placement, sameHost, sameShard]
  · intro vacant replica post id other stored present same
    injection same with sameHost sameShard
    exact vacant replica post id stored present other sameHost sameShard

end State

section Calls

open Fsm

variable {ι : Type} [DecidableEq ι] {controller : Controller} {cluster : Cluster} {calls : ι → Call}
  {labels : List (ι × Choice)} {last : Pool Cluster ι AgentOp AgentRes Reply}

/-- A condition on the registry and the command, wherever a proposal is applied. -/
def WhenApplied (condition : State → Cmd → Prop) (pool : Pool Cluster ι AgentOp AgentRes Reply)
    (label : ι × Choice) : Prop :=
  label.2.applies → ∀ cmd continue_, pool.threads label.1 = .call (.propose cmd) continue_ →
    condition pool.shared.registry cmd

/-- What an entry other than a replica put keeps exactly under a condition, concurrent calls keep
exactly when every proposal they apply meets the condition. -/
theorem always_registry_iff {property : State → Prop} {condition : State → Cmd → Prop}
    (kept : ∀ {state next entry result}, property state →
      (∀ replica, entry.cmd ≠ .replica .put replica) →
      Fsm.update state entry = .ok (next, result) → (property next ↔ condition state entry.cmd))
    (initial : property cluster.registry)
    (path : Path (Pool.Steps Cluster.serve) (callPool controller cluster calls) labels last) :
    Always (Pool.Steps Cluster.serve) (callPool controller cluster calls) labels
        (fun pool => property pool.shared.registry) ↔
      AlwaysStep (Pool.Steps Cluster.serve) (callPool controller cluster calls) labels
        (WhenApplied condition) := by
  refine always_iff Pool.steps_determined path initial ?_
  intro front label back before after split reached held moved
  have only : ∀ i, (before.threads i).OnlyCalls NotReplicaPut :=
    reached.invariant (fun i => (calls i).program_onlyCalls controller)
      fun _ _ _ _ only moved => Pool.onlyCalls_step moved only
  obtain ⟨same, skipped⟩ | ⟨cmd, continue_, index, result, calling, applies, updated⟩ :=
    Cluster.registry_step moved
  · rw [same]
    refine iff_of_true held fun applies cmd continue_ calling => ?_
    simp [skipped cmd continue_ calling] at applies
  · have permitted := only label.1
    rw [calling] at permitted
    rw [kept held (fun replica same => permitted.1 replica (congrArg _ same)) updated]
    constructor
    · intro met _ other _ again
      cases calling.symm.trans again
      exact met
    · intro met
      exact met applies cmd continue_ calling

/-- Check the proposal that a thread is about to make. -/
def proposes (check : State → Cmd → Bool) (pool : Pool Cluster ι AgentOp AgentRes Reply) (label : ι × Choice) : Bool :=
  match pool.threads label.1 with
  | .call (.propose cmd) _ => check pool.shared.registry cmd
  | _ => true

omit [DecidableEq ι] in
theorem whenApplied_of_proposes {check : State → Cmd → Bool} {condition : State → Cmd → Prop}
    (sound : ∀ state cmd, check state cmd → condition state cmd) (pool : Pool Cluster ι AgentOp AgentRes Reply)
    (label : ι × Choice) (checked : proposes check pool label) : WhenApplied condition pool label := by
  intro _ cmd continue_ calling
  rw [proposes, calling] at checked
  exact sound _ _ checked

/-- Along every run of concurrent calls, no replica is ever an orphan exactly when every replica post
that is applied finds its shard. -/
theorem no_orphan_replicas_iff (initial : cluster.registry.NoOrphans)
    (path : Path (Pool.Steps Cluster.serve) (callPool controller cluster calls) labels last) :
    Always (Pool.Steps Cluster.serve) (callPool controller cluster calls) labels
        (fun pool => pool.shared.registry.NoOrphans) ↔
      AlwaysStep (Pool.Steps Cluster.serve) (callPool controller cluster calls) labels
        (WhenApplied State.ShardFound) :=
  always_registry_iff State.noOrphans_update_iff initial path

/-- A registry with a host and one shard that wants a replica. -/
def controlledLog : List Entry :=
  [{ index := 1, cmd := .host .put exampleHost },
    { index := 2
      cmd := newCmdShardPost { newShard "kv" with tags := tagMapFromList ["placement:member=1"] } }]

/-- A tick of the controller, and the deletion of the shard. -/
def deletionPool (registry : State) : Pool Cluster Bool AgentOp AgentRes Reply :=
  callPool reconcile ⟨registry, fun _ => {}⟩ fun deleting => if deleting then .shardDelete 1 else .tick true 1 0

/-- What the controller does between the snapshot and its proposal. -/
def decisionSteps : List (Bool × Choice) :=
  [(false, .flag false), (false, .order [0]), (false, .order [0]), (false, .order []), (false, .order [0]),
    (false, .order []), (false, .order []), (false, .order [])]

/-- The shard of a posted replica is looked up. -/
def findsShard (state : State) : Cmd → Bool
  | .replica .post replica => (state.shard replica.shardID).isSome
  | _ => true

theorem shardFound_of_findsShard (state : State) (cmd : Cmd) (finds : findsShard state cmd) : state.ShardFound cmd := by
  rintro replica rfl
  exact finds

/-- The shard is deleted after the tick. -/
def deletionSteps : List (Bool × Choice) :=
  (false, .snapshot fun _ => []) :: decisionSteps ++ [(false, .applied 3), (true, .applied 4)]

theorem deletionSteps_run :
    ∃ registry results last, Fsm.run {} controlledLog = .ok (registry, results) ∧ registry.NoOrphans ∧
      Path (Pool.Steps Cluster.serve) (deletionPool registry) deletionSteps last ∧
      last.threads false = .done (.ticked 0) ∧ last.threads true = .done (.deleted none) ∧
      checks (Pool.step Cluster.serve) (proposes findsShard) (deletionPool registry) deletionSteps := by
  refine ⟨_, _, _, rfl, ?_, Pool.path_iff_run.mpr rfl, rfl, rfl, rfl⟩
  rintro id replica stored
  cases stored

/-- The replica that the controller has created goes with the shard. -/
theorem deletion_after_tick_has_no_orphan :
    ∃ registry results last, Fsm.run {} controlledLog = .ok (registry, results) ∧
      Path (Pool.Steps Cluster.serve) (deletionPool registry) deletionSteps last ∧
      last.threads false = .done (.ticked 0) ∧ last.threads true = .done (.deleted none) ∧
      Always (Pool.Steps Cluster.serve) (deletionPool registry) deletionSteps
        (fun pool => pool.shared.registry.NoOrphans) := by
  obtain ⟨registry, results, last, ran, initial, path, ticked, deleted, checked⟩ := deletionSteps_run
  exact ⟨registry, results, last, ran, path, ticked, deleted, (no_orphan_replicas_iff initial path).mpr
    (.of_checks (whenApplied_of_proposes shardFound_of_findsShard) checked)⟩

/-- The controller decides on a snapshot that has the shard, and its replica outlives the shard. -/
theorem controller_creates_orphan :
    ∃ registry results last stored, Fsm.run {} controlledLog = .ok (registry, results) ∧
      registry.NoOrphans ∧
      Path (Pool.Steps Cluster.serve) (deletionPool registry)
        ((false, .snapshot fun _ => []) :: (true, .applied 3) :: decisionSteps ++ [(false, .applied 4)]) last ∧
      last.shared.registry.replica 1 = some stored ∧ stored.shardID = 1 ∧
      last.shared.registry.shard 1 = none := by
  refine ⟨_, _, _, _, rfl, ?_, Pool.path_iff_run.mpr rfl, rfl, rfl, rfl⟩
  rintro id replica stored
  cases stored

/-- Along every run of concurrent calls, no host ever has two replicas of a shard exactly when every
replica post that is applied finds its place free. -/
theorem one_replica_per_host_iff (initial : cluster.registry.Spread)
    (path : Path (Pool.Steps Cluster.serve) (callPool controller cluster calls) labels last) :
    Always (Pool.Steps Cluster.serve) (callPool controller cluster calls) labels
        (fun pool => pool.shared.registry.Spread) ↔
      AlwaysStep (Pool.Steps Cluster.serve) (callPool controller cluster calls) labels
        (WhenApplied State.PlaceFree) :=
  always_registry_iff State.spread_update_iff initial path

/-- A registry with a host and the prime shard. -/
def primeLog : List Entry :=
  [{ index := 1, cmd := .host .put exampleHost },
    { index := 2, cmd := newCmdShardPut { name := "zongzi", type := projectUri } }]

/-- A host joins twice. -/
def joinPool (registry : State) : Pool Cluster Bool AgentOp AgentRes Reply :=
  callPool reconcile ⟨registry, fun _ => {}⟩ fun _ => .joinPrimeReplica exampleHost.id false

/-- The first call posts a replica, and the second one reads it. -/
def joinSteps : List (Bool × Choice) :=
  [(false, .snapshot fun _ => []), (false, .snapshot fun _ => []), (false, .applied 3),
    (true, .snapshot fun _ => []), (true, .snapshot fun _ => []),
    (false, .membership ⟨∅, ∅, 0⟩), (false, .serve), (true, .membership ⟨∅, ∅, 0⟩), (true, .serve)]

/-- Replicas are posted only to a registry that has none. -/
def postsFirst (state : State) : Cmd → Bool
  | .replica .post _ => state.replicas.id.isEmpty
  | _ => true

theorem placeFree_of_postsFirst (state : State) (cmd : Cmd) (first : postsFirst state cmd) : state.PlaceFree cmd := by
  rintro replica rfl id stored present
  rw [State.replica, ExtTreeMap.isEmpty_iff.mp first] at present
  simp at present

theorem joinSteps_run :
    ∃ registry results last, Fsm.run {} primeLog = .ok (registry, results) ∧ registry.Spread ∧
      Path (Pool.Steps Cluster.serve) (joinPool registry) joinSteps last ∧
      last.threads false = .done (.joined (.ok 1)) ∧ last.threads true = .done (.joined (.ok 1)) ∧
      checks (Pool.step Cluster.serve) (proposes postsFirst) (joinPool registry) joinSteps := by
  refine ⟨_, _, _, rfl, ?_, Pool.path_iff_run.mpr rfl, rfl, rfl, rfl⟩
  rintro id other left right stored
  cases stored

/-- A host that joins again is given the replica it has. -/
theorem second_join_is_spread :
    ∃ registry results last, Fsm.run {} primeLog = .ok (registry, results) ∧
      Path (Pool.Steps Cluster.serve) (joinPool registry) joinSteps last ∧
      last.threads false = .done (.joined (.ok 1)) ∧ last.threads true = .done (.joined (.ok 1)) ∧
      Always (Pool.Steps Cluster.serve) (joinPool registry) joinSteps
        (fun pool => pool.shared.registry.Spread) := by
  obtain ⟨registry, results, last, ran, initial, path, first, second, checked⟩ := joinSteps_run
  exact ⟨registry, results, last, ran, path, first, second, (one_replica_per_host_iff initial path).mpr
    (.of_checks (whenApplied_of_proposes placeFree_of_postsFirst) checked)⟩

/-- Two joins of one host that both read before either posts leave it with two replicas. -/
theorem concurrent_joins_share_host :
    ∃ registry results last left right, Fsm.run {} primeLog = .ok (registry, results) ∧
      registry.Spread ∧
      Path (Pool.Steps Cluster.serve) (joinPool registry)
        [(false, .snapshot fun _ => []), (true, .snapshot fun _ => []), (false, .snapshot fun _ => []),
          (true, .snapshot fun _ => []), (false, .applied 3), (true, .applied 4)] last ∧
      last.shared.registry.replica 1 = some left ∧ last.shared.registry.replica 2 = some right ∧
      left.hostID = right.hostID ∧ left.shardID = right.shardID := by
  refine ⟨_, _, _, _, _, rfl, ?_, Pool.path_iff_run.mpr rfl, rfl, rfl, rfl, rfl⟩
  rintro id other left right stored
  cases stored

end Calls

end Zongzi
