import Zongzi.Machine.Parallel
import Zongzi.Proofs.HostController
import Zongzi.Proofs.IdleManagers

/-! # The control plane

Controller managers decide which replicas there should be, and host controllers start those of their hosts. They meet
in the registry only: to a manager, the reports of a host controller are entries from elsewhere, and to a host
controller the replicas that a manager creates and deletes are.

Neither disturbs the other. A report touches no shard that a manager has found settled, and a manager puts no replica
into a status in which it is not started. So once a manager and the controllers of all hosts have caught up with the
registry, what the tags of the shards ask for has been started.
-/

namespace Zongzi

open Std Machine Relation

section Calls

/-- A manager keeps to the statuses in which replicas are started. -/
def proposesRegular : AgentOp → Prop
  | .propose cmd => cmd.isRegular
  | _ => True

theorem controls_regular (op : ControlOp) (updated : Bool) :
    ((controls op).run updated).OnlyCalls proposesRegular := by
  cases op with
  | order count => exact ⟨trivial, fun _ => trivial⟩
  | create hostID shardID isNonVoting =>
    refine ⟨rfl, fun answer => ?_⟩
    cases answer <;> trivial
  | delete replicaID =>
    refine ⟨rfl, fun answer => ?_⟩
    cases answer <;> trivial

theorem reportError_regular (shard : Shard) (err : Option String) :
    (reportError shard err).OnlyCalls proposesRegular := by
  cases err with
  | some err =>
    refine ⟨rfl, fun answer => ?_⟩
    cases answer <;> trivial
  | none =>
    dsimp only [reportError]
    split
    · refine ⟨rfl, fun answer => ?_⟩
      cases answer <;> trivial
    · trivial

theorem tickPassesLogged_regular (controller : Controller) (after fuel index : ℕ) (updated hadErr : Bool) :
    (tickPassesLogged controller after fuel index updated hadErr).OnlyCalls proposesRegular := by
  induction fuel generalizing index updated hadErr with
  | zero => trivial
  | succ fuel ih =>
    refine .bind (.perform trivial) fun answer => ?_
    cases answer with
    | error err => trivial
    | ok snapshot =>
      refine .bind (reconcileShardsLogged_onlyCalls trivial (fun _ => .interpret controls_regular _ _)
        reportError_regular ..) fun passed => ?_
      dsimp only
      split
      · exact .bind (ih ..) fun _ => trivial
      · trivial

theorem tickLogged_regular (controller : Controller) (isLeader : Bool) (fuel index : ℕ) :
    (tickLogged controller isLeader fuel index).OnlyCalls proposesRegular := by
  unfold tickLogged
  split
  · exact .bind (tickPassesLogged_regular ..) fun _ => trivial
  · trivial

/-- A host controller proposes nothing but to report replicas active. -/
def reportsActive : HostOp → Prop
  | .agent (.propose cmd) => ∃ id, cmd = newCmdReplicaUpdateStatus id .active
  | _ => True

theorem reportsActive_of_issues {state : State} {op : HostOp} (issued : HostController.Issues state op) :
    reportsActive op := by
  cases op with
  | agent op =>
    cases op with
    | propose cmd => exact issued
    | _ => trivial
  | _ => trivial

theorem tick_reportsActive (setup : HostController.Setup) (fuel index : ℕ) :
    (HostController.tick setup fuel index).OnlyCalls reportsActive := by
  refine .bind (.perform trivial) fun answer => ?_
  cases answer with
  | error err => trivial
  | ok snapshot => exact (HostController.reconcileHost_onlyCalls ..).mono fun _ => reportsActive_of_issues

end Calls

section Plane

variable {ι κ : Type} {lookup : State → String → List Host} {setups : κ → HostController.Setup} {cluster next : Cluster}

/-- Managers and host controllers beside each other. -/
abbrev ControlPlane (ι κ : Type) : Type :=
  Joint Cluster ι Manager AgentOp AgentRes (ℕ × List Reconciled) κ HostMemory HostOp HostRes
    (ℕ × List (Σ op, HostRes op))

/-- A manager ticks, a host controller ticks, or an entry comes from elsewhere. -/
abbrev ControlMove (ι κ : Type) : Type := JointMove Entry ι (Bool × ℕ) Choice κ ℕ HostChoice

namespace ControlPlane

def Steps [DecidableEq ι] [DecidableEq κ] (lookup : State → String → List Host) (setups : κ → HostController.Setup) :
    ControlPlane ι κ → ControlMove ι κ → ControlPlane ι κ → Prop :=
  Joint.Steps (managers (Cluster.serveIndexed lookup) reconcile ι) (hostControllers setups)

/-- Nobody has ticked yet. -/
def idle (cluster : Cluster) : ControlPlane ι κ where
  left := idleManagers cluster
  right := idleControllers cluster
  one := rfl

def registry (plane : ControlPlane ι κ) : State := plane.left.shared.registry

end ControlPlane

/-- Some log leads to the registry. -/
def Cluster.Logged (cluster : Cluster) : Prop := cluster.registry.Reached

/-- What a manager ensures, narrowed to what it proposes. -/
noncomputable def plannerContract (ι : Type)
    (indexed : ∀ state key, (lookup state key).Perm (Demand.tagged state.hostIterate key)) :
    ((managers (Cluster.serveIndexed lookup) reconcile ι).within Cluster.Logged).Contract :=
  ((settledWatch indexed).contract {}).narrow (serveWithin Cluster.Logged (Cluster.serveIndexed lookup)) proposesRegular

/-- What a host controller ensures, narrowed to what it proposes. -/
noncomputable def starterContract (setups : κ → HostController.Setup) :
    ((hostControllers setups).within Cluster.Logged).Contract :=
  (HostController.contract setups).narrow (serveWithin Cluster.Logged serveHost) reportsActive

theorem logged_of_hosts [DecidableEq κ] {actors after : Actors Cluster κ HostMemory HostOp HostRes _}
    {move : Move Entry κ ℕ HostChoice} (logged : actors.shared.Logged)
    (moved : (hostControllers setups).Steps actors move after) : after.shared.Logged := by
  cases move with
  | outside entry =>
    obtain ⟨shared, taken, rfl⟩ := ActorSystem.steps_outside moved
    exact logged.step (Cluster.take_eq_some taken).1
  | start i argument =>
    obtain ⟨-, rfl⟩ := ActorSystem.steps_start moved
    exact logged
  | call i choice =>
    obtain ⟨op, continue_, answer, shared, -, served, rfl⟩ := ActorSystem.steps_call moved
    obtain same | ⟨cmd, index, -, advances⟩ := HostController.registry_of_serve served
    · change shared.registry.Reached
      rwa [same]
    · exact logged.step advances
  | finish i =>
    obtain ⟨result, -, rfl⟩ := ActorSystem.steps_finish moved
    exact logged

/-- What a manager does is regular, and what a host controller does is harmless. -/
theorem control_compatible [DecidableEq ι] [DecidableEq κ]
    (indexed : ∀ state key, (lookup state key).Perm (Demand.tagged state.hostIterate key)) :
    Joint.Compatible Cluster.Logged (plannerContract ι indexed) (starterContract setups) where
  left_valid := (settledWatch indexed).contract_valid.narrow id fun _ argument manager =>
    tickLogged_regular reconcile argument.1 argument.2 manager.index
  right_valid := HostController.contract_valid.narrow (fun served => (serveWithin_eq_some.mp served).2)
    fun i fuel memory => Program.record_onlyCalls (tick_reportsActive (setups i) fuel memory.index)
  outside := rfl
  good_left := reached_of_steps
  good_right := logged_of_hosts
  left_calls := by
    intro i shared op choice answer after guarded served regular
    obtain ⟨-, served⟩ := serveWithin_eq_some.mp served
    obtain same | ⟨cmd, index, rfl, advances⟩ := Cluster.progress_of_serve served
    · exact same ▸ .refl
    · exact .single ⟨regular, _, advances, guarded.2⟩
  right_calls := by
    intro j shared op choice answer after guarded served
    obtain ⟨logged, served⟩ := serveWithin_eq_some.mp served
    change ReflTransGen (HarmlessStep lookup) shared.registry after.registry
    obtain same | ⟨cmd, index, rfl, advances⟩ := HostController.registry_of_serve served
    · rw [same]
    · obtain ⟨id, rfl⟩ := guarded.2
      exact .single ⟨logged, _, advances, by simp [newCmdReplicaUpdateStatus, Harmless]⟩

/-- The manager has caught up with all shards, and every host has a controller that has caught up with it. -/
structure ControlPlane.Quiet (setups : κ → HostController.Setup) (i : ι) (plane : ControlPlane ι κ) : Prop where
  shards : ∀ id shard, id ≠ ShardID → plane.registry.shard id = some shard →
    shard.updated ≤ (plane.left.memory i).index
  hosts : ∀ host ∈ plane.registry.hostIterate, ∃ j, uuidKey (setups j).hostID = uuidKey host.id ∧
    host.updated ≤ (plane.right.memory j).index

/-- Every replica of the shard ran on its host, which some group selects, and every group has what it wants or a
replica on every host that its filter selects. -/
structure ControlPlane.Deployed (lookup : State → String → List Host) (setups : κ → HostController.Setup)
    (plane : ControlPlane ι κ) (shard : Shard) : Prop where
  ran : ∀ replica ∈ plane.registry.replicaIterateByShardID shard.id, ∃ j, ∃ host, ∃ group,
    uuidKey (setups j).hostID = uuidKey replica.hostID ∧
    HostController.Ran (plane.right.memory j).calls replica.id ∧
    plane.registry.host replica.hostID = .ok (some host) ∧
    group ∈ (Demand.ofTags (lookup plane.registry) shard.tags).desired ∧
    (Demand.ofTags (lookup plane.registry) shard.tags).selects group host
  filled : ∀ (group : String) (count : ℤ),
    (Demand.ofTags (lookup plane.registry) shard.tags).desired[group]? = some count →
    count ≤ ((plane.registry.replicaIterateByShardID shard.id).countP fun replica =>
      (Demand.ofTags (lookup plane.registry) shard.tags).selects group (plane.registry.hostOrZero replica.hostID) : ℕ) ∨
    ∀ host ∈ plane.registry.hostIterate, (Demand.ofTags (lookup plane.registry) shard.tags).selects group host →
      ∃ replica ∈ plane.registry.replicaIterateByShardID shard.id, replica.hostID = host.id

/-- A controller that has caught up with its host has started the replicas of registered types on it. -/
theorem HostController.Tended.ran {setup : Setup} {registry : State} {memory : HostMemory} {host : Host}
    {replica : Replica} {shard : Shard} (tended : Tended setup registry memory)
    (found : registry.host setup.hostID = .ok (some host)) (early : host.updated ≤ memory.index)
    (present : registry.replica replica.id = some replica) (onHost : uuidKey replica.hostID = uuidKey setup.hostID)
    (outside : 0 < replica.shardID) (owned : registry.shard replica.shardID = some shard)
    (registered : (setup.shardTypes shard.type).isSome) : Ran memory.calls replica.id := by
  obtain ⟨key, parsed, stored⟩ := State.host_eq_ok_iff.mp found
  have stamped : (hostTracking setup key).stamp registry () = some host.updated := by simp [hostTracking, stored]
  have settled := tended.covered key parsed () host.updated stamped early
  obtain ran | ⟨_, _, again, other, foreign⟩ := settled replica.id replica present (onHost.trans parsed) outside
  · exact ran
  · cases present.symm.trans again
    cases owned.symm.trans other
    simp [foreign] at registered

/-- A manager that has caught up with all shards has found the shard settled. -/
theorem Watch.Seen.settled
    {indexed : ∀ state key, (lookup state key).Perm (Demand.tagged state.hostIterate key)} {origin registry : State}
    {manager : Manager} {shard : Shard} (seen : (settledWatch indexed).Seen origin registry manager)
    (reached : registry.Reached) (found : registry.shard shard.id = some shard) (secondary : shard.id ≠ ShardID)
    (early : shard.updated ≤ manager.index) (unvaried : shard.tags.varies = false) (once : shard.tags.coversOnce) :
    registry.Settled (.ofTags (lookup registry) shard.tags) shard.id := by
  have stamped : (settledStamps lookup).stamp registry shard.id = some shard.updated := by
    simp [settledStamps, found]
  have settled := seen.covered shard.id _ stamped early secondary (reached.updated_pos found)
  exact settled secondary shard found unvaried once

theorem ControlPlane.deployed_of_settled {plane : ControlPlane ι κ} {shard : Shard} {i : ι}
    (reached : plane.registry.Reached) (quiet : plane.Quiet setups i)
    (tended : ∀ j, HostController.Tended (setups j) plane.registry (plane.right.memory j))
    (found : plane.registry.shard shard.id = some shard) (secondary : shard.id ≠ ShardID)
    (registered : ∀ j, ((setups j).shardTypes shard.type).isSome)
    (settled : plane.registry.Settled (.ofTags (lookup plane.registry) shard.tags) shard.id) :
    plane.Deployed lookup setups shard where
  ran replica member := by
    obtain ⟨host, group, held, wanted, selected⟩ := host_of_settled reached settled member
    obtain ⟨key, parsed, stored⟩ := State.host_eq_ok_iff.mp held
    have named : uuidKey host.id = some key := plane.registry.hosts.keyed key host stored
    obtain ⟨j, same, early⟩ := quiet.hosts host (mem_hostIterate.mpr ⟨key, stored⟩)
    rw [State.replicaIterateByShardID_eq, List.mem_filter] at member
    obtain ⟨listed, ofShard⟩ := member
    have ofShard : replica.shardID = shard.id := by simpa using ofShard
    refine ⟨j, host, group, same.trans (named.trans parsed.symm), ?_, held, wanted, selected⟩
    refine (tended j).ran (State.host_eq_ok_iff.mpr ⟨key, same.trans named, stored⟩) early
      (State.mem_replicaIterate.mp listed) (parsed.trans (same.trans named).symm) ?_ (ofShard ▸ found) (registered j)
    rw [ofShard]
    exact Nat.pos_of_ne_zero secondary
  filled group count wanted := by
    refine (settled.filled group count wanted).imp (fun enough => ?_) fun taken host registered selected => ?_
    · refine enough.trans (Int.ofNat_le.mpr (List.countP_mono_left fun replica _ counts => ?_))
      exact (Bool.and_eq_true_iff.mp counts).1
    · obtain ⟨replica, member, -, same⟩ := taken host registered selected
      exact ⟨replica, member, same⟩

end Plane

section Runs

variable {ι κ : Type} [DecidableEq ι] [DecidableEq κ] {lookup : State → String → List Host}
  {setups : κ → HostController.Setup}

/-- In every run of managers and host controllers beside each other, whose entries from elsewhere are harmless and
regular: as soon as one manager and the controllers of all hosts have caught up with the registry, every shard that is
placed without varying anything, whose tags describe the group `cover` at most once, and whose type is registered, has
what its tags ask for, and all of it was started. -/
theorem quiet_plane_deployed
    (indexed : ∀ state key, (lookup state key).Perm (Demand.tagged state.hostIterate key)) (agents : String → Agent)
    (moves : List (ControlMove ι κ))
    (harmless : AlwaysStep (ControlPlane.Steps lookup setups) (.idle { registry := {}, agents }) moves
      fun plane move => ∀ entry, Joint.event? move = some entry →
        Harmless lookup plane.registry entry.cmd ∧ entry.cmd.isRegular) :
    Always (ControlPlane.Steps lookup setups) (.idle { registry := {}, agents }) moves fun plane =>
      ∀ i, plane.Quiet setups i → ∀ id shard, id ≠ ShardID → plane.registry.shard id = some shard →
        shard.tags.varies = false → shard.tags.coversOnce → (∀ j, ((setups j).shardTypes shard.type).isSome) →
        plane.Deployed lookup setups shard := by
  have unseen (i : ι) : (settledWatch indexed).Seen {} {} {} := by
    refine ⟨.refl, Nat.zero_le _, fun id time _ early _ positive => ?_⟩
    exact absurd positive (Nat.not_lt.mpr early)
  have untouched (j : κ) : HostController.Tended (setups j) {} {} := by
    refine ⟨State.regular_empty, le_rfl, fun key _ only time stamped => ?_⟩
    simp [HostController.hostTracking, HostTable.empty] at stamped
  have initial : Joint.Kept Cluster.Logged (plannerContract ι indexed) (starterContract setups)
      (ControlPlane.idle { registry := {}, agents }) :=
    ⟨⟨[], .nil⟩, ActorSystem.Contract.kept_idle (fun _ => rfl) unseen,
      ActorSystem.Contract.kept_idle (fun _ => rfl) untouched⟩
  have kept := Joint.always_kept (control_compatible indexed) initial
    fun front move back plane split path entry is good =>
      ⟨⟨good, (harmless front move back plane split path entry is).1⟩,
        (harmless front move back plane split path entry is).2⟩
  intro front back plane split path i quiet id shard secondary found unvaried once registered
  obtain rfl := State.shard_id found
  obtain ⟨logged, planner, starter⟩ := kept front back plane split path
  have tended (j : κ) : HostController.Tended (setups j) plane.registry (plane.right.memory j) := by
    rw [ControlPlane.registry, plane.one]
    exact starter.inv j
  have seen : (settledWatch indexed).Seen {} plane.registry (plane.left.memory i) := planner.inv i
  refine plane.deployed_of_settled logged quiet tended found secondary registered ?_
  exact seen.settled logged found secondary (quiet.shards _ shard secondary found) unvaried once

end Runs

section Example

/-- The controller of the only host finds the member running that a tick of the manager has created. -/
def deployingMoves : List (ControlMove Unit Unit) :=
  (tickAfter halfEntries halfFilling).map .inl ++
    [.inr (.start () 0), .inr (.call () (.agent (.snapshot fun _ => []))),
      .inr (.call () (.running [{ replicaID := 1 }])), .inr (.call () (.agent (.order [0]))), .inr (.finish ())]

private def isQuiet (plane : ControlPlane Unit Unit) : Bool :=
  (plane.registry.shardIterate.all fun shard =>
    shard.id = ShardID || decide (shard.updated ≤ (plane.left.memory ()).index)) &&
  plane.registry.hostIterate.all fun host =>
    uuidKey HostController.exampleSetup.hostID = uuidKey host.id &&
      decide (host.updated ≤ (plane.right.memory ()).index)

private theorem quiet_of_isQuiet {plane : ControlPlane Unit Unit} (checked : isQuiet plane) :
    plane.Quiet (fun _ : Unit => HostController.exampleSetup) () := by
  obtain ⟨shards, hosts⟩ := Bool.and_eq_true_iff.mp checked
  refine ⟨fun id shard secondary found => ?_, fun host member => ⟨(), ?_⟩⟩
  · obtain rfl := State.shard_id found
    simpa [secondary] using List.all_eq_true.mp shards shard (State.mem_shardIterate.mpr found)
  · simpa using List.all_eq_true.mp hosts host member

private def exampleStep : ControlPlane Unit Unit → ControlMove Unit Unit → Option (ControlPlane Unit Unit) :=
  Joint.step exactManagers (hostControllers fun _ => HostController.exampleSetup)

theorem tick_deploys :
    ∃ plane shard, Path (ControlPlane.Steps exactLookup fun _ : Unit => HostController.exampleSetup)
        (.idle emptyCluster) deployingMoves plane ∧
      plane.registry.shard 1 = some shard ∧
      plane.Deployed exactLookup (fun _ => HostController.exampleSetup) shard := by
  obtain ⟨plane, ran, quiet, shard, found, unvaried, once⟩ :
      ∃ plane ∈ deployingMoves.foldlM exampleStep (.idle emptyCluster), isQuiet plane ∧
        ∃ shard ∈ plane.registry.shard 1, shard.tags.varies = false ∧ shard.tags.coversOnce := by
    decide +kernel
  have path := Path.iff_foldlM.mpr ran
  refine ⟨plane, shard, path, found, ?_⟩
  refine (quiet_plane_deployed (fun _ _ => .refl _) _ deployingMoves ?_).last path () (quiet_of_isQuiet quiet) 1 shard
    (by decide) found unvaried once fun _ => rfl
  -- Only the first two moves are from elsewhere, and there is no shard yet when the host is put.
  refine .cons ?_ fun next moved => .cons ?_ fun _ _ => ?_
  · rintro entry ⟨⟩
    refine ⟨⟨rfl, fun id shard _ found => ?_⟩, rfl⟩
    simp [ControlPlane.registry, ControlPlane.idle, idleManagers, State.shard, ShardTable.empty] at found
  · rintro entry ⟨⟩
    exact ⟨fun kind => (by cases kind), rfl⟩
  · intro front move back state split _ entry is
    have calm : (deployingMoves.drop 2).all fun move => (Joint.event? move).isNone := rfl
    have parts : deployingMoves.drop 2 = front ++ move :: back := split
    have member : move ∈ deployingMoves.drop 2 := parts ▸ List.mem_append_right front List.mem_cons_self
    simpa [is] using List.all_eq_true.mp calm move member

end Example

end Zongzi
