import Zongzi.Model.Agent
import Zongzi.Proofs.Runs

/-! # What serving a call does to the registry

Only a proposal changes the registry, and then by one entry of the state machine under a later index.
-/

namespace Zongzi

open Machine

/-- A call that changes nothing. -/
def AgentOp.reads : AgentOp → Bool
  | .propose _ => false
  | .startHost .. => false
  | .setReplicaID .. => false
  | .setMembers .. => false
  | .setStatus .. => false
  | _ => true

/-- A cluster with an empty registry. -/
def emptyCluster : Cluster := { registry := {}, agents := fun _ => {} }

namespace Cluster

variable {cluster next : Cluster} {choice : Choice}

theorem apply_eq_some_iff {index : ℕ} {cmd : Cmd} {result : Result} :
    cluster.apply index cmd = some (result, next) ↔
      cluster.registry.index < index ∧
        ∃ registry, Fsm.update cluster.registry { index, cmd } = .ok (registry, result) ∧
          next = { cluster with registry } := by
  unfold apply
  split
  · next later =>
    simp only [later, true_and]
    split
    · next registry value updated => simp [updated, eq_comm, and_comm]
    · next failed => simp [failed]
  · next early => simp [early]

/-- A served proposal was applied, or nothing happened and the caller sees an error. -/
theorem serve_propose_cases {cmd : Cmd} {answer : Except String Result}
    (served : serve cluster (.propose cmd) choice = some (answer, next)) :
    (∃ index registry result, cluster.registry.index < index ∧
      Fsm.update cluster.registry { index, cmd } = .ok (registry, result) ∧
      next = { cluster with registry } ∧ choice.applies ∧
      (answer = .ok result ∨ (∃ err, answer = .error err) ∧ choice.isFault)) ∨
    (next = cluster ∧ choice.applies = false ∧ (∃ err, answer = .error err) ∧ choice.isFault) := by
  cases choice with
  | applied index =>
    obtain ⟨⟨result, reached⟩, applied, same⟩ := Option.map_eq_some_iff.mp served
    obtain ⟨later, registry, updated, rfl⟩ := apply_eq_some_iff.mp applied
    cases same
    exact .inl ⟨index, registry, result, later, updated, rfl, rfl, .inl rfl⟩
  | timedOut index err =>
    obtain ⟨⟨result, reached⟩, applied, same⟩ := Option.map_eq_some_iff.mp served
    obtain ⟨later, registry, updated, rfl⟩ := apply_eq_some_iff.mp applied
    cases same
    exact .inl ⟨index, registry, result, later, updated, rfl, rfl, .inr ⟨⟨err, rfl⟩, rfl⟩⟩
  | failed err =>
    cases served
    exact .inr ⟨rfl, rfl, ⟨err, rfl⟩, rfl⟩
  | _ => cases served

theorem serve_read_cases {answer : Except String Snapshot}
    (served : serve cluster .read choice = some (answer, next)) :
    next = cluster ∧
      ((∃ snapshot, answer = .ok snapshot ∧ snapshot.state = cluster.registry) ∨
        choice.isFault) := by
  cases choice with
  | snapshot hostIterateByTag =>
    cases served
    exact ⟨rfl, .inl ⟨_, rfl, rfl⟩⟩
  | failed err =>
    cases served
    exact ⟨rfl, .inr rfl⟩
  | _ => cases served

theorem unchanged_of_reads {op : AgentOp} {answer : AgentRes op} (reads : op.reads)
    (served : serve cluster op choice = some (answer, next)) : next = cluster := by
  unfold serve at served
  split at served
  case h_6 =>
    split at served
    · cases served; rfl
    · contradiction
  all_goals first
    | contradiction
    | (cases served; rfl)

/-- A call that is not a proposal leaves the registry alone. -/
theorem registry_of_serve {op : AgentOp} {answer : AgentRes op}
    (served : serve cluster op choice = some (answer, next))
    (other : ∀ cmd, op ≠ .propose cmd) : next.registry = cluster.registry := by
  unfold serve at served
  split at served
  case h_6 =>
    split at served
    · cases served; rfl
    · contradiction
  all_goals first
    | exact absurd rfl (other _)
    | contradiction
    | (cases served; rfl)

/-- A step leaves the registry alone, or applies the command its program proposes. -/
theorem registry_step {ι ρ : Type} [DecidableEq ι] {pool after : Pool Cluster ι AgentOp AgentRes ρ}
    {label : ι × Choice} (moved : pool.Steps serve label after) :
    (after.shared.registry = pool.shared.registry ∧ ∀ cmd continue_,
      pool.threads label.1 = .call (.propose cmd) continue_ → label.2.applies = false) ∨
    ∃ cmd continue_ index result, pool.threads label.1 = .call (.propose cmd) continue_ ∧
      label.2.applies ∧
      Fsm.update pool.shared.registry { index, cmd } = .ok (after.shared.registry, result) := by
  obtain ⟨op, continue_, answer, shared, calling, served, rfl⟩ := Pool.steps_cases moved
  by_cases proposal : ∃ cmd, op = .propose cmd
  · obtain ⟨cmd, rfl⟩ := proposal
    obtain ⟨index, registry, result, -, updated, rfl, applies, -⟩ | ⟨rfl, skipped, -⟩ :=
      serve_propose_cases served
    · exact .inr ⟨cmd, continue_, index, result, calling, applies, updated⟩
    · exact .inl ⟨rfl, fun _ _ _ => skipped⟩
  · push Not at proposal
    refine .inl ⟨registry_of_serve served proposal, fun cmd other again => ?_⟩
    cases calling.symm.trans again
    exact absurd rfl (proposal cmd)

end Cluster

section OnlyCalls

open Program

/-- No operation of an agent proposes a replica put. -/
def NotReplicaPut (op : AgentOp) : Prop := ∀ replica, op ≠ .propose (.replica .put replica)

variable {α β : Type}

theorem onlyCalls_map {program : AgentM α} (f : α → β) (only : program.OnlyCalls NotReplicaPut) :
    (f <$> program).OnlyCalls NotReplicaPut :=
  .bind only fun _ => trivial

theorem onlyCalls_propose {cmd : Cmd} {next : Except String Result → AgentM α}
    (other : ∀ replica, cmd ≠ .replica .put replica)
    (rest : ∀ answer, (next answer).OnlyCalls NotReplicaPut) :
    (primePropose cmd >>= next).OnlyCalls NotReplicaPut :=
  .bind (.perform fun replica same => other replica (AgentOp.propose.inj same)) rest

theorem onlyCalls_read {next : Except String Snapshot → AgentM α}
    (rest : ∀ answer, (next answer).OnlyCalls NotReplicaPut) :
    (readState >>= next).OnlyCalls NotReplicaPut :=
  .bind (.perform fun _ => by simp) rest

theorem touchOrPost_onlyCalls (shard : Shard) (found : Option Shard) :
    (touchOrPost shard found).OnlyCalls NotReplicaPut := by
  cases found with
  | none => exact onlyCalls_propose (by simp [newCmdShardPost]) fun answer => by cases answer <;> trivial
  | some found =>
    exact onlyCalls_propose (by simp [newCmdShardTouch]) fun answer => by cases answer <;> trivial

theorem shardCreate_onlyCalls (uri : String) (opts : List ShardOption) :
    (shardCreate uri opts).OnlyCalls NotReplicaPut := by
  unfold shardCreate
  split
  · trivial
  · split
    · exact touchOrPost_onlyCalls _ _
    · exact onlyCalls_read fun answer => by cases answer <;> exact touchOrPost_onlyCalls _ _

theorem shardDelete_onlyCalls (id : ℕ) : (shardDelete id).OnlyCalls NotReplicaPut := by
  refine onlyCalls_propose (by simp [newCmdShardDel]) fun answer => ?_
  cases answer with
  | error err => trivial
  | ok result => dsimp only; split <;> trivial

theorem primeAddHost_onlyCalls (nhid : String) : (primeAddHost nhid).OnlyCalls NotReplicaPut := by
  refine .bind (.perform fun _ => by simp) fun answer => ?_
  cases answer with
  | error err => trivial
  | ok addr =>
    exact onlyCalls_propose (by simp [newCmdHostPut]) fun answer => by cases answer <;> trivial

theorem primeAddReplica_onlyCalls (nhid : String) (isNonVoting : Bool) :
    (primeAddReplica nhid isNonVoting).OnlyCalls NotReplicaPut :=
  onlyCalls_propose (by simp [newCmdReplicaPost]) fun answer => by cases answer <;> trivial

theorem joinShardReplica_onlyCalls (hostID : String) (shardID replicaID : ℕ) (isNonVoting : Bool) :
    (joinShardReplica hostID shardID replicaID isNonVoting).OnlyCalls NotReplicaPut := by
  refine .bind (.perform fun _ => by simp) fun answer => ?_
  cases answer with
  | error err => trivial
  | ok membership =>
    dsimp only
    generalize (if isNonVoting then membership.nonVotings else membership.nodes) = joined
    split
    · trivial
    · exact .bind (.perform fun _ => by simp) fun answer => by cases answer <;> trivial

theorem joinPrimeHost_onlyCalls (hostID : String) : (joinPrimeHost hostID).OnlyCalls NotReplicaPut := by
  refine onlyCalls_read fun answer => ?_
  cases answer with
  | error err => exact primeAddHost_onlyCalls hostID
  | ok snapshot =>
    dsimp only
    split
    · exact primeAddHost_onlyCalls hostID
    · trivial

theorem joinPrimeRecord_onlyCalls (hostID : String) (host : Host) (shardID : ℕ) (isNonVoting : Bool) :
    (joinPrimeRecord hostID host shardID isNonVoting).OnlyCalls NotReplicaPut := by
  refine onlyCalls_read fun answer => ?_
  cases answer with
  | error err => exact primeAddReplica_onlyCalls hostID isNonVoting
  | ok snapshot =>
    dsimp only
    split
    · exact primeAddReplica_onlyCalls hostID isNonVoting
    · trivial

theorem joinPrimeReplica_onlyCalls (hostID : String) (shardID : ℕ) (isNonVoting : Bool) :
    (joinPrimeReplica hostID shardID isNonVoting).OnlyCalls NotReplicaPut := by
  refine .bind (joinPrimeHost_onlyCalls hostID) fun host => ?_
  cases host with
  | error err => trivial
  | ok host =>
    refine .bind (joinPrimeRecord_onlyCalls hostID host shardID isNonVoting) fun replicaID => ?_
    cases replicaID with
    | error err => trivial
    | ok replicaID => exact joinShardReplica_onlyCalls hostID shardID replicaID isNonVoting

theorem tags_onlyCalls {action : Action} (put : action ≠ .put) (subject : Subject) (tags : List String)
    (replica : Replica) : newCmdTags action subject tags ≠ .replica .put replica := by
  cases subject <;> simp [newCmdTags, put]

theorem reportError_onlyCalls (shard : Shard) (err : Option String) :
    (reportError shard err).OnlyCalls NotReplicaPut := by
  cases err with
  | some err =>
    refine .bind (onlyCalls_propose (tags_onlyCalls (by simp) _ _) fun answer => ?_) fun _ => trivial
    cases answer <;> trivial
  | none =>
    dsimp only [reportError]
    split
    · refine .bind (onlyCalls_propose (tags_onlyCalls (by simp) _ _) fun answer => ?_) fun _ => trivial
      cases answer <;> trivial
    · trivial

/-- Whatever a controller does, its controls only post and delete replicas. -/
theorem controls_onlyCalls (op : ControlOp) (updated : Bool) :
    ((controls op).run updated).OnlyCalls NotReplicaPut := by
  cases op with
  | order count => exact .bind (.perform fun _ => by simp) fun _ => trivial
  | create hostID shardID isNonVoting =>
    refine .bind (.bind (onlyCalls_propose (by simp [newCmdReplicaPost]) fun answer => ?_)
      fun _ => trivial) fun (id, updated) => ?_
    · cases answer <;> trivial
    · cases id <;> trivial
  | delete replicaID =>
    refine .bind (.bind (onlyCalls_propose (by simp [newCmdReplicaDelete]) fun answer => ?_)
      fun _ => trivial) fun (deleted, updated) => ?_
    · cases answer <;> trivial
    · cases deleted <;> trivial

theorem reconcileShards_onlyCalls (controller : Controller) (snapshot : Snapshot)
    (shards : List Shard) (updated hadErr : Bool) :
    (reconcileShards controller snapshot shards updated hadErr).OnlyCalls NotReplicaPut := by
  induction shards generalizing updated hadErr with
  | nil => trivial
  | cons shard rest ih =>
    refine .bind (.perform fun _ => by simp) fun cancelled => ?_
    split
    · trivial
    · split
      · exact ih updated hadErr
      · refine .bind (.interpret controls_onlyCalls _ _) fun (err, updated) => ?_
        refine .bind (reportError_onlyCalls shard err) fun failed => ?_
        dsimp only
        split
        · trivial
        · exact ih _ _

theorem tickPasses_onlyCalls (controller : Controller) (after fuel index : ℕ) (updated hadErr : Bool) :
    (tickPasses controller after fuel index updated hadErr).OnlyCalls NotReplicaPut := by
  induction fuel generalizing index updated hadErr with
  | zero => trivial
  | succ fuel ih =>
    refine onlyCalls_read fun answer => ?_
    cases answer with
    | error err => trivial
    | ok snapshot =>
      refine .bind (reconcileShards_onlyCalls ..) fun (updated, hadErr) => ?_
      dsimp only
      split
      · exact ih _ _ _
      · trivial

theorem tick_onlyCalls (controller : Controller) (isLeader : Bool) (fuel index : ℕ) :
    (tick controller isLeader fuel index).OnlyCalls NotReplicaPut := by
  unfold tick
  split
  · exact .bind (tickPasses_onlyCalls ..) fun _ => trivial
  · trivial

theorem Call.program_onlyCalls (controller : Controller) (call : Call) :
    (call.program controller).OnlyCalls NotReplicaPut := by
  cases call with
  | shardCreate uri opts => exact onlyCalls_map _ (shardCreate_onlyCalls uri opts)
  | shardDelete id => exact onlyCalls_map _ (shardDelete_onlyCalls id)
  | joinPrimeReplica hostID isNonVoting =>
    exact onlyCalls_map _ (joinPrimeReplica_onlyCalls hostID ShardID isNonVoting)
  | tick isLeader fuel index => exact onlyCalls_map _ (tick_onlyCalls controller isLeader fuel index)

end OnlyCalls

end Zongzi
