import Zongzi.Spec.TopologyInvariants
import Zongzi.Proofs.Cluster
import Zongzi.Proofs.Membership

/-! # The registry after initialization

The agent that initializes the prime shard posts one replica for each member, in the order of their
identifiers, and relies on the counter of an empty registry to give the same numbers. While it is the
only initializer it owns the registry, so the counter is its own and the records come out as the
membership. Nothing makes it the only one: peers that poll before any of them has taken its identifier
all initialize, and each posts its own replicas.
-/

namespace Zongzi

open Std Machine

namespace Deployment

variable {ι : Type} (deployment : Deployment ι)

def Initializes (cluster : Cluster) (i : ι) : Prop :=
  (deployment.agent cluster i).status = .initializing

instance (cluster : Cluster) (i : ι) : Decidable (deployment.Initializes cluster i) :=
  inferInstanceAs (Decidable (_ = _))

/-- At most one agent initializes, and until one does the registry is empty. -/
structure Sole (cluster : Cluster) : Prop where
  single : ∀ i j, deployment.Initializes cluster i → deployment.Initializes cluster j → i = j
  untouched : (∀ i, ¬ deployment.Initializes cluster i) → cluster.registry = {}

/-- An agent becomes an initializer only while there is no other. -/
def AloneToInitialize (i : ι) (cluster : Cluster) (op : AgentOp) : Prop :=
  op = .setStatus (deployment.address i) .initializing →
    ∀ j, j ≠ i → ¬ deployment.Initializes cluster j

abbrev initDiscipline : Discipline Cluster ι AgentOp AgentRes Choice Owned :=
  deployment.discipline deployment.Sole deployment.AloneToInitialize

variable {deployment} {cluster : Cluster} {i : ι} {owned : Owned} {α : Type}

theorem sole_frames : deployment.Frames deployment.Sole := by
  intro cluster i change status sole
  have same (j : ι) : deployment.Initializes (cluster.setAgent (deployment.address i) change) j ↔
      deployment.Initializes cluster j := by
    by_cases own : j = i
    · subst own
      rw [Initializes, agent_setAgent_self, status]
      rfl
    · rw [Initializes, agent_setAgent_of_ne cluster own]
      rfl
  refine ⟨fun j k => ?_, fun none => ?_⟩
  · rw [same, same]
    exact sole.single j k
  · exact sole.untouched fun j initializes => none j ((same j).mpr initializes)

section Calls

theorem own_of_initializes (initializes : deployment.Initializes cluster i) :
    deployment.own i cluster = ⟨deployment.agent cluster i, some cluster.registry⟩ := by
  unfold Initializes at initializes
  rw [own, if_pos initializes]

theorem own_of_not_initializes (other : ¬ deployment.Initializes cluster i) :
    deployment.own i cluster = ⟨deployment.agent cluster i, none⟩ := by
  unfold Initializes at other
  rw [own, if_neg other]

theorem own_registry {registry : State} (owns : deployment.own i cluster = owned)
    (holds : owned.Holds registry) :
    deployment.Initializes cluster i ∧ cluster.registry = registry := by
  have initializes : deployment.Initializes cluster i := by
    rw [Initializes, own_agent owns]
    exact holds.1
  rw [own_of_initializes initializes] at owns
  have same := holds.2
  rw [← owns] at same
  exact ⟨initializes, Option.some.inj same⟩

/-- What the only initializer proposes is applied to the registry as it left it. -/
theorem propose_obeys {cmd : Cmd} {registry : State} (holds : owned.Holds registry) :
    deployment.initDiscipline.Obeys i (primePropose cmd) owned
      fun (answer : Except String Result) after => ∀ result, answer = .ok result →
        ∃ index next, Fsm.update registry { index, cmd } = .ok (next, result) ∧ after.Holds next := by
  intro cluster choice answer after good owns _ served
  obtain ⟨initializes, rfl⟩ := own_registry owns holds
  obtain ⟨index, next, result, -, updated, rfl, -, answered⟩ | ⟨rfl, -, ⟨err, rfl⟩, -⟩ :=
    Cluster.serve_propose_cases served
  · have stays : deployment.Initializes { cluster with registry := next } i := initializes
    refine ⟨⟨good.1, good.2.single, fun none => absurd stays (none i)⟩, fun j other => ?_, ?_⟩
    · have idle : ¬ deployment.Initializes cluster j := fun busy =>
        other (good.2.single j i busy initializes)
      have still : ¬ deployment.Initializes { cluster with registry := next } j := idle
      exact (own_of_not_initializes still).trans (own_of_not_initializes idle).symm
    · rintro _ rfl
      obtain same | ⟨⟨err, same⟩, -⟩ := answered
      · cases same
        refine ⟨index, next, updated, ?_⟩
        change (deployment.own i { cluster with registry := next }).Holds next
        rw [own_of_initializes stays]
        exact ⟨initializes, rfl⟩
      · cases same
  · refine ⟨good, fun _ _ => rfl, ?_⟩
    rintro result ⟨⟩

theorem startInitializing_obeys (idle : owned.agent.status ≠ .initializing) :
    deployment.initDiscipline.Obeys i
      (Program.perform (.setStatus (deployment.address i) .initializing)) owned
      fun _ after => after.Holds {} := by
  intro cluster choice answer after good owns alone served
  have none (j : ι) : ¬ deployment.Initializes cluster j := by
    by_cases own : j = i
    · rwa [own, Initializes, own_agent owns]
    · exact alone rfl j own
  cases choice <;> cases served
  have self : deployment.Initializes (cluster.setAgent (deployment.address i)
      fun agent => { agent with status := .initializing }) i := by
    rw [Initializes, agent_setAgent_self]
  have only (j : ι) (busy : deployment.Initializes (cluster.setAgent (deployment.address i)
      fun agent => { agent with status := .initializing }) j) : j = i := by
    by_contra other
    rw [Initializes, agent_setAgent_of_ne cluster other] at busy
    exact none j busy
  have consistent := good.1 i
  refine ⟨⟨?_, ?_, fun idle => absurd self (idle i)⟩, fun j other => ?_, ?_⟩
  · exact consistent_setAgent good.1 ⟨consistent.hostID, consistent.replicaID, consistent.members⟩
  · exact fun j k left right => (only j left).trans (only k right).symm
  · exact own_setAgent_of_ne cluster other _
  · change (deployment.own i _).Holds {}
    rw [own_of_initializes self]
    exact ⟨self, congrArg some (good.2.untouched none)⟩

/-- An agent that does not initialize takes another status. -/
theorem setStatus_obeys {status : AgentStatus} (other : status ≠ .initializing)
    (idle : owned.agent.status ≠ .initializing) :
    deployment.initDiscipline.Obeys i
      (Program.perform (.setStatus (deployment.address i) status)) owned
      fun _ after => after.agent.status = status := by
  intro cluster choice answer after good owns _ served
  cases choice <;> cases served
  have same (j : ι) : deployment.Initializes (cluster.setAgent (deployment.address i)
      fun agent => { agent with status }) j ↔ deployment.Initializes cluster j := by
    by_cases own : j = i
    · subst own
      rw [Initializes, agent_setAgent_self, Initializes, own_agent owns]
      exact iff_of_false other idle
    · rw [Initializes, agent_setAgent_of_ne cluster own]
      rfl
  have consistent := good.1 i
  refine ⟨⟨?_, fun j k => ?_, fun none => ?_⟩, fun j different => ?_, ?_⟩
  · exact consistent_setAgent good.1 ⟨consistent.hostID, consistent.replicaID, consistent.members⟩
  · rw [same, same]
    exact good.2.single j k
  · exact good.2.untouched fun j initializes => none j ((same j).mpr initializes)
  · exact own_setAgent_of_ne cluster different _
  · change (deployment.agent _ i).status = status
    rw [agent_setAgent_self]

theorem startPrimeReplica_obeys (members : ExtTreeMap ℕ String) (join : Bool) :
    deployment.initDiscipline.Obeys i (startPrimeReplica members join) owned
      fun _ after => after = owned :=
  obeys_reads rfl fun _ _ answer _ _ _ => by cases answer <;> exact rfl

end Calls

section Initialize

variable {registry : State} {hosts : List String}

/-- The only initializer has seated these hosts. -/
def HasSeated (owned : Owned) (hosts : List String) : Prop :=
  ∃ registry, owned.Holds registry ∧ registry.topology.Seats ShardID hosts

theorem primeAddHost_obeys (nhid : String) (seated : HasSeated owned hosts) :
    deployment.initDiscipline.Obeys i (primeAddHost nhid) owned
      fun answer after => ∀ host, answer = .ok host → HasSeated after hosts := by
  obtain ⟨registry, holds, seats⟩ := seated
  refine obeys_reads rfl fun _ _ answer _ _ _ => ?_
  cases answer with
  | error err => exact nofun
  | ok addr =>
    refine (propose_obeys holds).bind fun answer after applied => ?_
    cases answer with
    | error err => exact nofun
    | ok result =>
      intro host _
      obtain ⟨index, next, updated, holds⟩ := applied result rfl
      exact ⟨next, holds, (Fsm.update_refines updated).seats_put seats (.inl ⟨_, rfl⟩)⟩

theorem primeAddReplica_obeys (nhid : String) (few : hosts.length + 1 < 2 ^ 64)
    (seated : HasSeated owned hosts) :
    deployment.initDiscipline.Obeys i (primeAddReplica nhid false) owned
      fun answer after => ∀ id, answer = .ok id → HasSeated after (hosts ++ [nhid]) := by
  obtain ⟨registry, holds, seats⟩ := seated
  refine (propose_obeys holds).bind fun answer after applied => ?_
  cases answer with
  | error err => exact nofun
  | ok result =>
    intro id _
    obtain ⟨index, next, updated, holds⟩ := applied result rfl
    exact ⟨next, holds, (Fsm.update_refines updated).seats_post seats rfl few⟩

/-- Posting the hosts of a list in order seats them in order. -/
theorem primeInitReplicas_obeys {toAdd : List String} (few : hosts.length + toAdd.length < 2 ^ 64)
    (seated : HasSeated owned hosts) :
    deployment.initDiscipline.Obeys i (primeInitReplicas toAdd) owned
      fun err after => err = none → HasSeated after (hosts ++ toAdd) := by
  induction toAdd generalizing hosts owned with
  | nil => exact fun _ => (List.append_nil hosts).symm ▸ seated
  | cons nhid toAdd ih =>
    rw [List.length_cons] at few
    refine (primeAddReplica_obeys nhid (by omega) seated).bind fun answer after added => ?_
    cases answer with
    | error err => exact nofun
    | ok id =>
      rw [List.append_cons]
      exact ih (by rw [List.length_append, List.length_singleton]; omega) (added id rfl)

/-- Whatever the order of the entries, the list has each host at its identifier. -/
theorem primeInitHosts_obeys {entries : List (ℕ × String)} {toAdd : List String}
    (listed : ∀ id host, (id, host) ∈ entries → deployment.membership id = some host)
    (length : toAdd.length = deployment.peers.length)
    (complete : ∀ position host, deployment.membership (position + 1) = some host →
      toAdd[position]? = some host ∨ (position + 1, host) ∈ entries)
    (seated : HasSeated owned hosts) :
    deployment.initDiscipline.Obeys i (primeInitHosts entries toAdd) owned
      fun answer after => ∀ added, answer = .ok added →
        added = deployment.peers.map deployment.hostID ∧ HasSeated after hosts := by
  induction entries generalizing toAdd owned with
  | nil =>
    rintro added ⟨⟩
    refine ⟨List.ext_getElem? fun position => ?_, seated⟩
    rw [List.getElem?_map]
    cases found : deployment.peers[position]? with
    | none =>
      rw [List.getElem?_eq_none_iff] at found
      exact List.getElem?_eq_none (length ▸ found)
    | some p =>
      have numbers : deployment.Numbers (position + 1) p := ⟨position, rfl, found⟩
      exact (complete position _ numbers.membership).resolve_right List.not_mem_nil
  | cons entry entries ih =>
    obtain ⟨id, nhid⟩ := entry
    refine (primeAddHost_obeys nhid seated).bind fun answer after added => ?_
    cases answer with
    | error err => exact nofun
    | ok host =>
      dsimp only
      split
      · next bounds =>
        refine ih (fun id host later => listed id host (List.mem_cons_of_mem _ later))
          (by rw [List.length_set, length]) (fun position host member => ?_) (added host rfl)
        by_cases same : position + 1 = id
        · subst same
          have stored := (listed _ nhid List.mem_cons_self).symm.trans member
          left
          rw [Nat.add_sub_cancel, List.getElem?_set_self (by omega), stored]
        · rw [List.getElem?_set_ne (by omega)]
          refine (complete position host member).imp_right fun entry => ?_
          refine (List.mem_cons.mp entry).resolve_left fun head => same ?_
          exact congrArg Prod.fst head
      · exact nofun

/-- The only initializer leaves one replica for each member, under the member's identifier. -/
theorem primeInit_obeys {members : ExtTreeMap ℕ String}
    (full : ∀ id : ℕ, members[id]? = deployment.membership id) (holds : owned.Holds {}) :
    deployment.initDiscipline.Obeys i (primeInit members) owned
      fun err after => err = none → HasSeated after (deployment.peers.map deployment.hostID) := by
  have empty : ({} : State).topology.Seats ShardID [] := ⟨rfl, funext fun id => by cases id <;> rfl⟩
  have size : members.size = deployment.peers.length := size_eq_peers_length fun id => by rw [full]
  refine (propose_obeys holds).bind fun answer after applied => ?_
  cases answer with
  | error err => exact nofun
  | ok result =>
    obtain ⟨index, next, updated, holds⟩ := applied result rfl
    have seated : HasSeated after [] :=
      ⟨next, holds, (Fsm.update_refines updated).seats_put empty (.inr ⟨_, rfl⟩)⟩
    refine (rangeMap_obeys members).bind ?_
    rintro entries _ ⟨rfl, lists⟩
    refine (primeInitHosts_obeys (fun id host entry => ?_) (by simp [size])
      (fun position host member => .inr ?_) seated).bind fun answer last added => ?_
    · rw [← full]
      exact (lists id host).mp entry
    · exact (lists _ host).mpr ((full _).trans member)
    · cases answer with
      | error err => exact nofun
      | ok toAdd =>
        obtain ⟨rfl, seated⟩ := added toAdd rfl
        have few := deployment.peers_length
        exact primeInitReplicas_obeys (by rw [List.length_nil, List.length_map]; omega) seated

theorem startInit_obeys {members : ExtTreeMap ℕ String}
    (full : ∀ id : ℕ, members[id]? = deployment.membership id) (idle : owned.agent.status ≠ .initializing) :
    deployment.initDiscipline.Obeys i (startInit (deployment.address i) members) owned
      fun startup after => startup = .started →
        HasSeated after (deployment.peers.map deployment.hostID) := by
  refine (startInitializing_obeys idle).bind fun _ after holds => ?_
  refine (startPrimeReplica_obeys members false).bind ?_
  rintro err _ rfl
  cases err with
  | some err => exact nofun
  | none =>
    refine (primeInit_obeys full holds).bind fun err last seated => ?_
    cases err with
    | some err => exact nofun
    | none => exact fun _ => seated rfl

theorem primeInitAwait_obeys (fuel : ℕ) :
    deployment.initDiscipline.Obeys i (primeInitAwait (deployment.address i) fuel) owned
      fun _ after => after = owned := by
  induction fuel with
  | zero => exact rfl
  | succ fuel ih =>
    refine obeys_reads rfl fun _ _ answer _ _ _ => ?_
    cases answer with
    | error err => exact rfl
    | ok snapshot =>
      refine hostID_obeys.bind ?_
      rintro hostID _ ⟨rfl, -, -⟩
      split
      · exact rfl
      · exact ih

theorem startAwait_obeys (members : ExtTreeMap ℕ String) (fuel : ℕ)
    (idle : owned.agent.status ≠ .initializing) :
    deployment.initDiscipline.Obeys i (startAwait (deployment.address i) members fuel) owned
      fun _ after => after.agent.status = .joining := by
  refine (setStatus_obeys (by decide) idle).bind fun _ after joining => ?_
  refine (startPrimeReplica_obeys members false).bind ?_
  rintro err _ rfl
  cases err with
  | some err => exact joining
  | none =>
    refine (primeInitAwait_obeys fuel).mono ?_
    rintro _ _ rfl
    exact joining

/-- A peer that starts on a host without a replica never joins, and seats the members if it comes to
initialize. -/
theorem startPrime_obeys (peer : i ∈ deployment.peers) (fuel : ℕ)
    (idle : owned.agent.status ≠ .initializing) :
    deployment.initDiscipline.Obeys i
      (startPrime deployment.addresses (deployment.address i) (deployment.hostID i) 0 fuel) owned
      fun startup after => startup = .started → after.agent.status = .initializing →
        HasSeated after (deployment.peers.map deployment.hostID) := by
  refine (primeMembership_obeys sole_frames fuel).bind ?_
  rintro answer after ⟨role, resolves⟩
  cases answer with
  | none => exact nofun
  | some resolution =>
    obtain ⟨-, full, self⟩ := resolves resolution rfl
    dsimp only
    cases err : resolution.err with
    | some err => exact nofun
    | none =>
      refine replicaID_obeys.bind ?_
      rintro replicaID _ ⟨rfl, rfl, -⟩
      rw [if_neg (self err peer).ne', if_pos rfl]
      split
      · exact (startInit_obeys (full err) (role.1 ▸ idle)).mono fun _ _ seated started _ => seated started
      · refine (startAwait_obeys resolution.members fuel (role.1 ▸ idle)).mono ?_
        intro startup last joining _ initializing
        rw [joining] at initializing
        contradiction

end Initialize

section Registry

/-- The replica records of the prime shard are the members. -/
structure Mirrors (deployment : Deployment ι) (registry : State) : Prop where
  records : ∀ id host, (∃ replica, registry.replica id = some replica ∧
    replica.shardID = ShardID ∧ replica.hostID = host) ↔ deployment.membership id = some host
  count : (registry.replicaIterateByShardID ShardID).length = deployment.peers.length

theorem seat_hosts (deployment : Deployment ι) (shardID id : ℕ) :
    Topology.seat shardID (deployment.peers.map deployment.hostID) id =
      (deployment.membership id).map fun hostID => ⟨hostID, shardID⟩ := by
  cases id with
  | zero => rfl
  | succ position => simp [Topology.seat, membership]

theorem mirrors_of_seats {registry : State}
    (seats : registry.topology.Seats ShardID (deployment.peers.map deployment.hostID)) :
    deployment.Mirrors registry := by
  have placed (id : ℕ) : (registry.replica id).map Replica.placement =
      (deployment.membership id).map fun hostID => ⟨hostID, ShardID⟩ := by
    rw [← seat_hosts, ← seats.replicas]
    rfl
  have shards (replica : Replica) (stored : replica ∈ registry.replicaIterate) :
      replica.shardID = ShardID := by
    have place := placed replica.id
    rw [State.mem_replicaIterate.mp stored] at place
    obtain ⟨hostID, -, same⟩ := Option.map_eq_some_iff.mp place.symm
    exact (congrArg Placement.shardID same).symm
  refine ⟨fun id host => ⟨?_, fun member => ?_⟩, ?_⟩
  · rintro ⟨replica, stored, -, rfl⟩
    have place := placed id
    rw [stored] at place
    obtain ⟨hostID, member, same⟩ := Option.map_eq_some_iff.mp place.symm
    rw [member]
    exact congrArg (some ∘ Placement.hostID) same
  · have place := placed id
    rw [member] at place
    obtain ⟨replica, stored, same⟩ := Option.map_eq_some_iff.mp place
    exact ⟨replica, stored, congrArg Placement.shardID same, congrArg Placement.hostID same⟩
  · rw [State.replicaIterateByShardID_eq, List.filter_eq_self.mpr (by simpa using shards)]
    rw [State.replicaIterate, List.length_map, ExtTreeMap.length_toList]
    refine size_eq_peers_length fun id => ?_
    have present := congrArg Option.isSome (placed id)
    rw [Option.isSome_map, Option.isSome_map] at present
    exact present

/-- Agents that start. -/
def startPool (deployment : Deployment ι) (cluster : Cluster) (fuel : ι → ℕ) :
    Pool Cluster ι AgentOp AgentRes Startup where
  shared := cluster
  threads i := startPrime deployment.addresses (deployment.address i) (deployment.hostID i) 0 (fuel i)

/-- With this step an agent takes the branch in which it initializes the shard. -/
def TakesInit (deployment : Deployment ι) (pool : Pool Cluster ι AgentOp AgentRes Startup) (label : ι × Choice) :
    Prop :=
  ∃ continue_, pool.threads label.1 = .call (.setStatus (deployment.address label.1) .initializing) continue_

theorem status_setAgent (cluster : Cluster) (self other : String) {change : Agent → Agent}
    (same : ∀ agent, (change agent).status = agent.status) :
    ((cluster.setAgent other change).agents self).status = (cluster.agents self).status := by
  by_cases own : self = other
  · subst own
    simp [Cluster.setAgent, same]
  · simp [Cluster.setAgent, Function.update_of_ne own]

/-- Only `setStatus` changes a status. -/
theorem status_of_serve {cluster next : Cluster} {op : AgentOp} {choice : Choice} {answer : AgentRes op}
    (served : Cluster.serve cluster op choice = some (answer, next)) (self : String) :
    (next.agents self).status = (cluster.agents self).status ∨ op = .setStatus self (next.agents self).status := by
  cases op with
  | propose cmd => obtain ⟨_, _, _, -, -, rfl, -⟩ | ⟨rfl, -⟩ := Cluster.serve_propose_cases served <;> exact .inl rfl
  | setStatus other status =>
    cases choice <;> cases served
    by_cases own : self = other
    · subst own
      exact .inr (by simp [Cluster.setAgent])
    · exact .inl (by simp [Cluster.setAgent, Function.update_of_ne own])
  | startHost other | setReplicaID other | setMembers other =>
    cases choice <;> cases served
    exact .inl (status_setAgent cluster self other fun _ => rfl)
  | _ => exact .inl (by rw [Cluster.unchanged_of_reads rfl served])

/-- Where an agent that takes the branch is always the same, no other ever initializes. -/
theorem others_idle [DecidableEq ι] {post : ι → Startup → Owned → Prop} {sole : ι}
    {pool next : Pool Cluster ι AgentOp AgentRes Startup} {label : ι × Choice}
    (kept : deployment.initDiscipline.Kept post pool) (allows : deployment.initDiscipline.AllowsStep pool label)
    (alone : deployment.TakesInit pool label → label.1 = sole)
    (idle : ∀ j, j ≠ sole → ¬ deployment.Initializes pool.shared j) (moved : pool.Steps Cluster.serve label next) :
    ∀ j, j ≠ sole → ¬ deployment.Initializes next.shared j := by
  intro j other busy
  by_cases own : j = label.1
  · obtain ⟨op, continue_, answer, shared, calling, served, rfl⟩ := Pool.steps_cases moved
    obtain same | called := status_of_serve served (deployment.address j)
    · exact idle j other (same.symm.trans busy)
    · subst own
      have busy : (shared.agents (deployment.address label.1)).status = .initializing := busy
      rw [busy] at called
      subst called
      exact other (alone ⟨continue_, calling⟩)
  · have same : deployment.own j next.shared = deployment.own j pool.shared := kept.frame allows moved own
    rw [Initializes, own_agent same] at busy
    exact idle j other busy

/-- Once there is an initializer and every initializer has finished, the registry mirrors the
membership. -/
def MirrorsWhenFinished (deployment : Deployment ι) (pool : Pool Cluster ι AgentOp AgentRes Startup) :
    Prop :=
  ∀ i, deployment.Initializes pool.shared i →
    (∀ j, deployment.Initializes pool.shared j → pool.threads j = .done .started) →
    deployment.Mirrors pool.shared.registry

/-- In every interleaving of peers that start on a fresh cluster, if one agent at most takes the branch of an
initializer then the registry mirrors the membership as soon as it has finished. -/
theorem registry_mirrors_membership [DecidableEq ι] (fuel : ι → ℕ) {cluster : Cluster}
    (fresh : deployment.Fresh cluster) (empty : cluster.registry = {})
    (peers : ∀ i, i ∈ deployment.peers) {labels : List (ι × Choice)} (sole : ι)
    (alone : AlwaysStep (Pool.Steps Cluster.serve) (deployment.startPool cluster fuel) labels
      fun pool label => deployment.TakesInit pool label → label.1 = sole) :
    Always (Pool.Steps Cluster.serve) (deployment.startPool cluster fuel) labels
      deployment.MirrorsWhenFinished := by
  let post (_ : ι) (startup : Startup) (after : Owned) : Prop :=
    startup = .started → after.agent.status = .initializing →
      HasSeated after (deployment.peers.map deployment.hostID)
  have pending (i : ι) : ¬ deployment.Initializes cluster i := by
    rw [Initializes, fresh i]
    decide
  have initial : deployment.initDiscipline.Kept post (deployment.startPool cluster fuel) := by
    refine ⟨⟨fresh.consistent, fun i _ busy => absurd busy (pending i), fun _ => empty⟩, fun i => ?_⟩
    exact startPrime_obeys (peers i) (fuel i) (pending i)
  have always : Always (Pool.Steps Cluster.serve) (deployment.startPool cluster fuel) labels fun pool =>
      deployment.initDiscipline.Kept post pool ∧ ∀ j, j ≠ sole → ¬ deployment.Initializes pool.shared j := by
    refine alone.always ⟨initial, fun j _ => pending j⟩ ?_
    intro front label back pool next split reached held alone moved
    obtain ⟨kept, idle⟩ := held
    have allows : deployment.initDiscipline.AllowsStep pool label := by
      rintro op continue_ calling rfl j other
      exact idle j (alone ⟨continue_, calling⟩ ▸ other)
    exact ⟨kept.step allows moved, others_idle kept allows alone idle moved⟩
  intro front back pool split reached i initializes finished
  have kept := (always front back pool split reached).1
  obtain ⟨registry, holds, seats⟩ := kept.finished (finished i initializes) rfl initializes
  obtain ⟨-, rfl⟩ := own_registry rfl holds
  exact mirrors_of_seats seats

/-- One agent's proposals, from this index on. -/
def initSteps (i : Fin 3) (index : ℕ) : List (Fin 3 × Choice) :=
  [(i, .applied index), (i, .order [0, 1, 2]), (i, .meta_ ""), (i, .applied (index + 1)),
    (i, .meta_ ""), (i, .applied (index + 2)), (i, .meta_ ""), (i, .applied (index + 3)),
    (i, .applied (index + 4)), (i, .applied (index + 5)), (i, .applied (index + 6))]

/-- The agent has finished without an error. -/
def hasStarted : AgentM Startup → Bool
  | .done .started => true
  | _ => false

theorem eq_started {thread : AgentM Startup} (started : hasStarted thread) :
    thread = .done .started := by
  unfold hasStarted at started
  split at started
  · rfl
  · contradiction

/-- One agent polls, takes its identifier and initializes. -/
def soleSteps : List (Fin 3 × Choice) :=
  hostSteps ++ List.replicate 11 (firstAgent, .serve) ++ initSteps firstAgent 1

/-- Only the first agent initializes. -/
def initializesFirst (pool : Pool Cluster (Fin 3) AgentOp AgentRes Startup) (label : Fin 3 × Choice) : Bool :=
  match pool.threads label.1 with
  | .call (.setStatus _ .initializing) _ => label.1 = firstAgent
  | _ => true

theorem initializesFirst_sound (pool : Pool Cluster (Fin 3) AgentOp AgentRes Startup)
    (label : Fin 3 × Choice) (first : initializesFirst pool label) (takes : three.TakesInit pool label) :
    label.1 = 0 := by
  obtain ⟨continue_, calling⟩ := takes
  rw [initializesFirst, calling] at first
  exact of_decide_eq_true first

/-- The registry of a sole initializer. -/
theorem sole_initializer_mirrors :
    ∃ last, Path (Pool.Steps Cluster.serve) (three.startPool ⟨{}, fun _ => {}⟩ fun _ => 1)
        soleSteps last ∧
      last.threads 0 = .done .started ∧ three.Initializes last.shared 0 ∧
      three.Mirrors last.shared.registry := by
  have checked : checks (Pool.step Cluster.serve) initializesFirst (three.startPool ⟨{}, fun _ => {}⟩ fun _ => 1)
      soleSteps := by
    decide +kernel
  obtain ⟨last, ran, started, initializes, second, third⟩ :
      ∃ last ∈ (three.startPool ⟨{}, fun _ => {}⟩ fun _ => 1).run Cluster.serve soleSteps,
        hasStarted (last.threads 0) ∧ (three.agent last.shared 0).status = .initializing ∧
        (three.agent last.shared 1).status = .pending ∧ (three.agent last.shared 2).status = .pending := by
    decide +kernel
  have path := Pool.path_iff_run.mpr ran
  have mirrors := (registry_mirrors_membership (fun _ => 1) (fun _ => rfl) rfl (by decide) 0
    (.of_checks initializesFirst_sound checked)).last path
  refine ⟨last, path, eq_started started, initializes, mirrors 0 initializes fun j busy => ?_⟩
  match j with
  | 0 => exact eq_started started
  | 1 => cases second.symm.trans busy
  | 2 => cases third.symm.trans busy

/-- Two agents poll before either takes its identifier, and both initialize. -/
def rivalSteps : List (Fin 3 × Choice) :=
  hostSteps ++ List.replicate 5 (firstAgent, .serve) ++ List.replicate 5 (secondAgent, .serve) ++
    List.replicate 6 (firstAgent, .serve) ++ initSteps firstAgent 1 ++
    List.replicate 6 (secondAgent, .serve) ++ initSteps secondAgent 8

/-- Both initializers finish, and the registry has a fourth replica of the prime shard. -/
theorem rival_initializers_post_twice :
    ∃ last replica, Path (Pool.Steps Cluster.serve) (three.startPool ⟨{}, fun _ => {}⟩ fun _ => 1)
        rivalSteps last ∧
      last.threads 0 = .done .started ∧ last.threads 1 = .done .started ∧
      last.shared.registry.replica 4 = some replica ∧ replica.shardID = ShardID ∧
      ¬ three.MirrorsWhenFinished last := by
  obtain ⟨last, ran, first, second, initializes, third, replica, stored, prime⟩ :
      ∃ last ∈ (three.startPool ⟨{}, fun _ => {}⟩ fun _ => 1).run Cluster.serve rivalSteps,
        hasStarted (last.threads 0) ∧ hasStarted (last.threads 1) ∧
        (three.agent last.shared 0).status = .initializing ∧ (three.agent last.shared 2).status = .pending ∧
        ∃ replica ∈ last.shared.registry.replica 4, replica.shardID = ShardID := by
    decide +kernel
  refine ⟨last, replica, Pool.path_iff_run.mpr ran, eq_started first, eq_started second, stored, prime,
    fun mirrors => ?_⟩
  have mirrored := mirrors 0 initializes fun j busy =>
    match j with
    | 0 => eq_started first
    | 1 => eq_started second
    | 2 => by cases third.symm.trans busy
  have member := (mirrored.records 4 replica.hostID).mp ⟨replica, stored, prime, rfl⟩
  cases member

end Registry

end Deployment

end Zongzi
