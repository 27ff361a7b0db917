import Zongzi.Machine.Discipline
import Zongzi.Model.Bootstrap
import Zongzi.Spec.Deployment
import Zongzi.Proofs.Cluster

/-! # Agents agree on the membership

Each agent owns its own fields, and the registry while it initializes the prime shard. What the others
may read of it is consistent with the membership: its replica identifier is zero or its number, and
every entry of its members is a member. So whatever a poll observes, and whenever it observes it, the
maps an agent builds stay within the membership, and each way out of the loop returns one with as many
entries as there are peers.
-/

namespace Zongzi

open Std Machine

/-- What an agent owns. -/
structure Owned where
  agent : Agent
  registry : Option State

/-- Neither the status nor the registry has changed. -/
def Owned.SameRole (owned after : Owned) : Prop :=
  after.agent.status = owned.agent.status ∧ after.registry = owned.registry

/-- The agent initializes, and this is the registry. -/
def Owned.Holds (owned : Owned) (registry : State) : Prop :=
  owned.agent.status = .initializing ∧ owned.registry = some registry

theorem Owned.SameRole.trans {first second third : Owned} (left : first.SameRole second)
    (right : second.SameRole third) : first.SameRole third :=
  ⟨right.1.trans left.1, right.2.trans left.2⟩

namespace Deployment

variable {ι : Type} (deployment : Deployment ι)

/-- The fields of agent `i`, as far as other agents rely on them. -/
structure Consistent (i : ι) (agent : Agent) : Prop where
  hostID : agent.hostID = "" ∨ agent.hostID = deployment.hostID i
  replicaID : agent.replicaID = 0 ∨ deployment.Numbers agent.replicaID i
  members : deployment.Within agent.members

def agent (cluster : Cluster) (i : ι) : Agent := cluster.agents (deployment.address i)

def own (i : ι) (cluster : Cluster) : Owned where
  agent := deployment.agent cluster i
  registry := if (deployment.agent cluster i).status = .initializing then some cluster.registry else none

/-- All agents are consistent, and something else holds of the registry and the statuses. -/
def discipline (extra : Cluster → Prop) (allowed : ι → Cluster → AgentOp → Prop) :
    Discipline Cluster ι AgentOp AgentRes Choice Owned where
  serve := Cluster.serve
  good cluster := (∀ i, deployment.Consistent i (deployment.agent cluster i)) ∧ extra cluster
  own := deployment.own
  allowed := allowed

/-- A property of the registry and the statuses does not depend on other fields of an agent. -/
def Frames (extra : Cluster → Prop) : Prop :=
  ∀ cluster i change, (∀ agent, (change agent).status = agent.status) → extra cluster →
    extra (cluster.setAgent (deployment.address i) change)

variable {deployment} {extra : Cluster → Prop} {allowed : ι → Cluster → AgentOp → Prop} {i : ι}
  {owned : Owned} {α : Type} {post : α → Owned → Prop}

section Calls

theorem agent_setAgent_self (cluster : Cluster) (i : ι) (change : Agent → Agent) :
    deployment.agent (cluster.setAgent (deployment.address i) change) i =
      change (deployment.agent cluster i) :=
  Function.update_self ..

theorem agent_setAgent_of_ne (cluster : Cluster) {j : ι} (other : j ≠ i) (change : Agent → Agent) :
    deployment.agent (cluster.setAgent (deployment.address i) change) j = deployment.agent cluster j :=
  Function.update_of_ne (fun same => other (deployment.address_injective same)) ..

theorem own_agent {cluster : Cluster} (owns : deployment.own i cluster = owned) :
    deployment.agent cluster i = owned.agent :=
  owns ▸ rfl

theorem obeys_reads {op : AgentOp} {next : AgentRes op → AgentM α} (reads : op.reads)
    (rest : ∀ cluster choice answer,
      (∀ j, deployment.Consistent j (deployment.agent cluster j)) → deployment.own i cluster = owned →
      Cluster.serve cluster op choice = some (answer, cluster) →
      (deployment.discipline extra allowed).Obeys i (next answer) owned post) :
    (deployment.discipline extra allowed).Obeys i (.call op next) owned post := by
  intro cluster choice answer after good owns _ served
  obtain rfl := Cluster.unchanged_of_reads reads served
  refine ⟨good, fun _ _ => rfl, ?_⟩
  have obeys := rest after choice answer good.1 owns served
  rw [← owns] at obeys
  exact obeys

theorem consistent_setAgent {cluster : Cluster} {change : Agent → Agent}
    (consistent : ∀ j, deployment.Consistent j (deployment.agent cluster j))
    (changed : deployment.Consistent i (change (deployment.agent cluster i))) (j : ι) :
    deployment.Consistent j
      (deployment.agent (cluster.setAgent (deployment.address i) change) j) := by
  by_cases same : j = i
  · subst same
    rw [agent_setAgent_self]
    exact changed
  · rw [agent_setAgent_of_ne cluster same]
    exact consistent j

theorem own_setAgent_of_ne (cluster : Cluster) {j : ι} (other : j ≠ i) (change : Agent → Agent) :
    deployment.own j (cluster.setAgent (deployment.address i) change) = deployment.own j cluster := by
  simp only [own, agent_setAgent_of_ne cluster other]
  rfl

/-- A call on the agent's own fields other than its status. -/
theorem obeys_set {op : AgentOp} {next : AgentRes op → AgentM α} (change : Agent → Agent)
    (frames : deployment.Frames extra) (status : ∀ agent, (change agent).status = agent.status)
    (served : ∀ cluster choice answer after, Cluster.serve cluster op choice = some (answer, after) →
      after = cluster.setAgent (deployment.address i) change)
    (consistent : deployment.Consistent i owned.agent → deployment.Consistent i (change owned.agent))
    (rest : ∀ answer, deployment.Consistent i (change owned.agent) →
      (deployment.discipline extra allowed).Obeys i (next answer)
        ⟨change owned.agent, owned.registry⟩ post) :
    (deployment.discipline extra allowed).Obeys i (.call op next) owned post := by
  intro cluster choice answer after good owns _ serves
  obtain rfl := served cluster choice answer after serves
  have changed : deployment.agent (cluster.setAgent (deployment.address i) change) i =
      change owned.agent := by
    rw [agent_setAgent_self, own_agent owns]
  have kept := consistent (own_agent owns ▸ good.1 i)
  refine ⟨⟨?_, frames cluster i change status good.2⟩, fun j other => ?_, ?_⟩
  · exact consistent_setAgent good.1 (by rw [own_agent owns]; exact kept)
  · exact own_setAgent_of_ne cluster other change
  · have obeys := rest answer kept
    have same : deployment.own i (cluster.setAgent (deployment.address i) change) =
        ⟨change owned.agent, owned.registry⟩ := by
      rw [← owns]
      simp only [own, changed, status]
      rw [← own_agent owns]
      rfl
    change (deployment.discipline extra allowed).Obeys i (next answer)
      (deployment.own i (cluster.setAgent (deployment.address i) change)) post
    rw [same]
    exact obeys

theorem hostID_obeys :
    (deployment.discipline extra allowed).Obeys i (Program.perform (.hostID (deployment.address i)))
      owned fun answer after => after = owned ∧ answer = owned.agent.hostID ∧
        deployment.Consistent i owned.agent := by
  refine obeys_reads rfl fun cluster choice answer consistent owns served => ?_
  cases choice <;> cases served
  rw [← own_agent owns]
  exact ⟨rfl, rfl, consistent i⟩

theorem replicaID_obeys :
    (deployment.discipline extra allowed).Obeys i (Program.perform (.replicaID (deployment.address i)))
      owned fun answer after => after = owned ∧ answer = owned.agent.replicaID ∧
        deployment.Consistent i owned.agent := by
  refine obeys_reads rfl fun cluster choice answer consistent owns served => ?_
  cases choice <;> cases served
  rw [← own_agent owns]
  exact ⟨rfl, rfl, consistent i⟩

theorem info_obeys (p : ι) :
    (deployment.discipline extra allowed).Obeys i (Program.perform (.info (deployment.address p)))
      owned fun (answer : Except String (String × ℕ)) after => after = owned ∧ ∀ info, answer = .ok info →
        ∃ agent, deployment.Consistent p agent ∧ (p = i → agent = owned.agent) ∧
          info = (agent.hostID, agent.replicaID) := by
  refine obeys_reads rfl fun cluster choice answer consistent owns served => ⟨rfl, ?_⟩
  rintro info rfl
  cases choice <;> cases served
  exact ⟨deployment.agent cluster p, consistent p, fun same => same ▸ own_agent owns, rfl⟩

theorem members_obeys (p : ι) :
    (deployment.discipline extra allowed).Obeys i (Program.perform (.members (deployment.address p)))
      owned fun (answer : Except String (ExtTreeMap ℕ String)) after => after = owned ∧
        ∀ members, answer = .ok members → deployment.Within members := by
  refine obeys_reads rfl fun cluster choice answer consistent _ served => ⟨rfl, ?_⟩
  rintro members rfl
  cases choice <;> cases served
  exact (consistent p).members

theorem rangeMap_obeys {κ β : Type} [Ord κ] [TransOrd κ] [LawfulEqOrd κ] (entries : ExtTreeMap κ β) :
    (deployment.discipline extra allowed).Obeys i (rangeMap entries) owned fun listed after =>
      after = owned ∧ ∀ key value, (key, value) ∈ listed ↔ entries[key]? = some value := by
  refine obeys_reads rfl fun cluster choice order _ _ _ => ⟨rfl, fun key value => ?_⟩
  rw [Program.mem_visited ExtTreeMap.length_toList, ExtTreeMap.mem_toList_iff_getElem?_eq_some]

theorem setReplicaID_obeys (frames : deployment.Frames extra) {id : ℕ}
    (numbers : id = 0 ∨ deployment.Numbers id i) :
    (deployment.discipline extra allowed).Obeys i
      (Program.perform (.setReplicaID (deployment.address i) id)) owned
      fun _ after => owned.SameRole after := by
  refine obeys_set (fun agent => { agent with replicaID := id }) frames (fun _ => rfl) ?_
    (fun consistent => ⟨consistent.hostID, numbers, consistent.members⟩) fun _ _ => ⟨rfl, rfl⟩
  intro cluster choice answer after served
  cases choice <;> cases served
  rfl

theorem startHost_obeys (frames : deployment.Frames extra) :
    (deployment.discipline extra allowed).Obeys i
      (Program.perform (.startHost (deployment.address i) (deployment.hostID i))) owned
      fun _ after => owned.SameRole after := by
  refine obeys_set (fun agent => { agent with hostID := deployment.hostID i }) frames (fun _ => rfl) ?_
    (fun consistent => ⟨.inr rfl, consistent.replicaID, consistent.members⟩) fun _ _ => ⟨rfl, rfl⟩
  intro cluster choice answer after served
  cases choice <;> cases served
  rfl

theorem setMembers_obeys (frames : deployment.Frames extra) {members : ExtTreeMap ℕ String}
    (within : deployment.Within members) :
    (deployment.discipline extra allowed).Obeys i
      (Program.perform (.setMembers (deployment.address i) members)) owned
      fun _ after => owned.SameRole after ∧ after.agent.replicaID = owned.agent.replicaID := by
  refine obeys_set (fun agent => { agent with members }) frames (fun _ => rfl) ?_
    (fun consistent => ⟨consistent.hostID, consistent.replicaID, within⟩)
    fun _ _ => ⟨⟨rfl, rfl⟩, rfl⟩
  intro cluster choice answer after served
  cases choice <;> cases served
  rfl

end Calls

section Poll

/-- What a poll has found is within the membership, and it has found the agent's own identifier if it
has found any for it. -/
structure Polled (deployment : Deployment ι) (i : ι) (owned : Owned) (poll : Poll) : Prop where
  members : deployment.Within poll.members
  self : ∀ id ∈ poll.members, deployment.Numbers id i → owned.agent.replicaID = id
  uninitialized : ∀ apiAddr host, poll.uninitialized[apiAddr]? = some host →
    ∃ p ∈ deployment.peers, apiAddr = deployment.address p ∧ host = deployment.hostID p

theorem polled_empty : deployment.Polled i owned {} where
  members := within_empty
  self := by simp
  uninitialized := by simp

theorem Polled.add {poll : Poll} {p : ι} {agent : Agent} (polled : deployment.Polled i owned poll)
    (peer : p ∈ deployment.peers) (consistent : deployment.Consistent p agent)
    (self : p = i → agent = owned.agent) :
    deployment.Polled i owned (poll.add (deployment.address p) agent.hostID agent.replicaID) := by
  unfold Poll.add
  split
  · exact polled
  next nonempty =>
  have host := consistent.hostID.resolve_left nonempty
  split
  · refine ⟨polled.members, polled.self, fun apiAddr stored present => ?_⟩
    rw [ExtTreeMap.getElem?_insert] at present
    split at present
    · next same =>
      cases present
      exact ⟨p, peer, (LawfulEqCmp.compare_eq_iff_eq.mp same).symm, host⟩
    · exact polled.uninitialized apiAddr stored present
  · next initialized =>
    have numbers := consistent.replicaID.resolve_left initialized
    refine ⟨polled.members.insert (host ▸ numbers.membership), fun id present own => ?_,
      polled.uninitialized⟩
    rw [ExtTreeMap.mem_insert] at present
    obtain same | stored := present
    · obtain rfl := LawfulEqCmp.compare_eq_iff_eq.mp same
      rw [self (numbers.unique own)]
    · exact polled.self id stored own

/-- As many uninitialized peers as there are peers are all of them. -/
theorem Polled.all_uninitialized {poll : Poll} {p : ι} (polled : deployment.Polled i owned poll)
    (size : poll.uninitialized.size = deployment.peers.length) (peer : p ∈ deployment.peers) :
    poll.uninitialized[deployment.address p]? = some (deployment.hostID p) := by
  have among : ∀ apiAddr ∈ poll.uninitialized, apiAddr ∈ deployment.addresses := by
    intro apiAddr present
    obtain ⟨host, stored⟩ := exists_of_mem present
    obtain ⟨q, peer, rfl, -⟩ := polled.uninitialized apiAddr host stored
    exact List.mem_map_of_mem peer
  have present := mem_of_length_le_size among (by simp [addresses, size]) (List.mem_map_of_mem peer)
  obtain ⟨host, stored⟩ := exists_of_mem present
  obtain ⟨q, -, same, rfl⟩ := polled.uninitialized _ host stored
  rw [stored, deployment.address_injective same]

theorem peerInfo_obeys (p : ι) :
    (deployment.discipline extra allowed).Obeys i
      (peerInfo (deployment.address i) (deployment.address p)) owned
      fun answer after => after = owned ∧ ∀ info, answer = .ok info →
        ∃ agent, deployment.Consistent p agent ∧ (p = i → agent = owned.agent) ∧
          info = (agent.hostID, agent.replicaID) := by
  unfold peerInfo
  split
  · next same =>
    obtain rfl := deployment.address_injective same
    refine hostID_obeys.bind ?_
    rintro hostID _ ⟨rfl, rfl, consistent⟩
    split
    · refine replicaID_obeys.bind ?_
      rintro replicaID _ ⟨rfl, rfl, -⟩
      refine hostID_obeys.bind ?_
      rintro hostID _ ⟨rfl, rfl, -⟩
      refine ⟨rfl, ?_⟩
      rintro info ⟨⟩
      exact ⟨_, consistent, fun _ => rfl, rfl⟩
    · exact info_obeys p
  · exact info_obeys p

theorem pollPeers_obeys {peers : List ι} (subset : peers ⊆ deployment.peers) {poll : Poll}
    (polled : deployment.Polled i owned poll) :
    (deployment.discipline extra allowed).Obeys i
      (pollPeers (deployment.address i) (peers.map deployment.address) poll) owned
      fun answer after => after = owned ∧ deployment.Polled i owned answer.1 := by
  induction peers generalizing poll with
  | nil => exact ⟨rfl, polled⟩
  | cons p peers ih =>
    obtain ⟨peer, subset⟩ := List.cons_subset.mp subset
    refine (peerInfo_obeys p).bind ?_
    rintro answer _ ⟨rfl, informed⟩
    cases answer with
    | error err => exact ⟨rfl, polled⟩
    | ok info =>
      obtain ⟨agent, consistent, self, rfl⟩ := informed info rfl
      exact ih subset (polled.add peer consistent self)

end Poll

section Resolve

/-- What numbering from a position on has made of the members. -/
structure Assigned (deployment : Deployment ι) (position : ℕ) (members assigned : ExtTreeMap ℕ String) :
    Prop where
  within : deployment.Within assigned
  kept : ∀ (id : ℕ) (host : String), members[id]? = some host → assigned[id]? = some host
  added : ∀ (id : ℕ) (host : String), position < id → deployment.membership id = some host →
    assigned[id]? = some host

theorem Assigned.of_insert {position : ℕ} {members assigned : ExtTreeMap ℕ String} {p : ι}
    (within : deployment.Within members) (numbers : deployment.Numbers (position + 1) p)
    (rest : deployment.Assigned (position + 1)
      (members.insert (position + 1) (deployment.hostID p)) assigned) :
    deployment.Assigned position members assigned := by
  refine ⟨rest.within, fun id host present => rest.kept id host ?_, fun id host later member => ?_⟩
  · rw [ExtTreeMap.getElem?_insert]
    split
    · next same =>
      obtain rfl := LawfulEqCmp.compare_eq_iff_eq.mp same
      rw [← numbers.membership, within _ host present]
    · exact present
  · obtain rfl | further := Nat.eq_or_lt_of_le later
    · refine rest.kept _ host ?_
      rw [ExtTreeMap.getElem?_insert_self, ← member]
      exact numbers.membership.symm
    · exact rest.added id host further member

theorem assignReplicaIDs_obeys (frames : deployment.Frames extra)
    {uninitialized : ExtTreeMap String String}
    (all : ∀ p ∈ deployment.peers,
      uninitialized[deployment.address p]? = some (deployment.hostID p))
    {position : ℕ} {peers : List ι} (remaining : deployment.peers.drop position = peers)
    {members : ExtTreeMap ℕ String} (within : deployment.Within members) :
    (deployment.discipline extra allowed).Obeys i
      (assignReplicaIDs (deployment.address i) uninitialized (peers.map deployment.address)
        position members) owned
      fun assigned after => owned.SameRole after ∧ deployment.Assigned position members assigned := by
  induction peers generalizing position members owned with
  | nil =>
    refine ⟨⟨rfl, rfl⟩, within, fun _ _ present => present, fun id host later member => ?_⟩
    obtain ⟨p, ⟨last, rfl, found⟩, -⟩ := membership_eq_some_iff.mp member
    have bound := (List.getElem?_eq_some_iff.mp found).1
    have done := List.drop_eq_nil_iff.mp remaining
    omega
  | cons p peers ih =>
    have found : deployment.peers[position]? = some p := by
      rw [← List.head?_drop, remaining, List.head?_cons]
    have numbers : deployment.Numbers (position + 1) p := ⟨position, rfl, found⟩
    have remaining : deployment.peers.drop (position + 1) = peers := by
      rw [← List.tail_drop, remaining, List.tail_cons]
    have rest (owned : Owned) := @ih owned _ remaining _ (within.insert numbers.membership)
    simp only [List.map_cons, assignReplicaIDs, all p numbers.mem, Option.getD_some]
    split
    · next same =>
      obtain rfl := deployment.address_injective same
      refine (setReplicaID_obeys frames (.inr numbers)).bind fun _ after role => ?_
      exact (rest after).mono fun assigned last ⟨more, done⟩ =>
        ⟨role.trans more, .of_insert within numbers done⟩
    · exact (rest owned).mono fun assigned last ⟨role, done⟩ =>
        ⟨role, .of_insert within numbers done⟩

theorem adoptMembers_obeys (frames : deployment.Frames extra) {answered : List (ℕ × String)}
    (listed : ∀ id host, (id, host) ∈ answered → deployment.membership id = some host)
    {members : ExtTreeMap ℕ String} (within : deployment.Within members) :
    (deployment.discipline extra allowed).Obeys i
      (adoptMembers (deployment.address i) answered members) owned
      fun adopted after => owned.SameRole after ∧ deployment.Within adopted := by
  induction answered generalizing members with
  | nil => exact ⟨⟨rfl, rfl⟩, within⟩
  | cons entry answered ih =>
    obtain ⟨id, host⟩ := entry
    have member := listed id host List.mem_cons_self
    refine hostID_obeys.bind ?_
    rintro hostID _ ⟨rfl, rfl, consistent⟩
    split
    · next same =>
      obtain ⟨p, numbers, rfl⟩ := membership_eq_some_iff.mp member
      have running := consistent.hostID.resolve_left (same ▸ deployment.hostID_ne_empty p)
      obtain rfl := deployment.hostID_injective (same.trans running)
      exact (setReplicaID_obeys frames (.inr numbers)).bind fun _ after role =>
        ⟨role, within.insert member⟩
    · exact ih (fun id host later => listed id host (List.mem_cons_of_mem _ later))
        (within.insert member)

theorem queryMembers_obeys (frames : deployment.Frames extra)
    {uninitialized : ExtTreeMap String String} {peers : List ι}
    {members : ExtTreeMap ℕ String} (within : deployment.Within members) :
    (deployment.discipline extra allowed).Obeys i
      (queryMembers (deployment.address i) uninitialized (peers.map deployment.address) members) owned
      fun queried after => owned.SameRole after ∧ deployment.Within queried.1 := by
  induction peers with
  | nil => exact ⟨⟨rfl, rfl⟩, within⟩
  | cons p peers ih =>
    simp only [List.map_cons, queryMembers]
    split
    · exact ih
    · split
      · exact ih
      · refine (members_obeys p).bind ?_
        rintro answer _ ⟨rfl, informed⟩
        cases answer with
        | error err => exact ⟨⟨rfl, rfl⟩, within⟩
        | ok answered =>
          refine (rangeMap_obeys answered).bind ?_
          rintro listed _ ⟨rfl, lists⟩
          refine (adoptMembers_obeys frames (fun id host entry => ?_) within).bind
            fun _ _ adopted => adopted
          exact informed answered rfl id host ((lists id host).mp entry)

/-- What an agent returns: members within the membership, all of them if there is no error, and then
it is a peer only if it has its identifier. -/
structure Resolves (deployment : Deployment ι) (i : ι) (resolution : Resolution) (after : Owned) :
    Prop where
  within : deployment.Within resolution.members
  full : resolution.err = none → ∀ id : ℕ, resolution.members[id]? = deployment.membership id
  self : resolution.err = none → i ∈ deployment.peers → 0 < after.agent.replicaID

theorem resolveInitialized_obeys (frames : deployment.Frames extra)
    {uninitialized : ExtTreeMap String String} {members : ExtTreeMap ℕ String}
    (within : deployment.Within members) :
    (deployment.discipline extra allowed).Obeys i
      (resolveInitialized deployment.addresses (deployment.address i) uninitialized members) owned
      fun answer after => owned.SameRole after ∧
        ∀ resolution, answer = some resolution → deployment.Resolves i resolution after := by
  unfold resolveInitialized
  split
  · refine (queryMembers_obeys frames within).bind ?_
    rintro ⟨members, err⟩ after ⟨role, within⟩
    cases err with
    | some err =>
      refine ⟨role, ?_⟩
      rintro resolution ⟨⟩
      exact ⟨within, nofun, nofun⟩
    | none =>
      refine replicaID_obeys.bind ?_
      rintro replicaID _ ⟨rfl, rfl, -⟩
      split
      · next complete =>
        refine ⟨role, ?_⟩
        rintro resolution ⟨⟩
        have size := complete.2
        rw [addresses, List.length_map] at size
        exact ⟨within, fun _ => within.full size, fun _ _ => complete.1⟩
      · exact ⟨role, nofun⟩
  · exact ⟨⟨rfl, rfl⟩, nofun⟩

theorem resolveUninitialized_obeys (frames : deployment.Frames extra) {poll : Poll}
    (polled : deployment.Polled i owned poll)
    (size : poll.uninitialized.size = deployment.addresses.length) :
    (deployment.discipline extra allowed).Obeys i
      (resolveUninitialized deployment.addresses (deployment.address i) poll) owned
      fun answer after => owned.SameRole after ∧
        ∀ resolution, answer = some resolution → deployment.Resolves i resolution after := by
  rw [addresses, List.length_map] at size
  refine (assignReplicaIDs_obeys frames (fun p => polled.all_uninitialized size)
    List.drop_zero polled.members).bind ?_
  rintro members after ⟨role, assigned⟩
  refine replicaID_obeys.bind ?_
  rintro replicaID _ ⟨rfl, rfl, -⟩
  split
  · next numbered =>
    refine ⟨role, ?_⟩
    rintro resolution ⟨⟩
    refine ⟨assigned.within, fun _ id => ?_, fun _ _ => numbered⟩
    ext host
    refine ⟨assigned.within id host, fun member => assigned.added id host ?_ member⟩
    obtain ⟨p, numbers, -⟩ := membership_eq_some_iff.mp member
    exact numbers.pos
  · exact (resolveInitialized_obeys frames assigned.within).mono
      fun answer last ⟨more, resolves⟩ => ⟨role.trans more, resolves⟩

theorem resolvePass_obeys (frames : deployment.Frames extra) :
    (deployment.discipline extra allowed).Obeys i
      (resolvePass deployment.addresses (deployment.address i)) owned
      fun answer after => owned.SameRole after ∧
        ∀ resolution, answer = some resolution → deployment.Resolves i resolution after := by
  refine (pollPeers_obeys (List.Subset.refl _) polled_empty).bind ?_
  rintro ⟨poll, err⟩ _ ⟨rfl, polled⟩
  cases err with
  | some err =>
    refine ⟨⟨rfl, rfl⟩, ?_⟩
    rintro resolution ⟨⟩
    exact ⟨polled.members, nofun, nofun⟩
  | none =>
    dsimp only
    split
    · next size =>
      rw [addresses, List.length_map] at size
      have full := polled.members.full size
      refine ⟨⟨rfl, rfl⟩, ?_⟩
      rintro resolution ⟨⟩
      refine ⟨polled.members, fun _ => full, fun _ peer => ?_⟩
      obtain ⟨id, numbers⟩ := numbers_of_mem peer
      have present : id ∈ poll.members := by
        rw [← ExtTreeMap.isSome_getElem?_iff_mem, full, numbers.membership]
        rfl
      rw [polled.self id present numbers]
      exact numbers.pos
    · split
      · next size => exact resolveUninitialized_obeys frames polled size
      · exact resolveInitialized_obeys frames polled.members

/-- Whatever the other agents do meanwhile, the loop returns the membership or an error. -/
theorem resolvePrimeMembership_obeys (frames : deployment.Frames extra) (fuel : ℕ) :
    (deployment.discipline extra allowed).Obeys i
      (resolvePrimeMembership deployment.addresses (deployment.address i) fuel) owned
      fun answer after => owned.SameRole after ∧
        ∀ resolution, answer = some resolution → deployment.Resolves i resolution after := by
  induction fuel generalizing owned with
  | zero => exact ⟨⟨rfl, rfl⟩, nofun⟩
  | succ fuel ih =>
    refine (resolvePass_obeys frames).bind ?_
    rintro answer after ⟨role, resolves⟩
    cases answer with
    | some resolution => exact ⟨role, resolves⟩
    | none => exact ih.mono fun answer last ⟨more, resolves⟩ => ⟨role.trans more, resolves⟩

/-- The same with the steps around the loop, on a host without a replica. -/
theorem primeMembership_obeys (frames : deployment.Frames extra) (fuel : ℕ) :
    (deployment.discipline extra allowed).Obeys i
      (primeMembership deployment.addresses (deployment.address i) (deployment.hostID i) 0 fuel) owned
      fun answer after => owned.SameRole after ∧
        ∀ resolution, answer = some resolution → deployment.Resolves i resolution after := by
  refine (startHost_obeys frames).bind fun _ _ started => ?_
  refine (setReplicaID_obeys frames (.inl rfl)).bind fun _ _ reset => ?_
  refine (resolvePrimeMembership_obeys frames fuel).bind ?_
  rintro answer after ⟨role, resolves⟩
  cases answer with
  | none => exact ⟨(started.trans reset).trans role, nofun⟩
  | some resolution =>
    have resolved := resolves resolution rfl
    refine (setMembers_obeys frames resolved.within).bind ?_
    rintro _ last ⟨more, same⟩
    refine ⟨((started.trans reset).trans role).trans more, ?_⟩
    rintro _ ⟨⟩
    exact ⟨resolved.within, resolved.full, fun fine peer => same ▸ resolved.self fine peer⟩

end Resolve

section Agreement

/-- No agent has started. -/
def Fresh (deployment : Deployment ι) (cluster : Cluster) : Prop := ∀ i, deployment.agent cluster i = {}

theorem Fresh.consistent {cluster : Cluster} (fresh : deployment.Fresh cluster) (i : ι) :
    deployment.Consistent i (deployment.agent cluster i) := by
  rw [fresh i]
  exact ⟨.inl rfl, .inl rfl, within_empty⟩

/-- Agents that resolve the membership. -/
def resolvePool (deployment : Deployment ι) (cluster : Cluster) (fuel : ι → ℕ) :
    Pool Cluster ι AgentOp AgentRes (Option Resolution) where
  shared := cluster
  threads i :=
    primeMembership deployment.addresses (deployment.address i) (deployment.hostID i) 0 (fuel i)

/-- In every interleaving of the agents of a fresh cluster, the replica identifier of a peer is zero or
its position counted from one, and every agent that returns without an error returns the membership. -/
theorem membership_agreement [DecidableEq ι] (fuel : ι → ℕ) {cluster : Cluster}
    (fresh : deployment.Fresh cluster) {labels : List (ι × Choice)}
    {last : Pool Cluster ι AgentOp AgentRes (Option Resolution)}
    (path : Path (Pool.Steps Cluster.serve) (deployment.resolvePool cluster fuel) labels last) :
    (∀ position p, deployment.peers[position]? = some p →
      (deployment.agent last.shared p).replicaID = 0 ∨
        (deployment.agent last.shared p).replicaID = position + 1) ∧
    ∀ i resolution, last.threads i = .done (some resolution) → resolution.err = none →
      ∀ id : ℕ, resolution.members[id]? = deployment.membership id := by
  let discipline := deployment.discipline (fun _ => True) fun _ _ _ => True
  let post (i : ι) (answer : Option Resolution) (after : Owned) : Prop :=
    ∀ resolution, answer = some resolution → deployment.Resolves i resolution after
  have initial : discipline.Kept post (deployment.resolvePool cluster fuel) := by
    refine ⟨⟨fresh.consistent, trivial⟩, fun i => ?_⟩
    exact (primeMembership_obeys (fun _ _ _ _ _ => trivial) (fuel i)).mono fun _ _ done => done.2
  have kept : discipline.Kept post last :=
    (Discipline.always_kept initial fun _ _ _ _ _ _ _ _ _ => trivial).last path
  constructor
  · intro position p found
    exact (kept.good.1 p).replicaID.imp_right fun numbers => numbers.position found
  · intro i resolution finished fine
    exact (kept.finished finished resolution rfl).full fine

/-- Three agents that are each other's peers. -/
def three : Deployment (Fin 3) where
  peers := [0, 1, 2]
  address := ![ "a", "b", "c"]
  hostID := ![ "10000000-0000-4000-8000-000000000000", "20000000-0000-4000-8000-000000000000",
    "30000000-0000-4000-8000-000000000000"]
  peers_nodup := by decide
  peers_length := by decide
  address_injective := by decide
  hostID_injective := by decide
  hostID_ne_empty := by decide

abbrev firstAgent : Fin 3 := 0

abbrev secondAgent : Fin 3 := 1

/-- The hosts of all agents run. -/
def hostSteps : List (Fin 3 × Choice) :=
  List.replicate 2 (firstAgent, .serve) ++ List.replicate 2 (secondAgent, .serve) ++ List.replicate 2 (2, .serve)

/-- The first agent finds nobody initialized. The second one asks it for the members and comes to its own host first, so
that it knows two of them and has to poll again. The third one asks for the members and knows them all. The second one
then finds everybody initialized. -/
def exitSteps : List (Fin 3 × Choice) :=
  hostSteps ++ List.replicate 8 (0, .serve) ++
    List.replicate 6 (1, .serve) ++ [(1, .order [1, 0, 2])] ++ List.replicate 3 (1, .serve) ++
    List.replicate 6 (2, .serve) ++ [(2, .order [2, 0, 1])] ++ List.replicate 4 (2, .serve) ++
    List.replicate 6 (1, .serve)

/-- The agent has resolved the members without an error. -/
def hasResolved (init : Bool) : AgentM (Option Resolution) → Bool
  | .done (some resolution) => resolution.err = none && resolution.init = init
  | _ => false

theorem eq_resolved {init : Bool} {thread : AgentM (Option Resolution)} (resolved : hasResolved init thread) :
    ∃ members, thread = .done (some ⟨members, init, none⟩) := by
  unfold hasResolved at resolved
  split at resolved
  · next resolution =>
    obtain ⟨members, _, _⟩ := resolution
    simp only [Bool.and_eq_true, decide_eq_true_eq] at resolved
    obtain ⟨rfl, rfl⟩ := resolved
    exact ⟨members, rfl⟩
  · contradiction

/-- The agents leave their loops at its three exits, with one membership. -/
theorem exits_agree :
    ∃ last first second third,
      Path (Pool.Steps Cluster.serve) (three.resolvePool ⟨{}, fun _ => {}⟩ fun _ => 2) exitSteps last ∧
      last.threads 0 = .done (some ⟨first, true, none⟩) ∧ last.threads 1 = .done (some ⟨second, false, none⟩) ∧
      last.threads 2 = .done (some ⟨third, false, none⟩) ∧
      ∀ id : ℕ, first[id]? = three.membership id ∧ second[id]? = three.membership id ∧
        third[id]? = three.membership id := by
  obtain ⟨last, ran, one, two, three⟩ :
      ∃ last ∈ (three.resolvePool ⟨{}, fun _ => {}⟩ fun _ => 2).run Cluster.serve exitSteps,
        hasResolved true (last.threads 0) ∧ hasResolved false (last.threads 1) ∧
        hasResolved false (last.threads 2) := by
    decide +kernel
  obtain ⟨first, resolved⟩ := eq_resolved one
  obtain ⟨second, asked⟩ := eq_resolved two
  obtain ⟨third, found⟩ := eq_resolved three
  have path := Pool.path_iff_run.mpr ran
  have agreed := (membership_agreement (fun _ => 2) (fun _ => rfl) path).2
  exact ⟨last, first, second, third, path, resolved, asked, found, fun id =>
    ⟨agreed 0 _ resolved rfl id, agreed 1 _ asked rfl id, agreed 2 _ found rfl id⟩⟩

end Agreement

end Deployment

end Zongzi
