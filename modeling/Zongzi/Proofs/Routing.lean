import Zongzi.Model.ShardClient
import Zongzi.Proofs.ControllerManager
import Zongzi.Proofs.Convergence

/-! # The routing tables and the registry

A tick of the client manager rebuilds the entries of the shards that are newer than its index, and its index becomes
the update time of the newest one. Every command that changes the replicas or the leader of a shard gives the shard a
later update time, so the entries of a shard within the index are those of its current replicas.

A tick only visits shards that exist. The entries of a shard that is deleted are never removed.
-/

namespace Zongzi

open Std Machine ExceptFold

/-- Shards are visited in the order of their update times. -/
theorem State.shardIterateUpdatedAfter_ordered (state : State) (index : ℕ) :
    (state.shardIterateUpdatedAfter index).Pairwise (·.updated ≤ ·.updated) := by
  rw [State.shardIterateUpdatedAfter, List.pairwise_map]
  refine (ExtTreeMap.ordered_keys_toList.filter _).imp_of_mem ?_
  rintro ⟨⟨early, first⟩, left⟩ ⟨⟨late, second⟩, right⟩ memLeft memRight before
  have filed {updated id : ℕ} {shard : Shard}
      (member : ((updated, id), shard) ∈ state.shards.updated.toList) : shard.updated = updated := by
    have stored := ExtTreeMap.mem_toList_iff_getElem?_eq_some.mp member
    obtain ⟨listed, -⟩ := state.shards.updated_mirrors.sound _ _ stored
    exact Option.some.inj (SecondaryIndex.mem_groupKeys.mp listed).1
  dsimp only
  rw [filed (List.mem_of_mem_filter memLeft), filed (List.mem_of_mem_filter memRight)]
  have lexical : (compare early late).then (compare first second) = .lt := before
  by_contra after
  rw [Nat.compare_eq_gt.mpr (Nat.lt_of_not_le after)] at lexical
  cases lexical

namespace ClientManager

section Pings

/-- Setting different pings appends their entries. -/
theorem foldl_set_eq {entries map : PingMap} (distinct : (map ++ entries).Pairwise (·.1 ≠ ·.1)) :
    entries.foldl (fun map entry => PingMap.set map entry.1 entry.2) map = map ++ entries := by
  induction entries generalizing map with
  | nil => simp
  | cons entry entries ih =>
    have fresh : map.any (·.1 = entry.1) = false := by
      rw [List.any_eq_false]
      intro other member
      have different := (List.pairwise_append.mp distinct).2.2 other member entry List.mem_cons_self
      simpa using different
    have split : map ++ entry :: entries = map ++ [entry] ++ entries := by simp
    rw [List.foldl_cons, PingMap.set, if_neg (by simp [fresh]), split]
    exact ih (split ▸ distinct)

/-- Entries with different pings are put in order. -/
theorem byPing_spec (answers : Pings) {entries : PingMap} (distinct : entries.Pairwise (·.1 ≠ ·.1)) :
    (byPing answers entries).Perm entries ∧ (byPing answers entries).Pairwise (·.1 < ·.1) := by
  have perm := answers.perm entries
  have still : (answers.sort entries).Pairwise (·.1 ≠ ·.1) :=
    perm.symm.pairwise distinct fun differ same => differ same.symm
  have same : byPing answers entries = answers.sort entries := by
    rw [byPing, foldl_set_eq (by simpa using still), List.nil_append]
  rw [same]
  exact ⟨perm, ((answers.sorted entries).and still).imp fun ⟨le, ne⟩ => Int.lt_iff_le_and_ne.mpr ⟨le, ne⟩⟩

end Pings

section Visit

variable {self : String} {answers : Pings} {state : State} {shard : Shard}
  {known : ExtTreeMap String (Option HostClient)} {visit next : Visit}

/-- The client that a tick uses for a host. -/
def clientOf (known : ExtTreeMap String (Option HostClient)) (state : State) (hostID : String) : Option HostClient :=
  match known[hostID]? with
  | some client => client
  | none =>
    match hostClient state hostID with
    | .ok client => client
    | .error _ => none

/-- The ping that a tick comes to at a replica. -/
def pingOf (self : String) (answers : Pings) (known : ExtTreeMap String (Option HostClient))
    (state : State) (replica : Replica) : Option ℤ :=
  (clientOf known state replica.hostID).bind fun client => (ping self answers replica.id client).toOption

/-- Every client is one of the host that it is kept for. -/
def Sound (known : ExtTreeMap String (Option HostClient)) : Prop :=
  ∀ (hostID : String) (client : Option HostClient), known[hostID]? = some client →
    ∃ found, client = some found ∧ uuidKey found.host.id = uuidKey hostID

theorem hostClient_eq_ok {hostID : String} {client : HostClient}
    (found : hostClient state hostID = .ok (some client)) : uuidKey client.host.id = uuidKey hostID := by
  unfold hostClient at found
  split at found
  · cases found
  · next host looked =>
    obtain ⟨key, parsed, stored⟩ := State.host_eq_ok_iff.mp looked
    cases host with
    | none => cases found
    | some host =>
      cases found
      exact (state.hosts.keyed key host stored).trans parsed.symm

theorem Sound.clientOf (sound : Sound known) {hostID : String} {client : HostClient}
    (found : clientOf known state hostID = some client) : uuidKey client.host.id = uuidKey hostID := by
  unfold ClientManager.clientOf at found
  split at found
  · next cached =>
    obtain ⟨_, same, parsed⟩ := sound _ _ cached
    cases found.symm.trans same
    exact parsed
  · split at found
    · next looked => exact hostClient_eq_ok (found ▸ looked)
    · cases found

/-- Finding the client of a host changes nothing but what is known, and that only for this host. -/
theorem Visit.client_spec {hostID : String} {client : HostClient}
    (found : visit.client state hostID = .ok (client, next)) :
    clientOf visit.clientHost state hostID = some client ∧ ∃ clientHost, next = { visit with clientHost } ∧
      (∀ other, clientOf clientHost state other = clientOf visit.clientHost state other) ∧
      (Sound visit.clientHost → Sound clientHost) := by
  unfold Visit.client at found
  obtain ⟨⟨looked, clientHost⟩, fetched, found⟩ := bind_eq_ok_iff.mp found
  unfold keptClient at fetched
  cases looked with
  | none => cases found
  | some looked =>
    cases found
    split at fetched
    · next cached =>
      cases fetched
      exact ⟨by rw [clientOf, cached], _, rfl, fun _ => rfl, id⟩
    · next absent =>
      obtain ⟨asked, answered, fetched⟩ := bind_eq_ok_iff.mp fetched
      cases fetched
      refine ⟨by rw [clientOf, absent, answered], _, rfl, fun other => ?_, fun sound other client stored => ?_⟩
      · unfold clientOf
        by_cases same : hostID = other
        · subst same
          rw [ExtTreeMap.getElem?_insert_self, absent, answered]
        · rw [ExtTreeMap.getElem?_insert, if_neg (by simpa using same)]
      · rw [ExtTreeMap.getElem?_insert] at stored
        split at stored
        · next same =>
          obtain rfl := Std.compare_eq_iff_eq.mp same
          cases stored
          exact ⟨_, rfl, hostClient_eq_ok answered⟩
        · exact sound other client stored

/-- An entry for a replica: a client of its host, with the ping of the tick. -/
def Enters (self : String) (answers : Pings) (known : ExtTreeMap String (Option HostClient))
    (state : State) (entry : ℤ × HostClient) (replica : Replica) : Prop :=
  clientOf known state replica.hostID = some entry.2 ∧ ∃ asked ∈ state.replicaIterate,
    asked.hostID = replica.hostID ∧ pingOf self answers known state asked = some entry.1

/-- What holds of a tick at any time: what it knows about hosts, and where its pings come from. -/
structure Consistent (agent : String) (answers : Pings) (known : ExtTreeMap String (Option HostClient))
    (state : State) (clientHost : ExtTreeMap String (Option HostClient)) (pings : ExtTreeMap String ℤ) : Prop where
  clients : ∀ hostID, clientOf clientHost state hostID = clientOf known state hostID
  sound : Sound known → Sound clientHost
  pings : ∀ (hostID : String) (ping : ℤ), pings[hostID]? = some ping → ∃ asked ∈ state.replicaIterate,
    asked.hostID = hostID ∧ pingOf agent answers known state asked = some ping

/-- What a tick has found after some of the replicas of a shard. -/
structure Visited (agent : String) (answers : Pings) (known : ExtTreeMap String (Option HostClient))
    (state : State) (shard : Shard) (seen : List Replica) (visit : Visit) : Prop where
  consistent : Consistent agent answers known state visit.clientHost visit.pings
  replicas : List.Forall₂ (Enters agent answers known state) visit.replicas seen
  members : List.Forall₂ (Enters agent answers known state) visit.members (seen.filter (!·.isNonVoting))
  leader : ∀ client, visit.leaderClient = some client ↔ ∃ replica ∈ seen, replica.id = shard.leader ∧
    clientOf known state replica.hostID = some client

theorem Visited.enter {seen : List Replica} {replica : Replica} {client : HostClient} {ping : ℤ}
    (visited : Visited self answers known state shard seen visit)
    (enters : Enters self answers known state (ping, client) replica)
    (unique : ∀ other ∈ seen, other.id ≠ replica.id) :
    Visited self answers known state shard (seen ++ [replica]) (visit.enter shard replica client ping) where
  consistent := visited.consistent
  replicas := List.rel_append visited.replicas (.cons enters .nil)
  members := by
    rw [List.filter_append, Visit.enter]
    cases voting : replica.isNonVoting with
    | true => simpa [voting] using visited.members
    | false =>
      have appended : List.Forall₂ (Enters self answers known state) [(ping, client)] [replica] := .cons enters .nil
      simpa [voting] using List.rel_append visited.members appended
  leader other := by
    rw [Visit.enter]
    dsimp only
    split
    · next leads =>
      constructor
      · intro same
        cases same
        exact ⟨replica, by simp, leads.symm, enters.1⟩
      · rintro ⟨found, listed, named, looked⟩
        obtain listed | here := List.mem_append.mp listed
        · exact absurd (named.trans leads) (unique found listed)
        · cases List.mem_singleton.mp here
          exact congrArg some (Option.some.inj (enters.1.symm.trans looked))
    · next follows =>
      rw [visited.leader other]
      constructor
      · rintro ⟨found, listed, rest⟩
        exact ⟨found, List.mem_append_left _ listed, rest⟩
      · rintro ⟨found, listed, named, looked⟩
        obtain listed | here := List.mem_append.mp listed
        · exact ⟨found, listed, named, looked⟩
        · cases List.mem_singleton.mp here
          exact absurd named.symm follows

/-- A replica whose host has answered is entered. -/
theorem Visited.replica {seen : List Replica} {replica : Replica}
    (visited : Visited self answers known state shard seen visit)
    (stepped : visit.replica self answers state shard replica = .ok next)
    (listed : replica ∈ state.replicaIterate) (answered : (pingOf self answers known state replica).isSome)
    (unique : ∀ other ∈ seen, other.id ≠ replica.id) :
    Visited self answers known state shard (seen ++ [replica]) next := by
  obtain ⟨⟨client, middle⟩, found, stepped⟩ := bind_eq_ok_iff.mp stepped
  obtain ⟨looked, clientHost, rfl, same, sound⟩ := Visit.client_spec found
  rw [visited.consistent.clients] at looked
  have kept : Visited self answers known state shard seen { visit with clientHost } := by
    refine ⟨⟨fun hostID => ?_, fun start => sound (visited.consistent.sound start), visited.consistent.pings⟩,
      visited.replicas, visited.members, visited.leader⟩
    exact (same hostID).trans (visited.consistent.clients hostID)
  dsimp only at stepped
  split at stepped
  · next pinged =>
    cases stepped
    exact kept.enter ⟨looked, visited.consistent.pings _ _ pinged⟩ unique
  · split at stepped
    · next failed =>
      rw [pingOf, looked, Option.bind_some, failed] at answered
      cases answered
    · next ping pinged =>
      cases stepped
      have own : pingOf self answers known state replica = some ping := by
        rw [pingOf, looked, Option.bind_some, pinged]
        rfl
      have asked : Visited self answers known state shard seen
          { visit with clientHost, pings := visit.pings.insert replica.hostID ping } := by
        refine ⟨⟨kept.consistent.clients, kept.consistent.sound, fun hostID other stored => ?_⟩, kept.replicas,
          kept.members, kept.leader⟩
        rw [ExtTreeMap.getElem?_insert] at stored
        split at stored
        · next here =>
          obtain rfl := Std.compare_eq_iff_eq.mp here
          cases stored
          exact ⟨replica, listed, rfl, own⟩
        · exact visited.consistent.pings hostID other stored
      exact asked.enter ⟨looked, replica, listed, rfl, own⟩ unique

end Visit

section Shards

variable {self : String} {answers : Pings} {state : State} {shard : Shard}
  {known : ExtTreeMap String (Option HostClient)}

/-- The entries of a shard are those of its replicas. -/
structure Routed (agent : String) (answers : Pings) (known : ExtTreeMap String (Option HostClient))
    (state : State) (shard : Shard) (manager : ClientManager) : Prop where
  replicas : ∃ entries, manager.clientReplica[shard.id]? = some (byPing answers entries) ∧
    List.Forall₂ (Enters agent answers known state) entries (state.replicaIterateByShardID shard.id)
  members : ∃ entries, manager.clientMember[shard.id]? = some (byPing answers entries) ∧
    List.Forall₂ (Enters agent answers known state) entries
      ((state.replicaIterateByShardID shard.id).filter (!·.isNonVoting))
  leader : ∀ leader, manager.clientLeader[shard.id]? = some leader ↔ leader.replicaID = shard.leader ∧
    leader.term = shard.term ∧ ∃ replica ∈ state.replicaIterateByShardID shard.id, replica.id = shard.leader ∧
      clientOf known state replica.hostID = some leader.client

/-- The entries of one shard. -/
def entriesOf (manager : ClientManager) (id : ℕ) : Option HostClientLeader × Option PingMap × Option PingMap :=
  (manager.clientLeader[id]?, manager.clientMember[id]?, manager.clientReplica[id]?)

theorem Routed.of_entries {manager other : ClientManager} (routed : Routed self answers known state shard manager)
    (same : other.entriesOf shard.id = manager.entriesOf shard.id) :
    Routed self answers known state shard other := by
  obtain ⟨leader, rest⟩ := Prod.mk.inj same
  obtain ⟨members, replicas⟩ := Prod.mk.inj rest
  exact ⟨by rw [replicas]; exact routed.replicas, by rw [members]; exact routed.members,
    by rw [leader]; exact routed.leader⟩

theorem entriesOf_route {manager : ClientManager} {visit : Visit} {id : ℕ} (other : shard.id ≠ id) :
    (route answers manager shard visit).entriesOf id = manager.entriesOf id := by
  unfold entriesOf route
  dsimp only
  split
  · simp [ExtTreeMap.getElem?_insert, other]
  · simp [ExtTreeMap.getElem?_insert, ExtTreeMap.getElem?_erase, other]

theorem Visited.routed {manager : ClientManager} {visit : Visit}
    (visited : Visited self answers known state shard (state.replicaIterateByShardID shard.id) visit) :
    Routed self answers known state shard (route answers manager shard visit) where
  replicas := ⟨visit.replicas, by simp [route], visited.replicas⟩
  members := ⟨visit.members, by simp [route], visited.members⟩
  leader leader := by
    obtain ⟨client, replicaID, term⟩ := leader
    unfold route
    dsimp only
    split
    · next leads =>
      simp only [ExtTreeMap.getElem?_insert_self, Option.some.injEq, HostClientLeader.mk.injEq, ← visited.leader,
        leads]
      tauto
    · next none =>
      simp only [ExtTreeMap.getElem?_erase_self, ← visited.leader, none]
      simp

end Shards

section Tick

variable {self : String} {answers : Pings} {state : State} {manager next : ClientManager}

theorem tickShard_spec {shard : Shard} {before after : ClientManager × ExtTreeMap String ℤ}
    (ticked : tickShard self answers state before shard = .ok after) :
    ∃ visit, (state.replicaIterateByShardID shard.id).foldlM (Visit.replica self answers state shard)
        { clientHost := before.1.clientHost, pings := before.2 } = .ok visit ∧
      after = (route answers before.1 shard visit, visit.pings) := by
  obtain ⟨visit, folded, same⟩ := bind_eq_ok_iff.mp ticked
  cases same
  exact ⟨visit, folded, rfl⟩

/-- A tick is a fold over the shards it visits, and takes its index from the last one. -/
theorem tick_spec (ticked : manager.tick self answers state = .ok next) :
    ∃ progress, (state.shardIterateUpdatedAfter manager.index).foldlM (tickShard self answers state) (manager, ∅) =
        .ok progress ∧
      next = { progress.1 with index := match (state.shardIterateUpdatedAfter manager.index).getLast? with
        | some shard => shard.updated
        | none => progress.1.index } := by
  obtain ⟨⟨reached, pings⟩, folded, same⟩ := bind_eq_ok_iff.mp ticked
  refine ⟨(reached, pings), folded, ?_⟩
  dsimp only at same
  cases visited : (state.shardIterateUpdatedAfter manager.index).getLast? with
  | none =>
    rw [visited] at same
    cases same
    rfl
  | some last =>
    rw [visited] at same
    cases same
    rfl

/-- A tick leaves the entries of shards that it does not visit. -/
theorem entriesOf_tick (ticked : manager.tick self answers state = .ok next) {id : ℕ}
    (unvisited : ∀ shard ∈ state.shardIterateUpdatedAfter manager.index, shard.id ≠ id) :
    next.entriesOf id = manager.entriesOf id := by
  obtain ⟨progress, folded, rfl⟩ := tick_spec ticked
  refine foldlM_invariant (fun progress => progress.1.entriesOf id = manager.entriesOf id) folded rfl ?_
  intro shard visited before after kept ticked
  obtain ⟨visit, -, rfl⟩ := tickShard_spec ticked
  exact (entriesOf_route (unvisited shard visited)).trans kept

/-- The index stays or becomes the latest update time of the shards that are visited. -/
theorem index_tick (ticked : manager.tick self answers state = .ok next) :
    (state.shardIterateUpdatedAfter manager.index = [] ∧ next.index = manager.index) ∨
    ∃ last ∈ state.shardIterateUpdatedAfter manager.index, next.index = last.updated ∧
      ∀ shard ∈ state.shardIterateUpdatedAfter manager.index, shard.updated ≤ last.updated := by
  obtain ⟨progress, folded, rfl⟩ := tick_spec ticked
  cases visited : (state.shardIterateUpdatedAfter manager.index).getLast? with
  | none =>
    refine .inl ⟨List.getLast?_eq_none_iff.mp visited, ?_⟩
    exact foldlM_invariant (fun progress => progress.1.index = manager.index) folded rfl
      fun _ _ _ _ kept ticked => by
        obtain ⟨visit, -, rfl⟩ := tickShard_spec ticked
        exact kept
  | some last =>
    obtain ⟨front, split⟩ := List.getLast?_eq_some_iff.mp visited
    refine .inr ⟨last, by simp [split], rfl, fun shard listed => ?_⟩
    have ordered := State.shardIterateUpdatedAfter_ordered state manager.index
    rw [split] at ordered listed
    obtain earlier | here := List.mem_append.mp listed
    · exact (List.pairwise_append.mp ordered).2.2 shard earlier last (List.mem_singleton_self _)
    · rw [List.mem_singleton.mp here]

/-- Every host of a replica answers. -/
def Answered (self : String) (answers : Pings) (manager : ClientManager) (state : State) : Prop :=
  ∀ replica ∈ state.replicaIterate, (pingOf self answers manager.clientHost state replica).isSome

structure Ticked (agent : String) (answers : Pings) (manager : ClientManager) (state : State)
    (seen : List Shard) (progress : ClientManager × ExtTreeMap String ℤ) : Prop where
  consistent : Consistent agent answers manager.clientHost state progress.1.clientHost progress.2
  routed : ∀ shard ∈ seen, Routed agent answers manager.clientHost state shard progress.1

theorem Ticked.shard {seen : List Shard} {shard : Shard} {before after : ClientManager × ExtTreeMap String ℤ}
    (done : Ticked self answers manager state seen before) (answered : Answered self answers manager state)
    (stored : ∀ other ∈ seen, other.id = shard.id → other = shard)
    (ticked : tickShard self answers state before shard = .ok after) :
    Ticked self answers manager state (seen ++ [shard]) after := by
  obtain ⟨visit, folded, rfl⟩ := tickShard_spec ticked
  have visited :
      Visited self answers manager.clientHost state shard (state.replicaIterateByShardID shard.id) visit := by
    refine foldlM_front (Visited self answers manager.clientHost state shard) folded ?_ ?_
    · exact ⟨done.consistent, .nil, .nil, by simp⟩
    · intro front replica back before after split visited stepped
      have listed : replica ∈ state.replicaIterate := by
        have member : replica ∈ state.replicaIterateByShardID shard.id := by simp [split]
        rw [State.replicaIterateByShardID_eq] at member
        exact List.mem_of_mem_filter member
      refine visited.replica stepped listed (answered replica listed) fun other earlier same => ?_
      have distinct : (state.replicaIterateByShardID shard.id).Nodup := by
        rw [State.replicaIterateByShardID_eq]
        exact state.replicas.keyed.nodup_values.filter _
      have found : other ∈ state.replicaIterate := by
        have member : other ∈ state.replicaIterateByShardID shard.id := by simp [split, earlier]
        rw [State.replicaIterateByShardID_eq] at member
        exact List.mem_of_mem_filter member
      have once := (State.mem_replicaIterate.mp found).symm.trans (same ▸ State.mem_replicaIterate.mp listed)
      cases once
      rw [split] at distinct
      exact (List.nodup_append.mp distinct).2.2 _ earlier _ List.mem_cons_self rfl
  refine ⟨visited.consistent, fun other listed => ?_⟩
  by_cases same : other.id = shard.id
  · have here : other = shard := by
      obtain earlier | here := List.mem_append.mp listed
      · exact stored other earlier same
      · exact List.mem_singleton.mp here
    subst here
    exact visited.routed
  · obtain earlier | here := List.mem_append.mp listed
    · exact (done.routed other earlier).of_entries (entriesOf_route (Ne.symm same))
    · exact absurd (congrArg Shard.id (List.mem_singleton.mp here)) same

/-- A tick in which all hosts answer routes the shards that it visits. -/
theorem routed_tick (ticked : manager.tick self answers state = .ok next)
    (answered : Answered self answers manager state) :
    Consistent self answers manager.clientHost state next.clientHost ∅ ∧
    ∀ shard ∈ state.shardIterateUpdatedAfter manager.index,
      Routed self answers manager.clientHost state shard next := by
  obtain ⟨progress, folded, rfl⟩ := tick_spec ticked
  have done : Ticked self answers manager state (state.shardIterateUpdatedAfter manager.index) progress := by
    refine foldlM_front (Ticked self answers manager state) folded ?_ ?_
    · exact ⟨⟨fun _ => rfl, id, by simp⟩, by simp⟩
    · intro front shard back before after split done ticked
      refine done.shard answered (fun other earlier same => ?_) ticked
      have present {shard : Shard} (listed : shard ∈ state.shardIterateUpdatedAfter manager.index) :=
        (State.mem_shardIterateUpdatedAfter.mp listed).1
      have first := present (split ▸ List.mem_append_left _ earlier)
      have second := present (split ▸ List.mem_append_right _ List.mem_cons_self)
      rw [same] at first
      exact Option.some.inj (first.symm.trans second)
  refine ⟨⟨done.consistent.clients, done.consistent.sound, by simp⟩, fun shard visited => ?_⟩
  exact (done.routed shard visited).of_entries rfl

end Tick

end ClientManager

section System

/-- The registry of an agent and its client manager. -/
structure Routing where
  registry : State := {}
  manager : ClientManager := {}

/-- A command is applied, or the client manager ticks. -/
inductive RoutingEvent where
  | command (entry : Entry)
  | tick (answers : ClientManager.Pings)

def Routing.Steps (self : String) (before : Routing) : RoutingEvent → Routing → Prop
  | .command entry, after => Fsm.Advances before.registry entry after.registry ∧ after.manager = before.manager
  | .tick answers, after =>
    after.registry = before.registry ∧ before.manager.tick self answers before.registry = .ok after.manager

/-- The same as a function. -/
def Routing.step (self : String) (before : Routing) : RoutingEvent → Option Routing
  | .command entry =>
    if before.registry.index < entry.index ∧ entry.index < 2 ^ 64 then
      match Fsm.update before.registry entry with
      | .ok (registry, _) => some { before with registry }
      | .error _ => none
    else none
  | .tick answers =>
    match before.manager.tick self answers before.registry with
    | .ok manager => some { before with manager }
    | .error _ => none

theorem Routing.steps_eq_step (self : String) :
    Steps self = fun before event after => before.step self event = some after := by
  funext before event after
  obtain ⟨registry, manager⟩ := after
  cases event with
  | command entry =>
    simp only [Steps, step]
    refine propext ⟨?_, fun stepped => ?_⟩
    · rintro ⟨⟨later, bounded, result, updated⟩, rfl⟩
      rw [if_pos ⟨later, bounded⟩, updated]
    · split at stepped
      · next later =>
        split at stepped
        · next updated =>
          cases stepped
          exact ⟨⟨later.1, later.2, _, updated⟩, rfl⟩
        · cases stepped
      · cases stepped
  | tick answers =>
    simp only [Steps, step]
    refine propext ⟨?_, fun stepped => ?_⟩
    · rintro ⟨rfl, ticked⟩
      rw [ticked]
    · split at stepped
      · next ticked =>
        cases stepped
        exact ⟨rfl, ticked⟩
      · cases stepped

end System

section Deleted

variable {self : String}

/-- The tables have no entry for the shard. -/
def ClientManager.Unrouted (manager : ClientManager) (id : ℕ) : Prop := manager.entriesOf id = (none, none, none)

/-- Every request to the shard is answered at once. -/
def NotReady (self : String) (manager : ClientManager) (client : ShardClient) : Prop :=
  ∀ fuel cmd query stale,
    client.index self manager fuel = .done (some (.error .shardNotReady)) ∧
    client.apply self manager cmd fuel = .done (some (.error .shardNotReady)) ∧
    client.commit self manager cmd fuel = .done (some (.error .shardNotReady)) ∧
    client.read self manager query stale = .done (some (.error .shardNotReady)) ∧
    client.watch self manager query stale fuel = .done (some (.error .shardNotReady)) ∧
    client.stream self manager stale = .done (some (.error .shardNotReady))

theorem ClientManager.Unrouted.notReady {manager : ClientManager} {client : ShardClient}
    (unrouted : manager.Unrouted client.shardID) : NotReady self manager client := by
  obtain ⟨leader, rest⟩ := Prod.mk.inj unrouted
  obtain ⟨members, replicas⟩ := Prod.mk.inj rest
  have listed {α : Type} {table : ExtTreeMap ℕ PingMap} (absent : table[client.shardID]? = none)
      (call : HostClient → RequestM (Answer α)) (last : Except RequestErr α) :
      client.tryListed table call last = .done (some (.error .shardNotReady)) := by
    rw [ShardClient.tryListed, absent]
    rfl
  have written {α : Type} (call : HostClient → RequestM (Answer α)) (zero : α) :
      client.write manager call zero = .done (some (.error .shardNotReady)) := by
    rw [ShardClient.write, leader, ite_self]
    exact listed members call _
  have looked {α : Type} (call : HostClient → RequestM (Answer α)) (zero : α) (stale : Bool) :
      client.lookup manager stale call zero = .done (some (.error .shardNotReady)) := by
    cases stale with
    | false => exact listed members call _
    | true =>
      rw [ShardClient.lookup, if_pos rfl, replicas]
      rfl
  exact fun fuel cmd query stale => ⟨listed replicas _ _, written _ _, written _ _, looked _ _ _, looked _ _ _,
    looked _ _ _⟩

theorem ShardWrite.del_of_isNone {entry : Entry} {last id : ℕ} {before after : Option Shard}
    (write : ShardWrite entry last id before after) (present : before.isSome) (gone : after.isNone) :
    ∃ shard, entry.cmd = .shard .del shard ∧ shard.id = id := by
  cases write with
  | del cmd named => exact ⟨_, cmd, named⟩
  | touch =>
    obtain ⟨stored, rfl⟩ := Option.isSome_iff_exists.mp present
    cases gone
  | prime | put | status | tags => cases gone

/-- Only a delete removes a shard. -/
theorem Ledger.Step.shard_removed {ledger after : Ledger} {entry : Entry} (step : ledger.Step entry after) {id : ℕ}
    (present : (ledger.shards id).isSome) (gone : after.shards id = none) :
    ∃ shard, entry.cmd = .shard .del shard ∧ shard.id = id := by
  have touched {chosen : Set ℕ} {change : Shard → Shard}
      (gone : PartialTable.rewrite ledger.shards chosen change id = none) : False := by
    have same : (PartialTable.rewrite ledger.shards chosen change id).map (fun _ => ()) =
        (ledger.shards id).map fun _ => () := PartialTable.map_rewrite fun _ => rfl
    rw [gone, eq_comm, Option.map_none, Option.map_eq_none_iff] at same
    rw [same] at present
    cases present
  have written {other : ℕ} {record : Option Shard} (gone : Function.update ledger.shards other record id = none) :
      id = other ∧ record = none := by
    by_cases same : id = other
    · subst same
      rw [Function.update_self] at gone
      exact ⟨rfl, gone⟩
    · rw [Function.update_of_ne same] at gone
      rw [gone] at present
      cases present
  cases step with
  | idle =>
    rw [gone] at present
    cases present
  | host => exact (touched gone).elim
  | shardPost => cases (written gone).2
  | shardLeader => cases (written gone).2
  | shard write =>
    obtain ⟨rfl, rfl⟩ := written gone
    exact write.del_of_isNone present rfl
  | replicaPost => exact (touched gone).elim
  | replica => exact (touched gone).elim

namespace Routing

/-- The event deletes no shard the tables have entries for. -/
def DeletesUnrouted (before : Routing) (event : RoutingEvent) : Prop :=
  ∀ entry shard, event = .command entry → entry.cmd = .shard .del shard → before.manager.Unrouted shard.id

/-- The tables have no entry for a shard the registry does not have. -/
def RoutesPresent (routing : Routing) : Prop :=
  ∀ id, routing.registry.shard id = none → routing.manager.Unrouted id

theorem RoutesPresent.step {before after : Routing} {event : RoutingEvent} (present : before.RoutesPresent)
    (unrouted : before.DeletesUnrouted event) (stepped : before.Steps self event after) : after.RoutesPresent := by
  intro id gone
  cases event with
  | command entry =>
    obtain ⟨⟨-, -, result, updated⟩, same⟩ := stepped
    rw [same]
    by_cases absent : before.registry.shard id = none
    · exact present id absent
    · have stored : (before.registry.ledger.shards id).isSome := Option.isSome_iff_ne_none.mpr absent
      obtain ⟨shard, cmd, rfl⟩ := (Fsm.update_ledger updated).shard_removed stored gone
      exact unrouted entry shard rfl cmd
  | tick answers =>
    obtain ⟨same, ticked⟩ := stepped
    rw [same] at gone
    refine (ClientManager.entriesOf_tick ticked fun shard visited here => ?_).trans (present id gone)
    rw [← here, (State.mem_shardIterateUpdatedAfter.mp visited).1] at gone
    cases gone

/-- Where no shard is deleted after a tick has entered it into the tables, a tick on a registry without a shard leaves
no entry of it, and all requests to it are answered as not ready. -/
theorem deleted_unrouted {events : List RoutingEvent} (deletes : AlwaysStep (Steps self) {} events DeletesUnrouted) :
    ∀ front answers back before after, events = front ++ .tick answers :: back → Path (Steps self) {} front before →
      before.Steps self (.tick answers) after → ∀ id, before.registry.shard id = none →
      after.manager.Unrouted id ∧ ∀ client : ShardClient, client.shardID = id → NotReady self after.manager client := by
  intro front answers back before after split reached ticked id gone
  have always : Always (Steps self) {} events RoutesPresent :=
    deletes.always (fun _ _ => by simp [ClientManager.Unrouted, ClientManager.entriesOf])
      fun _ _ _ _ _ _ _ present unrouted stepped => present.step unrouted stepped
  have unrouted : after.manager.Unrouted id := by
    refine always (front ++ [.tick answers]) back after (by simp [split]) (Path.snoc_iff.mpr ⟨before, reached, ticked⟩)
      id ?_
    rw [ticked.1]
    exact gone
  refine ⟨unrouted, ?_⟩
  rintro client rfl
  exact unrouted.notReady

/-- A shard is created and deleted. -/
def deletedEarly : List RoutingEvent :=
  [.command { index := 1, cmd := newCmdShardPost { name := "a" } },
    .command { index := 2, cmd := newCmdShardDel 1 }]

/-- All hosts answer at once. -/
def promptTick : RoutingEvent := .tick (.stable fun _ => .ok 1)

/-- Whether the event deletes no shard that has entries. -/
def deletesUnrouted (before : Routing) : RoutingEvent → Bool
  | .command { cmd := .shard .del shard, .. } => before.manager.entriesOf shard.id = (none, none, none)
  | _ => true

theorem early_delete_unrouted :
    ∃ before after, Path (Steps "h") {} deletedEarly before ∧ before.Steps "h" promptTick after ∧
      before.registry.shard 1 = none ∧ after.manager.Unrouted 1 := by
  have checked : checks (step "h") deletesUnrouted {} (deletedEarly ++ [promptTick]) := by decide +kernel
  obtain ⟨before, reached, absent, moves⟩ : ∃ before ∈ deletedEarly.foldlM (step "h") {},
      before.registry.shard 1 = none ∧ (before.step "h" promptTick).isSome := by
    decide +kernel
  obtain ⟨after, moved⟩ := Option.isSome_iff_exists.mp moves
  have path : Path (Steps "h") {} deletedEarly before := by
    rw [steps_eq_step]
    exact Path.iff_foldlM.mpr reached
  have ticked : before.Steps "h" promptTick after := by
    rw [steps_eq_step]
    exact moved
  have deletes : AlwaysStep (Steps "h") {} (deletedEarly ++ [promptTick]) DeletesUnrouted := by
    rw [steps_eq_step]
    refine .of_checks (fun state event checked => ?_) checked
    rintro entry shard rfl cmd
    obtain ⟨index, _, result⟩ := entry
    obtain rfl : _ = _ := cmd
    have absent : state.manager.entriesOf shard.id = (none, none, none) := of_decide_eq_true checked
    exact absent
  exact ⟨before, after, path, ticked, absent,
    (deleted_unrouted deletes deletedEarly _ [] before after rfl path ticked 1 absent).1⟩

/-- The shard has a replica, and a tick lists its host before the shard is deleted. -/
def deletedLate : List RoutingEvent :=
  [.command { index := 1, cmd := .host .put Fsm.exampleHost },
    .command { index := 2, cmd := newCmdShardPost { name := "a" } },
    .command { index := 3, cmd := newCmdReplicaPost Fsm.exampleHost.id 1 false },
    promptTick,
    .command { index := 4, cmd := newCmdShardDel 1 },
    promptTick]

/-- A tick after the delete keeps the entries of the shard. -/
theorem deleted_shard_routed :
    ∃ last, Path (Steps "h") {} deletedLate last ∧ last.registry.shard 1 = none ∧ ¬ last.manager.Unrouted 1 := by
  obtain ⟨last, reached, gone, members⟩ : ∃ last ∈ deletedLate.foldlM (step "h") {},
      last.registry.shard 1 = none ∧ last.manager.clientMember[1]?.map List.length = some 1 := by
    decide +kernel
  refine ⟨last, ?_, gone, fun unrouted => ?_⟩
  · rw [steps_eq_step]
    exact Path.iff_foldlM.mpr reached
  · have absent := (Prod.mk.inj (Prod.mk.inj unrouted).2).1
    rw [absent] at members
    cases members

end Routing

end Deleted

section Refinement

variable {self : String} {answers : ClientManager.Pings}

/-- What the entries of a shard depend on, under its update time. -/
def routeTracking : Tracking State ℕ (Option (ℕ × ℕ) × Set Replica) where
  clock := State.index
  stamp state id := (state.shard id).map Shard.updated
  view state id := ((state.shard id).map fun shard => (shard.leader, shard.term), state.replicasOf id)
  keeps := Eq

/-- One entry that is not a replica put. -/
def Fsm.RouteStep (before after : State) : Prop :=
  before.Reached ∧ ∃ entry, Fsm.Advances before entry after ∧ ∀ replica, entry.cmd ≠ .replica .put replica

/-- An entry that does not stamp a shard leaves its replicas. -/
theorem Fsm.RouteStep.replicasOf {before after : State} (step : RouteStep before after) {id : ℕ} {shard : Shard}
    (found : after.shard id = some shard) (early : shard.updated ≤ before.index) :
    before.replicasOf id = after.replicasOf id := by
  obtain ⟨reached, entry, advances, put⟩ := step
  have vacant := advances.vacant reached.orderly
  have later := advances.later
  obtain ⟨result, updated⟩ := advances.applies
  have same {replica : Replica} (owned : replica.shardID = id)
      (version : before.replica replica.id = some replica ∨ after.replica replica.id = some replica) :
      after.replica replica.id = before.replica replica.id := by
    by_contra changed
    have marked := ((Fsm.update_ledger updated).replica_announced vacant put version changed).1
    have := marked shard (owned ▸ found)
    omega
  ext replica
  constructor
  · rintro ⟨stored, owned⟩
    exact ⟨(same owned (.inl stored)).trans stored, owned⟩
  · rintro ⟨stored, owned⟩
    exact ⟨(same owned (.inr stored)).symm.trans stored, owned⟩

theorem routeTracking_tracks : routeTracking.Tracks Fsm.RouteStep where
  refl _ := rfl
  trans := Eq.trans
  clock := by
    rintro before after ⟨-, entry, advances, -⟩
    exact advances.index_le
  stamps := by
    intro before after id time step stamped
    obtain ⟨shard, found, rfl⟩ := Option.map_eq_some_iff.mp stamped
    obtain late | early := Nat.lt_or_ge before.index shard.updated
    · exact .inl late
    · have replicas := step.replicasOf found early
      obtain ⟨reached, entry, ⟨later, -, result, updated⟩, -⟩ := step
      refine .inr ?_
      obtain fresh | same | ⟨stored, tags, present, -, rfl⟩ := (Fsm.update_ledger updated).shard_delta found
      · omega
      · have same : before.shard id = some shard := same
        simp [routeTracking, same, found, replicas]
      · have same : before.shard id = some stored := present
        simp [routeTracking, same, found, replicas]

theorem State.Reached.index_lt {state : State} (reached : state.Reached) : state.index < 2 ^ 64 := by
  obtain ⟨log, path⟩ := reached
  let Bounded (state : State) : Prop := state.index < 2 ^ 64
  have initial : Bounded {} := by decide
  refine path.invariant initial fun entry _ before after bounded advances => ?_
  obtain rfl | moved := advances.applies.index
  · exact bounded
  · exact moved.trans_lt advances.bounded

namespace Routing

/-- All pings of a tick succeed, and no two hosts have the same. -/
def ClearPings (self : String) (before : Routing) (event : RoutingEvent) : Prop :=
  ∀ answers, event = .tick answers → (∀ id, ∃ ping, answers id = .ok ping) ∧
    ∀ left ∈ before.registry.replicaIterate, ∀ right ∈ before.registry.replicaIterate,
      uuidKey left.hostID ≠ uuidKey right.hostID →
      ClientManager.pingOf self answers before.manager.clientHost before.registry left ≠
        ClientManager.pingOf self answers before.manager.clientHost before.registry right

theorem ClearPings.answered {before : Routing} (clear : before.ClearPings self (.tick answers))
    (reached : before.registry.Reached) (sound : ClientManager.Sound before.manager.clientHost) :
    ClientManager.Answered self answers before.manager before.registry := by
  intro replica listed
  have known : ∃ client,
      ClientManager.clientOf before.manager.clientHost before.registry replica.hostID = some client := by
    unfold ClientManager.clientOf
    cases kept : before.manager.clientHost[replica.hostID]? with
    | some client =>
      obtain ⟨found, rfl, -⟩ := sound _ _ kept
      exact ⟨found, rfl⟩
    | none =>
      obtain ⟨key, parsed, present⟩ := State.hosts_of_mem reached.hosted listed
      obtain ⟨host, stored⟩ := Option.isSome_iff_exists.mp (Option.isSome_map ▸ present)
      have looked : before.registry.host replica.hostID = .ok (some host) :=
        State.host_eq_ok_iff.mpr ⟨key, parsed, stored⟩
      simp [ClientManager.hostClient, looked]
  obtain ⟨client, known⟩ := known
  obtain ⟨ping, answer⟩ := (clear answers rfl).1 replica.id
  rw [ClientManager.pingOf, known, Option.bind_some, ClientManager.ping]
  split
  · rfl
  · rw [answer]
    rfl

/-- The last tick that visited a shard: the state it ran in, and the answers it got. -/
inductive WroteLast (self : String) (id : ℕ) : List RoutingEvent → Routing → Routing → ClientManager.Pings → Prop
  | wrote {events : List RoutingEvent} {before after : Routing} {answers : ClientManager.Pings} {shard : Shard}
      (path : Path (Steps self) {} events before) (ticked : before.Steps self (.tick answers) after)
      (visited : shard ∈ before.registry.shardIterateUpdatedAfter before.manager.index) (named : shard.id = id) :
      WroteLast self id (events ++ [.tick answers]) after before answers
  | command {events : List RoutingEvent} {entry : Entry} {before after source : Routing}
      {answers : ClientManager.Pings} (wrote : WroteLast self id events before source answers)
      (stepped : before.Steps self (.command entry) after) :
      WroteLast self id (events ++ [.command entry]) after source answers
  | tick {events : List RoutingEvent} {before after source : Routing}
      {answers others : ClientManager.Pings} (wrote : WroteLast self id events before source answers)
      (stepped : before.Steps self (.tick others) after)
      (unvisited : ∀ shard ∈ before.registry.shardIterateUpdatedAfter before.manager.index, shard.id ≠ id) :
      WroteLast self id (events ++ [.tick others]) after source answers

/-- The entries of a shard are those of a view, written by the last tick that visited it. -/
def RoutedLast (self : String) (events : List RoutingEvent) (last : Routing) (id : ℕ)
    (view : Option (ℕ × ℕ) × Set Replica) : Prop :=
  ∃ before answers shard, WroteLast self id events last before answers ∧ before.ClearPings self (.tick answers) ∧
    ClientManager.Sound before.manager.clientHost ∧ shard.id = id ∧
    view = (some (shard.leader, shard.term), before.registry.replicasOf id) ∧
    ClientManager.Routed self answers before.manager.clientHost before.registry shard last.manager

/-- What holds after every event. -/
structure Tracked (agent : String) (events : List RoutingEvent) (last : Routing) : Prop where
  reached : last.registry.Reached
  behind : last.manager.index ≤ last.registry.index
  sound : ClientManager.Sound last.manager.clientHost
  covered : routeTracking.Covered (fun id time view => 0 < time → RoutedLast agent events last id view)
    last.manager.index last.registry

variable {events : List RoutingEvent} {before after : Routing}

theorem tracked_initial : Tracked self [] {} where
  reached := ⟨[], .nil⟩
  behind := le_rfl
  sound hostID client kept := by simp at kept
  covered id time stamped := by simp [routeTracking, State.shard, ShardTable.empty] at stamped

theorem Tracked.command {entry : Entry} (tracked : Tracked self events before)
    (put : ∀ replica, entry.cmd ≠ .replica .put replica) (stepped : before.Steps self (.command entry) after) :
    Tracked self (events ++ [.command entry]) after := by
  obtain ⟨advances, same⟩ := id stepped
  have step : Fsm.RouteStep before.registry after.registry := ⟨tracked.reached, entry, advances, put⟩
  constructor
  · exact tracked.reached.step advances
  · rw [same]
    exact tracked.behind.trans advances.index_le
  · rw [same]
    exact tracked.sound
  · have moved : routeTracking.Covered
        (fun id time view => 0 < time → RoutedLast self (events ++ [.command entry]) after id view)
        before.manager.index before.registry := by
      intro id time stamped early positive
      obtain ⟨source, answers, shard, wrote, clear, sound, named, view, routed⟩ :=
        tracked.covered id time stamped early positive
      exact ⟨source, answers, shard, .command wrote stepped, clear, sound, named, view, same ▸ routed⟩
    rw [same]
    exact routeTracking_tracks.covered_step (fun kept done => kept ▸ done) moved tracked.behind step

theorem Tracked.tick (tracked : Tracked self events before) (path : Path (Steps self) {} events before)
    (clear : before.ClearPings self (.tick answers)) (stepped : before.Steps self (.tick answers) after) :
    Tracked self (events ++ [.tick answers]) after := by
  obtain ⟨same, ticked⟩ := stepped
  have answered := clear.answered tracked.reached tracked.sound
  obtain ⟨consistent, routed⟩ := ClientManager.routed_tick ticked answered
  have reached : after.registry.Reached := same ▸ tracked.reached
  constructor
  · exact reached
  · rw [same]
    obtain ⟨-, kept⟩ | ⟨last, listed, moved, -⟩ := ClientManager.index_tick ticked
    · exact kept ▸ tracked.behind
    · exact moved ▸ (tracked.reached.orderly.shards _ _ (State.mem_shardIterateUpdatedAfter.mp listed).1).2
  · exact consistent.sound tracked.sound
  · intro id time stamped early positive
    rw [same] at stamped ⊢
    obtain ⟨shard, found, rfl⟩ := Option.map_eq_some_iff.mp stamped
    have named := State.shard_id found
    by_cases visited : ∃ shard ∈ before.registry.shardIterateUpdatedAfter before.manager.index, shard.id = id
    · obtain ⟨other, listed, rfl⟩ := visited
      cases (State.mem_shardIterateUpdatedAfter.mp listed).1.symm.trans found
      refine ⟨before, answers, shard, .wrote path ⟨same, ticked⟩ listed rfl, clear, tracked.sound, rfl, ?_,
        routed shard listed⟩
      simp [routeTracking, found]
    · push Not at visited
      have seen : shard.updated ≤ before.manager.index := by
        by_contra late
        have dated : shard.updated ≤ before.registry.index := (tracked.reached.orderly.shards _ _ found).2
        have bounded := tracked.reached.index_lt
        refine visited shard (State.mem_shardIterateUpdatedAfter.mpr ⟨named ▸ found, ?_⟩) named
        rw [Nat.mod_eq_of_lt (by omega)]
        omega
      obtain ⟨source, others, old, wrote, clear, sound, rfl, view, routed⟩ := tracked.covered id _ stamped seen positive
      exact ⟨source, others, old, .tick wrote ⟨same, ticked⟩ visited, clear, sound, rfl, view,
        routed.of_entries (ClientManager.entriesOf_tick ticked visited)⟩

theorem tracked_of_path {last : Routing} (path : Path (Steps self) {} events last)
    (clear : AlwaysStep (Steps self) {} events (ClearPings self))
    (puts : ∀ entry replica, .command entry ∈ events → entry.cmd ≠ .replica .put replica) :
    Tracked self events last := by
  induction path with
  | nil => exact tracked_initial
  | @snoc events before last event path stepped ih =>
    have tracked := ih clear.front fun entry replica listed => puts entry replica (List.mem_append_left _ listed)
    cases event with
    | command entry => exact tracked.command (fun replica => puts entry replica (by simp)) stepped
    | tick answers => exact tracked.tick path (clear events _ [] before rfl path) stepped

/-- A list has the hosts of the replicas, in the order of the pings of a tick. -/
structure Lists (agent : String) (answers : ClientManager.Pings) (source : Routing) (replicas : List Replica)
    (list : PingMap) : Prop where
  hosts : (list.map fun entry => uuidKey entry.2.host.id).Perm (replicas.map fun replica => uuidKey replica.hostID)
  ascending : list.Pairwise (·.1 < ·.1)
  pings : ∀ entry ∈ list, ∃ asked ∈ source.registry.replicaIterate,
    uuidKey entry.2.host.id = uuidKey asked.hostID ∧
    ClientManager.pingOf agent answers source.manager.clientHost source.registry asked = some entry.1

private theorem exists_of_forall₂ {α β : Type} {relation : α → β → Prop} {left : List α} {right : List β}
    (related : List.Forall₂ relation left right) :
    (∀ one ∈ left, ∃ other ∈ right, relation one other) ∧ ∀ other ∈ right, ∃ one ∈ left, relation one other := by
  induction related with
  | nil => simp
  | cons first _ ih =>
    obtain ⟨onward, back⟩ := ih
    refine ⟨List.forall_mem_cons.mpr ⟨⟨_, List.mem_cons_self, first⟩, fun one listed => ?_⟩,
      List.forall_mem_cons.mpr ⟨⟨_, List.mem_cons_self, first⟩, fun other listed => ?_⟩⟩
    · obtain ⟨other, member, relates⟩ := onward one listed
      exact ⟨other, List.mem_cons_of_mem _ member, relates⟩
    · obtain ⟨one, member, relates⟩ := back other listed
      exact ⟨one, List.mem_cons_of_mem _ member, relates⟩

theorem lists_byPing {source : Routing} {entries : PingMap} {replicas current : List Replica}
    (clear : source.ClearPings self (.tick answers)) (sound : ClientManager.Sound source.manager.clientHost)
    (entered : List.Forall₂ (ClientManager.Enters self answers source.manager.clientHost source.registry)
      entries replicas)
    (same : replicas.Perm current)
    (spread : (current.map fun replica => uuidKey replica.hostID).Nodup) :
    Lists self answers source current (ClientManager.byPing answers entries) := by
  have keys :
      entries.map (fun entry => uuidKey entry.2.host.id) = replicas.map fun replica => uuidKey replica.hostID := by
    clear same
    induction entered with
    | nil => rfl
    | cons enters _ ih => rw [List.map_cons, List.map_cons, ih, sound.clientOf enters.1]
  have listed := same.map fun replica => uuidKey replica.hostID
  rw [← keys] at listed
  have pings (entry : ℤ × HostClient) (member : entry ∈ entries) : ∃ asked ∈ source.registry.replicaIterate,
      uuidKey entry.2.host.id = uuidKey asked.hostID ∧
      ClientManager.pingOf self answers source.manager.clientHost source.registry asked = some entry.1 := by
    obtain ⟨replica, -, known, asked, present, here, ping⟩ := (exists_of_forall₂ entered).1 entry member
    exact ⟨asked, present, (sound.clientOf known).trans (by rw [here]), ping⟩
  have distinct : entries.Pairwise (·.1 ≠ ·.1) := by
    refine (List.pairwise_map.mp (listed.nodup_iff.mpr spread)).imp_of_mem
      fun {left right} memLeft memRight differ => ?_
    obtain ⟨first, presentFirst, hereFirst, pingFirst⟩ := pings left memLeft
    obtain ⟨second, presentSecond, hereSecond, pingSecond⟩ := pings right memRight
    have clear := (clear answers rfl).2 first presentFirst second presentSecond (hereFirst ▸ hereSecond ▸ differ)
    rw [pingFirst, pingSecond] at clear
    exact fun equal => clear (congrArg some equal)
  obtain ⟨perm, ascending⟩ := ClientManager.byPing_spec answers distinct
  exact ⟨(perm.map _).trans listed, ascending, fun entry member => pings entry (perm.mem_iff.mp member)⟩

theorem perm_of_replicasOf {left right : State} {id : ℕ} (same : left.replicasOf id = right.replicasOf id) :
    (left.replicaIterateByShardID id).Perm (right.replicaIterateByShardID id) := by
  have nodup (state : State) : (state.replicaIterateByShardID id).Nodup := by
    rw [State.replicaIterateByShardID_eq]
    exact (nodup_replicaIterate state).filter _
  have member (state : State) (replica : Replica) :
      replica ∈ state.replicaIterateByShardID id ↔ replica ∈ state.replicasOf id := by
    rw [State.replicaIterateByShardID_eq, List.mem_filter, State.mem_replicaIterate, decide_eq_true_iff]
    rfl
  refine (List.perm_ext_iff_of_nodup (nodup left) (nodup right)).mpr fun replica => ?_
  rw [member, member, same]

/-- After every run in which all pings succeed and differ, the entries of a shard within the index of the manager are
those of its current replicas, as the last tick that visited it has ordered them, and the leader is the current one. -/
theorem routing_refines {last : Routing} {id : ℕ} {shard : Shard} (path : Path (Steps self) {} events last)
    (clear : AlwaysStep (Steps self) {} events (ClearPings self))
    (puts : ∀ entry replica, .command entry ∈ events → entry.cmd ≠ .replica .put replica)
    (found : last.registry.shard id = some shard) (positive : 0 < shard.updated)
    (within : shard.updated ≤ last.manager.index)
    (spread : ((last.registry.replicaIterateByShardID id).map fun replica => uuidKey replica.hostID).Nodup) :
    ∃ source answers, WroteLast self id events last source answers ∧
      (∃ list, last.manager.clientReplica[id]? = some list ∧
        Lists self answers source (last.registry.replicaIterateByShardID id) list) ∧
      (∃ list, last.manager.clientMember[id]? = some list ∧
        Lists self answers source ((last.registry.replicaIterateByShardID id).filter (!·.isNonVoting)) list) ∧
      (last.manager.clientLeader[id]?.isSome ↔
        ∃ replica ∈ last.registry.replicaIterateByShardID id, replica.id = shard.leader) ∧
      ∀ leader, last.manager.clientLeader[id]? = some leader →
        leader.replicaID = shard.leader ∧ leader.term = shard.term ∧
        ∃ replica ∈ last.registry.replicaIterateByShardID id, replica.id = shard.leader ∧
          uuidKey leader.client.host.id = uuidKey replica.hostID := by
  have tracked := tracked_of_path path clear puts
  have stamped : routeTracking.stamp last.registry id = some shard.updated := by simp [routeTracking, found]
  obtain ⟨source, answers, old, wrote, clear, sound, rfl, view, routed⟩ :=
    tracked.covered id _ stamped within positive
  obtain ⟨leads, replicas⟩ := Prod.mk.inj view
  rw [found] at leads
  obtain ⟨leader, term⟩ := Prod.mk.inj (Option.some.inj leads)
  have same := perm_of_replicasOf replicas.symm
  obtain ⟨entries, listed, entered⟩ := routed.replicas
  obtain ⟨members, listedMembers, enteredMembers⟩ := routed.members
  refine ⟨source, answers, wrote, ⟨_, listed, lists_byPing clear sound entered same spread⟩,
    ⟨_, listedMembers, lists_byPing clear sound enteredMembers (same.filter _)
      (spread.sublist (List.filter_sublist.map _))⟩, ?_, fun leading entry => ?_⟩
  · constructor
    · intro some
      obtain ⟨leading, entry⟩ := Option.isSome_iff_exists.mp some
      obtain ⟨-, -, replica, member, leads, -⟩ := (routed.leader leading).mp entry
      exact ⟨replica, same.mem_iff.mp member, leads.trans leader.symm⟩
    · rintro ⟨replica, member, leads⟩
      obtain ⟨entry, -, known, -⟩ := (exists_of_forall₂ entered).2 replica (same.mem_iff.mpr member)
      exact Option.isSome_iff_exists.mpr ⟨⟨entry.2, old.leader, old.term⟩,
        (routed.leader _).mpr ⟨rfl, rfl, replica, same.mem_iff.mpr member, leads.trans leader, known⟩⟩
  · obtain ⟨named, at_, replica, member, leads, known⟩ := (routed.leader leading).mp entry
    exact ⟨named.trans leader.symm, at_.trans term.symm, replica, same.mem_iff.mp member, leads.trans leader.symm,
      sound.clientOf known⟩

/-- The host of the agent with a voting replica, and another one with a replica that does not vote. -/
def ledLog : List RoutingEvent :=
  [.command { index := 1, cmd := .host .put Fsm.exampleHost },
    .command { index := 2, cmd := .host .put { id := "00000000-0000-4000-8000-000000000002", tags := some ∅ } },
    .command { index := 3, cmd := newCmdShardPost { name := "a" } },
    .command { index := 4, cmd := newCmdReplicaPost "00000000-0000-4000-8000-000000000002" 1 true },
    .command { index := 5, cmd := newCmdReplicaPost Fsm.exampleHost.id 1 false },
    .command { index := 6, cmd := newCmdShardLeaderSet 1 2 1 },
    promptTick]

/-- Whether no two hosts have the same ping. -/
def distinctPings (self : String) (before : Routing) : RoutingEvent → Bool
  | .command _ => true
  | .tick answers => before.registry.replicaIterate.all fun left => before.registry.replicaIterate.all fun right =>
    uuidKey left.hostID = uuidKey right.hostID ∨
      ClientManager.pingOf self answers before.manager.clientHost before.registry left ≠
        ClientManager.pingOf self answers before.manager.clientHost before.registry right

theorem ledLog_routed :
    ∃ last list, Path (Steps Fsm.exampleHost.id) {} ledLog last ∧ last.manager.clientReplica[1]? = some list ∧
      list.length = 2 ∧ list.Pairwise (·.1 < ·.1) ∧ last.manager.clientLeader[1]?.isSome := by
  have checked : checks (step Fsm.exampleHost.id) (distinctPings Fsm.exampleHost.id) {} ledLog := by decide +kernel
  obtain ⟨last, reached, shard, found, leads, positive, within, spread, ids⟩ :
      ∃ last ∈ ledLog.foldlM (step Fsm.exampleHost.id) {}, ∃ shard ∈ last.registry.shard 1,
        shard.leader = 2 ∧ 0 < shard.updated ∧ shard.updated ≤ last.manager.index ∧
          ((last.registry.replicaIterateByShardID 1).map fun replica => uuidKey replica.hostID).Nodup ∧
          (last.registry.replicaIterateByShardID 1).map Replica.id = [1, 2] := by
    decide +kernel
  have path : Path (Steps Fsm.exampleHost.id) {} ledLog last := by
    rw [steps_eq_step]
    exact Path.iff_foldlM.mpr reached
  have clear : AlwaysStep (Steps Fsm.exampleHost.id) {} ledLog (ClearPings Fsm.exampleHost.id) := by
    intro front event back state split reached answers ticks
    subst ticks
    constructor
    · have listed : RoutingEvent.tick answers ∈ ledLog := by simp [split]
      obtain rfl : answers = .stable fun _ => .ok 1 := by simpa [ledLog, promptTick] using listed
      exact fun _ => ⟨1, rfl⟩
    · rw [steps_eq_step] at reached
      have all := AlwaysStep.of_checks (fun _ _ => id) checked front _ back state split reached
      simp only [distinctPings, List.all_eq_true, decide_eq_true_eq] at all
      exact fun left memLeft right memRight differ => (all left memLeft right memRight).resolve_left differ
  have puts (entry : Entry) (replica : Replica) (listed : .command entry ∈ ledLog) :
      entry.cmd ≠ .replica .put replica := by
    simp only [ledLog, promptTick, List.mem_cons, RoutingEvent.command.injEq, reduceCtorEq, List.not_mem_nil,
      or_false] at listed
    obtain rfl | rfl | rfl | rfl | rfl | rfl := listed
    all_goals simp [newCmdShardPost, newCmdReplicaPost, newCmdShardLeaderSet]
  obtain ⟨source, answers, -, ⟨list, listed, lists⟩, -, leader, -⟩ :=
    routing_refines path clear puts found positive within spread
  refine ⟨last, list, path, listed, ?_, lists.ascending, leader.mpr ?_⟩
  · have length := lists.hosts.length_eq
    simp only [List.length_map] at length
    rw [length, ← List.length_map (f := Replica.id), ids]
    rfl
  · rw [leads]
    exact List.mem_map.mp (ids ▸ by simp)

end Routing

end Refinement

end Zongzi
