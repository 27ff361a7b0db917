import Zongzi.Proofs.RaftGroups
import Zongzi.Proofs.References

/-! # Raft groups hold what the registry has assigned

A replica is started as one that joins only once it was accepted. Where the texts of host identifiers are canonical,
the members of the raft groups were assigned by some registry, with the same shard, host and vote: an identifier with
fewer hyphens has a longer key, and the scan for another host may find its replicas. An identifier is assigned once, so
members that share one are the same replica, unless a put has moved it.
-/

namespace Zongzi

open Std Machine Relation

variable {ι : Type} {setups : ι → HostController.Setup}

section Runs

variable [DecidableEq ι] {agents : String → Agent} {moves : List (Move FabricEvent (ι ⊕ String × ℕ) ℕ FabricChoice)}
  {actors : Actors Fabric (ι ⊕ String × ℕ) ℕ FabricOp FabricRes ℕ}

theorem Fabric.sound_fresh (agents : String → Agent) : (Fabric.fresh agents).Sound where
  current := List.mem_singleton.mpr rfl
  sent := by simp [fresh]
  requested := by simp [fresh]
  members := by simp [fresh]
  answers := by simp [fresh]

theorem fabric_kept (path : Path (raftGroups setups).Steps (idleFabric agents) moves actors) :
    (fabricContract setups).Kept actors := by
  have initial : (fabricContract setups).Kept (idleFabric agents) :=
    ActorSystem.Contract.kept_idle (fun _ => rfl) fun _ => Fabric.sound_fresh agents
  exact (ActorSystem.Contract.always_kept fabricContract_valid initial fun _ _ _ _ _ _ _ _ => trivial).last path

theorem sound_of_path (path : Path (raftGroups setups).Steps (idleFabric agents) moves actors) :
    actors.shared.Sound :=
  (fabric_kept path).inv (.inr ("", 0))

/-- A controller whose agent has registered every type. -/
def joiningSetup (_ : Unit) : HostController.Setup where
  hostID := "00000000-0000-4000-8000-000000000000"
  shardTypes _ := some { factory := .stateMachine }

def readyAgents : String → Agent := fun _ => { status := .ready }

/-- A shard with a member on another host gets a replica without a vote, and its host joins the shard: the request is
handled and confirmed, and the replica is about to start. -/
def joiningMoves : List (Move FabricEvent (Unit ⊕ String × ℕ) ℕ FabricChoice) :=
  let hostID := (joiningSetup ()).hostID
  let other := "00000000-0000-4000-8000-000000000001"
  let request := { hostID, shardID := 1, replicaID := 2, isNonVoting := true }
  let read := FabricChoice.host (.agent (.snapshot fun _ => []))
  [.outside (.entry { index := 1, cmd := .host .put { id := hostID, tags := some ∅ } }),
    .outside (.entry { index := 2, cmd := .host .put { id := other, apiAddress := "b", tags := some ∅ } }),
    .outside (.entry { index := 3, cmd := newCmdShardPost { name := "a" } }),
    .outside (.entry { index := 4, cmd := newCmdReplicaPost other 1 false }),
    .outside (.entry { index := 5, cmd := newCmdReplicaPost hostID 1 true }),
    .start (.inl ()) 1, .call (.inl ()) read, .call (.inl ()) (.host (.running [])),
    .call (.inl ()) (.host (.agent (.order [0]))), .call (.inl ()) (.host (.agent (.order [0]))), .call (.inl ()) read,
    .call (.inl ()) .passed,
    .start (.inr ("b", 0)) 0, .call (.inr ("b", 0)) (.received request),
    .call (.inr ("b", 0)) (.host (.agent .serve)),
    .call (.inr ("b", 0)) (.view { nodes := ∅, nonVotings := ∅, configChangeID := 0 }),
    .call (.inr ("b", 0)) (.raft true none), .call (.inr ("b", 0)) .passed,
    .call (.inl ()) (.answered 2)]

/-- Is the program about to start a replica as one that joins? -/
def isJoining : Option (FabricM ℕ) → Bool
  | some (.call (.host (.startReplica _ _ true _)) _) => true
  | _ => false

private theorem of_isJoining {running : Option (FabricM ℕ)} (joining : isJoining running) :
    ∃ factory members config continue_,
      running = some (.call (.host (.startReplica factory members true config)) continue_) := by
  unfold isJoining at joining
  split at joining
  · exact ⟨_, _, _, _, rfl⟩
  · cases joining

private theorem joiningMoves_run :
    ∃ actors, Path (raftGroups joiningSetup).Steps (idleFabric readyAgents) joiningMoves actors ∧
      isJoining (actors.running (.inl ())) ∧ ∃ member, actors.shared.members = [member] := by
  obtain ⟨actors, ran, joining, one⟩ : ∃ actors ∈ (raftGroups joiningSetup).run (idleFabric readyAgents) joiningMoves,
      isJoining (actors.running (.inl ())) ∧ actors.shared.members.length = 1 := by
    decide +kernel
  exact ⟨actors, ActorSystem.path_iff_run.mpr ran, joining, List.length_eq_one_iff.mp one⟩

/-- A controller that is about to start a replica as one that joins, starts one that its raft group has accepted. -/
theorem joins_accepted (path : Path (raftGroups setups).Steps (idleFabric agents) moves actors)
    {i : ι ⊕ String × ℕ} {factory : Factory} {members : Option (ExtTreeMap ℕ String)} {config : ReplicaConfig}
    {continue_ : Except String Unit → FabricM ℕ}
    (starts : actors.running i = some (.call (.host (.startReplica factory members true config)) continue_)) :
    actors.shared.Accepted config.shardID config.replicaID config.isNonVoting :=
  ((fabric_kept path).guard starts).2 rfl

/-- The replica that joins was accepted before it starts. -/
theorem joined_replica_accepted :
    ∃ actors factory members config continue_,
      Path (raftGroups joiningSetup).Steps (idleFabric readyAgents) joiningMoves actors ∧
      actors.running (.inl ()) = some (.call (.host (.startReplica factory members true config)) continue_) ∧
      actors.shared.Accepted config.shardID config.replicaID config.isNonVoting := by
  obtain ⟨actors, path, joining, -⟩ := joiningMoves_run
  obtain ⟨factory, members, config, continue_, starts⟩ := of_isJoining joining
  exact ⟨actors, factory, members, config, continue_, path, starts, joins_accepted path starts⟩

end Runs

namespace Fabric

variable {fabric next : Fabric}

theorem accept_eq_some {members : List AddRequest} {choice : FabricChoice} {answer : Except String Unit}
    (served : fabric.accept members choice = some (answer, next)) :
    next.cluster = fabric.cluster ∧ next.past = fabric.past := by
  unfold accept at served
  split at served
  all_goals cases served
  all_goals exact ⟨rfl, rfl⟩

/-- Raft and the network leave the registry alone. -/
theorem serve_cases {op : FabricOp} {choice : FabricChoice} {answer : FabricRes op}
    (served : fabric.serve op choice = some (answer, next)) :
    (next.cluster = fabric.cluster ∧ next.past = fabric.past) ∨
      ∃ inner result, op = .host inner ∧ fabric.onHost inner choice = some (result, next) := by
  cases op with
  | host op =>
    cases op with
    | agent op =>
      cases op with
      | syncGetShardMembership shardID =>
        left
        simp only [serve] at served
        split at served
        · cases (Option.ite_none_right_eq_some.mp served).2
          exact ⟨rfl, rfl⟩
        · cases served
          exact ⟨rfl, rfl⟩
        · cases served
      | syncRequestAdd =>
        obtain ⟨cluster, past⟩ := accept_eq_some (by exact served)
        exact .inl ⟨cluster, past⟩
      | _ => exact .inr ⟨_, _, rfl, served⟩
    | startReplica => exact .inl (accept_eq_some served)
    | _ => exact .inr ⟨_, _, rfl, served⟩
  | _ =>
    left
    simp only [serve] at served
    split at served
    all_goals first
      | cases served
        exact ⟨rfl, rfl⟩
      | cases (Option.ite_none_right_eq_some.mp served).2
        exact ⟨rfl, rfl⟩
      | cases served

/-- A property of the registries there have been, kept by every entry that fits. -/
structure Inherited (fits : Entry → Prop) (kept : Fabric → Prop) : Prop where
  status : ∀ index id status, fits { index, cmd := newCmdReplicaUpdateStatus id status }
  of_eq : ∀ {fabric next : Fabric}, kept fabric → next.cluster = fabric.cluster → next.past = fabric.past → kept next
  idle : ∀ {fabric : Fabric} {cluster : Cluster}, fabric.Sound → kept fabric →
    cluster.registry = fabric.cluster.registry → kept (fabric.take cluster)
  advance : ∀ {fabric : Fabric} {cluster : Cluster} {entry : Entry}, fabric.Sound → kept fabric →
    Fsm.Advances fabric.cluster.registry entry cluster.registry → fits entry → kept (fabric.take cluster)

variable {fits : Entry → Prop} {kept : Fabric → Prop}

theorem Inherited.serve (inherited : Inherited fits kept) (sound : fabric.Sound) (before : kept fabric) {op : FabricOp}
    {choice : FabricChoice} {answer : FabricRes op} (warrants : fabric.Warrants op)
    (served : fabric.serve op choice = some (answer, next)) : kept next := by
  obtain ⟨cluster, past⟩ | ⟨inner, result, rfl, moved⟩ := serve_cases served
  · exact inherited.of_eq before cluster past
  · obtain ⟨_, cluster, -, taken, rfl⟩ := onHost_eq_some moved
    obtain same | ⟨cmd, index, rfl, advances⟩ := HostController.registry_of_serve taken
    · exact inherited.idle sound before same
    · obtain ⟨id, rfl⟩ := warrants
      exact inherited.advance sound before advances (inherited.status index id .active)

theorem Inherited.outside (inherited : Inherited fits kept) (sound : fabric.Sound) (before : kept fabric)
    {event : FabricEvent} (fit : ∀ entry, event = .entry entry → fits entry)
    (moved : fabric.outside event = some next) :
    kept next := by
  cases event with
  | entry entry =>
    obtain ⟨cluster, taken, rfl⟩ := Option.map_eq_some_iff.mp moved
    exact inherited.advance sound before (Cluster.take_eq_some taken).1 (fit entry rfl)
  | land change =>
    cases (Option.ite_none_right_eq_some.mp moved).2
    exact inherited.of_eq before rfl rfl
  | agent apiAddress agent =>
    cases moved
    exact inherited.idle sound before rfl

end Fabric

section Inherited

variable [DecidableEq ι] {agents : String → Agent} {moves : List (Move FabricEvent (ι ⊕ String × ℕ) ℕ FabricChoice)}
  {actors : Actors Fabric (ι ⊕ String × ℕ) ℕ FabricOp FabricRes ℕ} {fits : Entry → Prop} {kept : Fabric → Prop}

theorem Fabric.Inherited.of_path (inherited : Inherited fits kept) (initial : kept (fresh agents))
    (fit : ∀ entry, .outside (.entry entry) ∈ moves → fits entry)
    (path : Path (raftGroups setups).Steps (idleFabric agents) moves actors) : kept actors.shared := by
  have fitting : AlwaysStep (raftGroups setups).Steps (idleFabric agents) moves fun _ move =>
      ∀ entry, move = .outside (.entry entry) → fits entry := by
    rintro front move back state rfl - entry rfl
    exact fit entry (List.mem_append_right _ List.mem_cons_self)
  have always : Always (raftGroups setups).Steps (idleFabric agents) moves fun actors => kept actors.shared := by
    refine fitting.always initial fun front move back before after split reached holds fits moved => ?_
    have sound := sound_of_path reached
    cases move with
    | outside event =>
      obtain ⟨shared, stepped, rfl⟩ := ActorSystem.steps_outside moved
      exact inherited.outside sound holds (fun entry is => fits entry (is ▸ rfl)) stepped
    | start i argument =>
      obtain ⟨-, rfl⟩ := ActorSystem.steps_start moved
      exact holds
    | call i choice =>
      obtain ⟨op, continue_, answer, shared, calling, served, rfl⟩ := ActorSystem.steps_call moved
      exact inherited.serve sound holds ((fabric_kept reached).guard calling) served
    | finish i =>
      obtain ⟨result, -, rfl⟩ := ActorSystem.steps_finish moved
      exact holds
  exact always.last path

end Inherited

section Canonical

/-- The registry has such a replica on that host. Two texts of one identifier name one host. -/
def State.Assigns (state : State) (member : AddRequest) : Prop :=
  ∃ replica, state.replica member.replicaID = some replica ∧ replica.shardID = member.shardID ∧
    replica.isNonVoting = member.isNonVoting ∧ uuidKey replica.hostID = uuidKey member.hostID

/-- An entry that writes host identifiers in their canonical text only. -/
def Entry.Canonical (entry : Entry) : Prop := ∀ hostID, Topology.WritesHostID entry hostID → CanonicalUUID hostID

/-- Every registry has canonical host identifiers. -/
def Fabric.Canonical (fabric : Fabric) : Prop := ∀ state ∈ fabric.past, state.topology.Describes CanonicalUUID

theorem Fabric.canonical_inherited : Inherited Entry.Canonical Canonical where
  status := by
    rintro index id status hostID (⟨host, cmd, -⟩ | ⟨action, replica, cmd, writes, -⟩)
    · cases cmd
    · cases cmd
      simp at writes
  of_eq canonical _ past := by rwa [Canonical, past]
  idle sound canonical same := by
    refine List.forall_mem_cons.mpr ⟨?_, canonical⟩
    rw [same]
    exact canonical _ sound.current
  advance sound canonical advances fits := by
    refine List.forall_mem_cons.mpr ⟨?_, canonical⟩
    obtain ⟨-, -, result, updated⟩ := advances
    exact (Fsm.update_refines updated).describes (canonical _ sound.current) fits

/-- The scan for a host finds its own replicas only. -/
theorem State.Lists.assigns {state : State} {member : AddRequest} (lists : state.Lists member)
    (canonical : state.topology.Describes CanonicalUUID) : state.Assigns member := by
  obtain ⟨replica, found, ofShard, voting, hosted⟩ := lists
  refine ⟨replica, found, ofShard, voting, ?_⟩
  rcases hosted with hosted | ⟨key, parsed, present, scanned⟩
  · exact hosted
  · obtain ⟨host, stored⟩ := Option.isSome_iff_exists.mp present
    obtain ⟨named, form⟩ := canonical.hosts key host.id (by simp [State.topology, stored])
    have own := canonical.replicas member.replicaID replica.placement (by simp [State.topology, found])
    exact (form.of_scans named own scanned).trans parsed.symm

variable [DecidableEq ι] {agents : String → Agent} {moves : List (Move FabricEvent (ι ⊕ String × ℕ) ℕ FabricChoice)}
  {actors : Actors Fabric (ι ⊕ String × ℕ) ℕ FabricOp FabricRes ℕ}

theorem assigns_of_path (canonical : ∀ entry, .outside (.entry entry) ∈ moves → entry.Canonical)
    (path : Path (raftGroups setups).Steps (idleFabric agents) moves actors) :
    ∀ member ∈ actors.shared.members, ∃ state ∈ actors.shared.past, state.Assigns member := by
  intro member listed
  have initial : (Fabric.fresh agents).Canonical :=
    List.forall_mem_singleton.mpr (Fsm.describes_empty _)
  obtain ⟨state, known, lists⟩ := (sound_of_path path).members member listed
  exact ⟨state, known, lists.assigns (Fabric.canonical_inherited.of_path initial canonical path state known)⟩

/-- Whatever is lost, delayed or repeated, every member of a raft group was assigned by a registry, to the same shard
and host and with the same vote, where the entries from outside write canonical host identifiers. -/
theorem raft_members_assigned (canonical : ∀ entry, .outside (.entry entry) ∈ moves → entry.Canonical)
    (path : Path (raftGroups setups).Steps (idleFabric agents) moves actors) :
    ∀ member ∈ actors.shared.members, ∃ state ∈ actors.shared.past, state.Assigns member :=
  assigns_of_path canonical path

private theorem joiningMoves_entries {entry : Entry} (listed : .outside (.entry entry) ∈ joiningMoves) :
    entry.Canonical ∧ ∀ replica, entry.cmd ≠ .replica .put replica := by
  simp only [joiningMoves, List.mem_cons, Move.outside.injEq, FabricEvent.entry.injEq, reduceCtorEq, or_false,
    List.not_mem_nil] at listed
  refine ⟨?_, ?_⟩
  · rintro hostID (⟨host, cmd, rfl⟩ | ⟨action, replica, cmd, -, rfl⟩)
    all_goals
      rcases listed with rfl | rfl | rfl | rfl | rfl
      all_goals
        cases cmd
      all_goals decide
  · rcases listed with rfl | rfl | rfl | rfl | rfl
    all_goals simp [newCmdShardPost, newCmdReplicaPost]

/-- The replica that joins has become a member, and it was assigned. -/
theorem joined_member_assigned :
    ∃ actors member, Path (raftGroups joiningSetup).Steps (idleFabric readyAgents) joiningMoves actors ∧
      actors.shared.members = [member] ∧ ∃ state ∈ actors.shared.past, state.Assigns member := by
  obtain ⟨actors, path, -, member, only⟩ := joiningMoves_run
  refine ⟨actors, member, path, only, ?_⟩
  exact raft_members_assigned (fun _ listed => (joiningMoves_entries listed).1) path member
    (only ▸ List.mem_singleton.mpr rfl)

end Canonical

section Identity

/-- One replica, whatever else has changed of its record. -/
def Replica.Same (left right : Replica) : Prop :=
  left.shardID = right.shardID ∧ left.isNonVoting = right.isNonVoting ∧ left.hostID = right.hostID

theorem Replica.Same.symm {left right : Replica} (same : left.Same right) : right.Same left :=
  ⟨same.1.symm, same.2.1.symm, same.2.2.symm⟩

theorem Replica.Same.trans {left middle right : Replica} (first : left.Same middle) (second : middle.Same right) :
    left.Same right :=
  ⟨first.1.trans second.1, first.2.1.trans second.2.1, first.2.2.trans second.2.2⟩

/-- A record of a replica has an older one of the same replica, or its identifier is new. -/
theorem Ledger.Step.replica_origin {ledger next : Ledger} {entry : Entry} (step : ledger.Step entry next)
    (regular : ∀ replica, entry.cmd ≠ .replica .put replica) {id : ℕ} {new : Replica}
    (found : next.replicas id = some new) :
    (∃ old, ledger.replicas id = some old ∧ new.Same old) ∨ id = (ledger.replicaID + 1) % 2 ^ 64 ∧
      ∃ replica, entry.cmd = .replica .post replica := by
  cases step with
  | idle => exact .inl ⟨new, found, rfl, rfl, rfl⟩
  | host => exact .inl ⟨new, (PartialTable.dropWhere_eq_some_iff.mp found).1, rfl, rfl, rfl⟩
  | shardPost => exact .inl ⟨new, found, rfl, rfl, rfl⟩
  | shardLeader => exact .inl ⟨new, found, rfl, rfl, rfl⟩
  | shard => exact .inl ⟨new, (PartialTable.dropWhere_eq_some_iff.mp found).1, rfl, rfl, rfl⟩
  | replicaPost cmd fresh =>
    rcases PartialTable.of_update found with kept | ⟨rfl, -⟩
    · exact .inl ⟨new, kept, rfl, rfl, rfl⟩
    · exact .inr ⟨fresh, _, cmd⟩
  | @replica other stored owner record present write =>
    rcases PartialTable.of_update found with kept | ⟨rfl, written⟩
    · exact .inl ⟨new, kept, rfl, rfl, rfl⟩
    · refine .inl ⟨stored, present, ?_⟩
      cases write with
      | status => cases written; exact ⟨rfl, rfl, rfl⟩
      | tags => cases written; exact ⟨rfl, rfl, rfl⟩
      | put is => exact absurd is (regular _)
      | del => cases written

/-- An identifier that is new is beyond all that were ever in use. -/
theorem Fsm.Advances.replica_origin {state next : State} {entry : Entry} (advances : Advances state entry next)
    (orderly : state.Orderly) (regular : ∀ replica, entry.cmd ≠ .replica .put replica) {id : ℕ} {new : Replica}
    (found : next.replica id = some new) :
    (∃ old, state.replica id = some old ∧ new.Same old) ∨ state.replicaID < id := by
  obtain ⟨later, bounded, result, updated⟩ := advances
  obtain origin | ⟨fresh, replica, cmd⟩ := (update_ledger updated).replica_origin regular found
  · exact .inl origin
  · have counted : state.replicaID ≤ state.index := orderly.identifiers.replicaID
    change id = (state.replicaID + 1) % 2 ^ 64 at fresh
    right
    omega

theorem Fsm.Advances.replicaID_le {state next : State} {entry : Entry} (advances : Advances state entry next)
    (orderly : state.Orderly) : state.replicaID ≤ next.replicaID := by
  obtain ⟨later, bounded, result, updated⟩ := advances
  have post : entry.isPost.toNat ≤ 1 := Bool.toNat_le _
  exact ((update_refines updated).within orderly.identifiers (by omega)).2.2

namespace Fabric

variable {fabric next : Fabric}

/-- All registries agree on the replicas that they have. -/
structure Consistent (fabric : Fabric) : Prop where
  orderly : fabric.cluster.registry.Orderly
  counted : ∀ state ∈ fabric.past, ∀ id replica, state.replica id = some replica →
    id ≤ fabric.cluster.registry.replicaID
  same : ∀ left ∈ fabric.past, ∀ right ∈ fabric.past, ∀ id one other, left.replica id = some one →
    right.replica id = some other → one.Same other

/-- What the next registry has, an earlier one has, or its identifier is new. -/
theorem Consistent.take (consistent : fabric.Consistent) {cluster : Cluster} (orderly : cluster.registry.Orderly)
    (grows : fabric.cluster.registry.replicaID ≤ cluster.registry.replicaID)
    (origin : ∀ id new, cluster.registry.replica id = some new →
      (∃ state ∈ fabric.past, ∃ old, state.replica id = some old ∧ new.Same old) ∨
        fabric.cluster.registry.replicaID < id) : (fabric.take cluster).Consistent where
  orderly
  counted := by
    intro state listed id replica found
    rcases List.mem_cons.mp listed with rfl | listed
    · exact orderly.identifiers.replicas id (by simpa [State.topology] using Option.isSome_iff_exists.mpr ⟨_, found⟩)
    · exact (consistent.counted state listed id replica found).trans grows
  same := by
    have apart : ∀ right ∈ fabric.past, ∀ id one other, cluster.registry.replica id = some one →
        right.replica id = some other → one.Same other := by
      intro right listed id one other found present
      obtain ⟨state, known, old, stored, same⟩ | beyond := origin id one found
      · exact same.trans (consistent.same state known right listed id old other stored present)
      · have counted := consistent.counted right listed id other present
        omega
    intro left first right second id one other found present
    rcases List.mem_cons.mp first with rfl | first
    · rcases List.mem_cons.mp second with rfl | second
      · cases found.symm.trans present
        exact ⟨rfl, rfl, rfl⟩
      · exact apart right second id one other found present
    · rcases List.mem_cons.mp second with rfl | second
      · exact (apart left first id other one present found).symm
      · exact consistent.same left first right second id one other found present

theorem Consistent.advance (consistent : fabric.Consistent) (sound : fabric.Sound) {cluster : Cluster} {entry : Entry}
    (advances : Fsm.Advances fabric.cluster.registry entry cluster.registry)
    (regular : ∀ replica, entry.cmd ≠ .replica .put replica) : (fabric.take cluster).Consistent := by
  refine consistent.take (advances.orderly consistent.orderly) (advances.replicaID_le consistent.orderly) ?_
  intro id new found
  refine (advances.replica_origin consistent.orderly regular found).imp_left ?_
  rintro ⟨old, stored, same⟩
  exact ⟨_, sound.current, old, stored, same⟩

theorem Consistent.idle (consistent : fabric.Consistent) (sound : fabric.Sound) {cluster : Cluster}
    (same : cluster.registry = fabric.cluster.registry) : (fabric.take cluster).Consistent := by
  refine consistent.take (same ▸ consistent.orderly) (by rw [same]) ?_
  intro id new found
  rw [same] at found
  exact .inl ⟨_, sound.current, new, found, rfl, rfl, rfl⟩

theorem Consistent.of_eq (consistent : fabric.Consistent) (cluster : next.cluster = fabric.cluster)
    (past : next.past = fabric.past) : next.Consistent where
  orderly := cluster ▸ consistent.orderly
  counted := by
    rw [cluster, past]
    exact consistent.counted
  same := past ▸ consistent.same

/-- An entry that rewrites no replica. -/
def Regular (entry : Entry) : Prop := ∀ replica, entry.cmd ≠ .replica .put replica

theorem consistent_inherited : Inherited Regular Consistent where
  status _ _ _ _ := by simp [newCmdReplicaUpdateStatus]
  of_eq := Consistent.of_eq
  idle sound consistent same := consistent.idle sound same
  advance sound consistent advances regular := consistent.advance sound advances regular

end Fabric

section Distinct

variable [DecidableEq ι] {agents : String → Agent}
  {moves : List (Move FabricEvent (ι ⊕ String × ℕ) ℕ FabricChoice)}
  {actors : Actors Fabric (ι ⊕ String × ℕ) ℕ FabricOp FabricRes ℕ}

theorem Fabric.consistent_fresh (agents : String → Agent) : (fresh agents).Consistent where
  orderly := State.orderly_empty
  counted := by simp [fresh, State.replica, ReplicaTable.empty]
  same := by simp [fresh, State.replica, ReplicaTable.empty]

/-- Where no replica is rewritten by a put and host identifiers are canonical, members of the raft groups with one
identifier are one replica: they agree in shard, host and vote. -/
theorem raft_members_distinct (canonical : ∀ entry, .outside (.entry entry) ∈ moves → entry.Canonical)
    (regular : ∀ entry, .outside (.entry entry) ∈ moves → Fabric.Regular entry)
    (path : Path (raftGroups setups).Steps (idleFabric agents) moves actors) :
    ∀ left ∈ actors.shared.members, ∀ right ∈ actors.shared.members, left.replicaID = right.replicaID →
      left.shardID = right.shardID ∧ left.isNonVoting = right.isNonVoting ∧
        uuidKey left.hostID = uuidKey right.hostID := by
  intro left first right second alike
  have consistent := Fabric.consistent_inherited.of_path (Fabric.consistent_fresh agents) regular path
  obtain ⟨state, known, one, found, ofShard, voting, hosted⟩ := assigns_of_path canonical path left first
  obtain ⟨state', known', other, found', ofShard', voting', hosted'⟩ := assigns_of_path canonical path right second
  rw [← alike] at found'
  obtain ⟨shard, vote, host⟩ := consistent.same state known state' known' _ one other found found'
  refine ⟨ofShard.symm.trans (shard.trans ofShard'), voting.symm.trans (vote.trans voting'), ?_⟩
  rw [← hosted, ← hosted', host]

/-- The run in which a replica joins rewrites none. -/
theorem joined_members_distinct :
    ∃ actors, Path (raftGroups joiningSetup).Steps (idleFabric readyAgents) joiningMoves actors ∧
      actors.shared.members ≠ [] ∧
      ∀ left ∈ actors.shared.members, ∀ right ∈ actors.shared.members, left.replicaID = right.replicaID →
        left.shardID = right.shardID ∧ left.isNonVoting = right.isNonVoting ∧
          uuidKey left.hostID = uuidKey right.hostID := by
  obtain ⟨actors, path, -, member, only⟩ := joiningMoves_run
  refine ⟨actors, path, by simp [only], raft_members_distinct ?_ ?_ path⟩
  · exact fun _ listed => (joiningMoves_entries listed).1
  · exact fun _ listed => (joiningMoves_entries listed).2

end Distinct

end Identity

end Zongzi
