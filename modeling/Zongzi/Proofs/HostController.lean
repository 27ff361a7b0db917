import Zongzi.Model.HostController
import Zongzi.Proofs.ControllerManager

/-! # What a host controller has started

A tick that raises the index of a host controller has found the shard of every replica assigned to its host,
and every replica of a registered type was running or has been started and reported active. Every change of
an assignment stamps the host with a later update time, so this stays true until the host is stamped again.
-/

namespace Zongzi

open Std Machine Relation

/-- A status in which a host controller starts a replica. -/
def ReplicaStatus.isStartable : ReplicaStatus → Bool
  | .bootstrapping | .joining | .active => true
  | _ => false

/-- No replica put, and no status in which a replica is not started. -/
def Cmd.isRegular : Cmd → Bool
  | .replica .put _ => false
  | .replica .statusUpdate named => named.status.isStartable
  | _ => true

namespace HostController

abbrev Calls : Type := List (Σ op, HostRes op)

/-- The replica was running when a tick looked. -/
def WasRunning (calls : Calls) (id : ℕ) : Prop :=
  ∃ infos : List ShardInfo, ⟨.getNodeHostInfo, infos⟩ ∈ calls ∧ ∃ info ∈ infos, info.replicaID = id

/-- The replica was started without an error, and then its status update was applied. -/
def WasStarted (calls : Calls) (id : ℕ) : Prop :=
  ∃ factory members join, ∃ config : ReplicaConfig, ∃ result : Result,
    config.replicaID = id ∧ result.value = 1 ∧
    [⟨.startReplica factory members join config, .ok ()⟩,
      ⟨.agent (.propose (newCmdReplicaUpdateStatus id .active)), .ok result⟩] <:+: calls

/-- The replica was running when a tick looked, or a tick has started it. -/
def Ran (calls : Calls) (id : ℕ) : Prop := WasRunning calls id ∨ WasStarted calls id

section Calls

variable {setup : Setup} {fuel id : ℕ} {state : State} {calls more : Calls}
  {possible : (op : HostOp) → HostRes op → Prop}

theorem WasRunning.within (ran : WasRunning calls id) (part : calls <:+: more) : WasRunning more id := by
  obtain ⟨infos, member, listed⟩ := ran
  exact ⟨infos, part.subset member, listed⟩

theorem WasStarted.within (started : WasStarted calls id) (part : calls <:+: more) :
    WasStarted more id := by
  obtain ⟨factory, members, join, config, result, named, applied, made⟩ := started
  exact ⟨factory, members, join, config, result, named, applied, made.trans part⟩

theorem Ran.within (ran : Ran calls id) (part : calls <:+: more) : Ran more id :=
  ran.imp (·.within part) (·.within part)

/-- A replica in one of the three statuses is started by the last call, unless there is an error. -/
theorem startReplica_records {item : ShardType} {members : ExtTreeMap ℕ String} {shard : Shard}
    {replica : Replica} {err : Option String} (startable : replica.status.isStartable) :
    (startReplica setup fuel item members shard replica err).Records possible fun outcome calls =>
      outcome = some none → ∃ factory members join, ∃ config : ReplicaConfig,
        config.replicaID = replica.id ∧
        [⟨.startReplica factory members join config, .ok ()⟩] <:+ calls := by
  have started {factory : Factory} {members : Option (ExtTreeMap ℕ String)} {join : Bool}
      {config : ReplicaConfig} (before : Calls) (named : config.replicaID = replica.id) :
      Program.Records possible (do
          let started ← Program.perform (HostOp.startReplica factory members join config)
          return some (errorOf started)) fun outcome calls =>
        outcome = some none → ∃ factory members join, ∃ config : ReplicaConfig,
          config.replicaID = replica.id ∧
          [⟨.startReplica factory members join config, .ok ()⟩] <:+ before ++ calls := by
    intro answer _ unfailing
    cases answer with
    | error err => cases unfailing
    | ok _ => exact ⟨factory, members, join, config, named, List.suffix_append _ _⟩
  unfold startReplica
  cases status : replica.status with
  | bootstrapping =>
    dsimp only
    split
    · exact fun unfailing => by cases unfailing
    · exact started [] rfl
  | joining =>
    refine (Program.Records.any _).bind fun joined calls _ => ?_
    cases joined with
    | none => exact fun unfailing => by cases unfailing
    | some value => exact started calls rfl
  | active => exact started [] rfl
  | _ =>
    rw [status] at startable
    cases startable

/-- The shard of the replica has a type that the agent has not registered. -/
def IsForeign (setup : Setup) (state : State) (id : ℕ) : Prop :=
  ∃ replica shard, state.replica id = some replica ∧ state.shard replica.shardID = some shard ∧
    setup.shardTypes shard.type = none

/-- Without an error every replica that was not running was started, unless its type is not registered. -/
theorem startMissing_records
    (startable : ∀ id replica, state.replica id = some replica → replica.status.isStartable)
    (found : List (ℕ × Bool)) (err : Option String) (hadErr : Bool) :
    (startMissing setup fuel state found err hadErr).Records possible fun outcome calls =>
      outcome = some false → hadErr = false ∧
        ∀ id, (id, false) ∈ found → WasStarted calls id ∨ IsForeign setup state id := by
  induction found generalizing err hadErr with
  | nil =>
    intro ended
    exact ⟨Option.some.inj ended, by simp⟩
  | cons first found ih =>
    obtain ⟨id, running⟩ := first
    -- An error is not forgotten by the rest of the loop.
    have failing (err : Option String) (goal : Calls → Prop) :
        (startMissing setup fuel state found err true).Records possible fun outcome calls =>
          outcome = some false → goal calls :=
      (ih err true).mono fun outcome calls rest ended => by cases (rest ended).1
    cases running with
    | true =>
      refine (ih err hadErr).mono fun outcome calls rest ended => ?_
      obtain ⟨fine, each⟩ := rest ended
      refine ⟨fine, fun other member => ?_⟩
      obtain same | member := List.mem_cons.mp member
      · cases same
      · exact each other member
    | false =>
      simp only [startMissing, Bool.false_eq_true, if_false]
      cases present : state.replica id with
      | none => exact failing err _
      | some replica =>
        dsimp only
        cases owned : state.shard replica.shardID with
        | none => exact failing err _
        | some shard =>
          dsimp only
          cases registered : setup.shardTypes shard.type with
          | none =>
            refine (ih err hadErr).mono fun outcome calls rest ended => ?_
            obtain ⟨fine, each⟩ := rest ended
            refine ⟨fine, fun other member => ?_⟩
            obtain same | member := List.mem_cons.mp member
            · cases same
              exact .inr ⟨replica, shard, present, owned, registered⟩
            · exact each other member
          | some item =>
            refine (startReplica_records (startable id replica present)).bind fun outcome calls started => ?_
            match outcome with
            | none => exact fun ended => by cases ended
            | some (some err) => exact failing (some err) _
            | some none =>
              obtain ⟨factory, members, join, config, named, earlier, rfl⟩ := started rfl
              intro answer _
              cases answer with
              | error err => exact failing (some err) _
              | ok result =>
                refine (ih none (hadErr || result.value != 1)).mono fun outcome calls rest ended => ?_
                obtain ⟨fine, each⟩ := rest ended
                simp only [Bool.or_eq_false_iff, bne_eq_false_iff_eq] at fine
                refine ⟨fine.1, fun other member => ?_⟩
                obtain same | member := List.mem_cons.mp member
                · cases same
                  obtain rfl := State.replica_id present
                  exact .inl ⟨factory, members, join, config, result, named, fine.2, earlier, calls, by simp⟩
                · refine (each other member).imp_left fun started => started.within (List.IsSuffix.isInfix ?_)
                  exact (List.suffix_cons _ _).trans (List.suffix_append _ _)

section Found

variable {assigned : List Replica} {infos : List ShardInfo}

/-- Every assigned replica outside the prime shard is found. -/
theorem findReplicas_assigned (state : State) (infos : List ShardInfo) {replica : Replica} (member : replica ∈ assigned)
    (outside : 0 < replica.shardID) :
    ∃ running, (replica.id, running) ∈ (findReplicas state assigned infos).toList := by
  have listed : replica.id ∈ findReplicas state assigned infos := by
    refine List.foldlRecOn (motive := fun found : ExtTreeMap ℕ Bool => replica.id ∈ found) infos _ ?_
      fun found held info _ => ?_
    · obtain ⟨front, back, rfl⟩ := List.append_of_mem member
      rw [List.foldl_append, List.foldl_cons, if_pos outside]
      refine List.foldlRecOn (motive := fun found : ExtTreeMap ℕ Bool => replica.id ∈ found) back _ ?_
        fun found held other _ => ?_
      · exact ExtTreeMap.mem_insert_self
      · split
        · exact ExtTreeMap.mem_insert.mpr (.inr held)
        · exact held
    · split
      · exact ExtTreeMap.mem_insert.mpr (.inr held)
      · exact held
  obtain ⟨running, found⟩ := Option.isSome_iff_exists.mp (ExtTreeMap.mem_iff_isSome_getElem?.mp listed)
  exact ⟨running, ExtTreeMap.mem_toList_iff_getElem?_eq_some.mpr found⟩

/-- What is found running is on the list of the node host. -/
theorem findReplicas_running (found : (id, true) ∈ (findReplicas state assigned infos).toList) :
    ∃ info ∈ infos, info.replicaID = id := by
  have listed : ∀ id : ℕ, (findReplicas state assigned infos)[id]? = some true →
      ∃ info ∈ infos, info.replicaID = id := by
    refine List.foldlRecOn (motive := fun found : ExtTreeMap ℕ Bool => ∀ id : ℕ, found[id]? = some true →
      ∃ info ∈ infos, info.replicaID = id) infos _ ?_ fun found held info member id => ?_
    · intro id missing
      have unmarked : ∀ id : ℕ, (assigned.foldl (fun found replica =>
          if 0 < replica.shardID then found.insert replica.id false else found)
          (∅ : ExtTreeMap ℕ Bool))[id]? ≠ some true := by
        refine List.foldlRecOn (motive := fun found : ExtTreeMap ℕ Bool => ∀ id : ℕ, found[id]? ≠ some true)
          assigned _ ?_ fun found held replica _ id => ?_
        · simp
        · split
          · rw [ExtTreeMap.getElem?_insert]
            split
            · simp
            · exact held id
          · exact held id
      exact absurd missing (unmarked id)
    · split
      · next replica present =>
        rw [ExtTreeMap.getElem?_insert]
        split
        · next same =>
          intro _
          exact ⟨info, member, (State.replica_id present).symm.trans (Std.compare_eq_iff_eq.mp same)⟩
        · exact held id
      · exact held id
  exact listed id (ExtTreeMap.mem_toList_iff_getElem?_eq_some.mp found)

end Found

/-- Without an error every assigned replica outside the prime shard ran, unless its type is not
registered. -/
theorem startAssigned_records {assigned : List Replica}
    (startable : ∀ id replica, state.replica id = some replica → replica.status.isStartable) :
    (startAssigned setup fuel state assigned).Records possible fun outcome calls =>
      outcome = some false → ∀ replica ∈ assigned, 0 < replica.shardID →
        Ran calls replica.id ∨ IsForeign setup state replica.id := by
  intro infos _ order _
  have length := (findReplicas state assigned infos).length_toList
  refine (startMissing_records startable _ none false).mono fun outcome calls rest ended replica member outside => ?_
  obtain ⟨running, listed⟩ := findReplicas_assigned state infos member outside
  cases running with
  | true =>
    refine .inl (.inl ⟨infos, by simp, findReplicas_running listed⟩)
  | false =>
    have visited := (Program.mem_visited length order).mpr listed
    obtain ⟨-, each⟩ := rest ended
    refine (each replica.id visited).imp_left fun started => .inr (started.within (List.IsSuffix.isInfix ?_))
    exact (List.suffix_cons _ _).trans (List.suffix_cons _ _)

/-- What a tick asks for once it has its snapshot: it reports replicas active, and initial members are
those of the snapshot, at least three of them. -/
def Issues (state : State) : HostOp → Prop
  | .agent (.propose cmd) => ∃ id, cmd = newCmdReplicaUpdateStatus id .active
  | .startReplica _ (some members) _ config =>
    members = state.shardMembers config.shardID ∧ 3 ≤ members.size
  | _ => True

theorem addReplica_onlyCalls (apiAddress : String) (request : AddRequest) (fuel : ℕ) :
    (addReplica apiAddress request fuel).OnlyCalls (Issues state) := by
  induction fuel with
  | zero => trivial
  | succ fuel ih =>
    refine ⟨trivial, fun answer => ?_⟩
    cases answer with
    | ok value => trivial
    | error err => exact ih

theorem requestMembers_onlyCalls (request : AddRequest) (fuel : ℕ) (members : List (ℕ × String))
    (host : Option Host) (value : ℕ) :
    (requestMembers request fuel members host value).OnlyCalls (Issues state) := by
  induction members generalizing host value with
  | nil => trivial
  | cons member members ih =>
    unfold requestMembers
    refine .bind ⟨trivial, fun _ => trivial⟩ fun answer => ?_
    -- A failed read leaves the host of the member before, and either host is asked alike.
    cases answer
    all_goals simp only [pure_bind]
    case' error => generalize host = asked
    case' ok snapshot => generalize (snapshot.state.host member.2).toOption.join = asked
    all_goals
      cases asked with
      | none => exact ih none value
      | some found =>
        refine .bind (addReplica_onlyCalls ..) fun outcome => ?_
        cases outcome with
        | none => trivial
        | some value =>
          dsimp only
          split
          · trivial
          · exact ih (some found) value

theorem joinShard_onlyCalls (members : ExtTreeMap ℕ String) (request : AddRequest) (fuel : ℕ) :
    (joinShard members request fuel).OnlyCalls (Issues state) := by
  induction fuel with
  | zero => trivial
  | succ fuel ih =>
    refine .bind (.bind ⟨trivial, fun _ => trivial⟩ fun _ => requestMembers_onlyCalls ..) fun outcome => ?_
    cases outcome with
    | none => trivial
    | some value =>
      dsimp only
      split
      · trivial
      · exact ih

theorem startReplica_onlyCalls (item : ShardType) (shard : Shard) (replica : Replica) (err : Option String) :
    (startReplica setup fuel item (state.shardMembers shard.id) shard replica err).OnlyCalls
      (Issues state) := by
  unfold startReplica
  cases replica.status with
  | bootstrapping =>
    dsimp only
    split
    · trivial
    · next enough => exact ⟨⟨rfl, Nat.not_lt.mp enough⟩, fun _ => trivial⟩
  | joining =>
    refine .bind (joinShard_onlyCalls ..) fun outcome => ?_
    cases outcome with
    | none => trivial
    | some value => exact ⟨trivial, fun _ => trivial⟩
  | active => exact ⟨trivial, fun _ => trivial⟩
  | _ => trivial

theorem startMissing_onlyCalls (found : List (ℕ × Bool)) (err : Option String) (hadErr : Bool) :
    (startMissing setup fuel state found err hadErr).OnlyCalls (Issues state) := by
  induction found generalizing err hadErr with
  | nil => trivial
  | cons first found ih =>
    obtain ⟨id, running⟩ := first
    unfold startMissing
    split
    · exact ih ..
    · split
      · exact ih ..
      · split
        · exact ih ..
        · split
          · exact ih ..
          · refine .bind (startReplica_onlyCalls ..) fun outcome => ?_
            match outcome with
            | none => trivial
            | some (some err) => exact ih ..
            | some none =>
              refine ⟨⟨_, rfl⟩, fun answer => ?_⟩
              cases answer with
              | error err => exact ih ..
              | ok result => exact ih ..

theorem startAssigned_onlyCalls (assigned : List Replica) :
    (startAssigned setup fuel state assigned).OnlyCalls (Issues state) :=
  ⟨trivial, fun _ => ⟨trivial, fun _ => startMissing_onlyCalls ..⟩⟩

/-- A tick leaves the index alone or raises it to the update time of its host, and then it has passed every
assigned replica. -/
theorem reconcileHost_records (setup : Setup) (fuel index : ℕ)
    (startable : ∀ id replica, state.replica id = some replica → replica.status.isStartable) :
    (reconcileHost setup fuel index state).Records possible fun value calls =>
      value = index ∨ ∃ host assigned, state.host setup.hostID = .ok (some host) ∧
        state.replicaIterateByHostID setup.hostID = .ok assigned ∧ value = host.updated ∧
        ∀ replica ∈ assigned, 0 < replica.shardID →
          Ran calls replica.id ∨ IsForeign setup state replica.id := by
  unfold reconcileHost
  split
  · next host assigned found listed =>
    split
    · exact .inl rfl
    · refine (startAssigned_records startable).bind fun outcome calls passed => ?_
      match outcome with
      | some false => exact .inr ⟨host, assigned, found, listed, rfl, by simpa using passed rfl⟩
      | some true => exact .inl rfl
      | none => exact .inl rfl
  · exact .inl rfl

theorem reconcileHost_onlyCalls (index : ℕ) :
    (reconcileHost setup fuel index state).OnlyCalls (Issues state) := by
  unfold reconcileHost
  split
  · split
    · trivial
    · refine .bind (startAssigned_onlyCalls _) fun outcome => ?_
      match outcome with
      | some false => trivial
      | some true => trivial
      | none => trivial
  · trivial

end Calls

end HostController

section Registry

variable {before after state : State} {entry : Entry}

/-- No status in which a replica is not started. -/
structure State.Regular (state : State) : Prop extends State.Orderly state where
  startable : ∀ id replica, state.replica id = some replica → replica.status.isStartable

theorem State.regular_empty : ({} : State).Regular where
  toOrderly := State.orderly_empty
  startable id replica found := by simp [State.replica, ReplicaTable.empty] at found

theorem Ledger.Step.startable {ledger next : Ledger} (step : ledger.Step entry next)
    (regular : entry.cmd.isRegular)
    (startable : ∀ id replica, ledger.replicas id = some replica → replica.status.isStartable) {id : ℕ}
    {replica : Replica} (found : next.replicas id = some replica) : replica.status.isStartable := by
  cases step with
  | host => exact startable id replica (PartialTable.dropWhere_eq_some_iff.mp found).1
  | shard => exact startable id replica (PartialTable.dropWhere_eq_some_iff.mp found).1
  | replicaPost cmd fresh joins =>
    obtain kept | ⟨-, written⟩ := PartialTable.of_update found
    · exact startable id replica kept
    · cases written
      obtain ⟨rfl, -⟩ | ⟨rfl, -⟩ := joins
      · rfl
      · rfl
  | @replica other stored owner record present write =>
    obtain kept | ⟨-, rfl⟩ := PartialTable.of_update found
    · exact startable id replica kept
    · cases write with
      | status is =>
        rw [is] at regular
        exact regular
      | put is =>
        rw [is] at regular
        cases regular
      | tags => exact startable other stored present
  | _ => exact startable id replica found

/-- One entry that keeps to the statuses in which replicas are started. -/
def Fsm.RegularStep (before after : State) : Prop :=
  before.Regular ∧ ∃ entry, Advances before entry after ∧ entry.cmd.isRegular

theorem Fsm.RegularStep.regular (step : RegularStep before after) : after.Regular := by
  obtain ⟨regular, entry, advances, kind⟩ := step
  obtain ⟨result, updated⟩ := advances.applies
  exact ⟨advances.orderly regular.toOrderly, fun id replica found =>
    (update_ledger updated).startable kind regular.startable found⟩

theorem Fsm.RegularStep.index_le (step : RegularStep before after) : before.index ≤ after.index := by
  obtain ⟨-, entry, advances, -⟩ := step
  exact advances.index_le

theorem Fsm.regular_of_steps (steps : ReflTransGen RegularStep before after) (regular : before.Regular) :
    after.Regular := by
  induction steps with
  | refl => exact regular
  | tail _ step _ => exact step.regular

end Registry

namespace HostController

variable {setup : Setup} {state before after : State} {key : String} {ran more : ℕ → Prop}

/-- Every replica on the host, outside the prime shard, ran or has a type that is not registered. -/
def Settled (setup : Setup) (state : State) (key : String) (ran : ℕ → Prop) : Prop :=
  ∀ id replica, state.replica id = some replica → uuidKey replica.hostID = some key →
    0 < replica.shardID → ran id ∨ IsForeign setup state id

/-- Track whether the replicas of one host are settled. -/
def hostTracking (setup : Setup) (key : String) : Tracking State Unit ((ℕ → Prop) → Prop) where
  clock := State.index
  stamp state _ := (state.hosts.id[key]?).map Host.updated
  view state _ := Settled setup state key
  keeps old new := ∀ ran, old ran → new ran

/-- An entry that does not stamp the host leaves its replicas settled. -/
theorem settled_step (step : Fsm.RegularStep before after) {host : Host}
    (found : after.hosts.id[key]? = some host) (early : host.updated ≤ before.index)
    (settled : Settled setup before key ran) : Settled setup after key ran := by
  obtain ⟨regular, entry, advances, kind⟩ := step
  have vacant := advances.vacant regular.toOrderly
  have later := advances.later
  obtain ⟨result, updated⟩ := advances.applies
  have ledger := Fsm.update_ledger updated
  have unmarked {hostID : String} (onHost : uuidKey hostID = some key) :
      ¬ after.ledger.HostMarked hostID entry.index := by
    intro marked
    have := marked key host onHost found
    omega
  intro id replica present onHost outside
  have listed : before.replica id = some replica := by
    by_contra changed
    have put : ∀ replica, entry.cmd ≠ .replica .put replica := by
      rintro put is
      rw [is] at kind
      cases kind
    have announced := ledger.replica_announced vacant put (.inr present) fun same => changed (same.symm.trans present)
    refine unmarked onHost (announced.2.resolve_right fun ⟨_, _, gone⟩ => ?_)
    cases gone.symm.trans present
  refine (settled id replica listed onHost outside).imp_right fun ⟨stored, shard, again, owned, foreign⟩ => ?_
  cases listed.symm.trans again
  obtain marked | ⟨shard', kept, same⟩ := ledger.type_kept vacant listed owned
  · exact absurd marked (unmarked onHost)
  · exact ⟨replica, shard', present, kept, same ▸ foreign⟩

theorem hostTracking_tracks : (hostTracking setup key).Tracks Fsm.RegularStep where
  refl _ _ settled := settled
  trans first second ran settled := second ran (first ran settled)
  clock := Fsm.RegularStep.index_le
  stamps := by
    rintro before after ⟨⟩ time step stamped
    obtain ⟨host, found, rfl⟩ := Option.map_eq_some_iff.mp stamped
    obtain late | early := Nat.lt_or_ge before.index host.updated
    · exact .inl late
    · refine .inr ⟨?_, fun ran settled => settled_step step found early settled⟩
      obtain ⟨regular, entry, ⟨later, -, result, updated⟩, -⟩ := step
      have restamp := (Fsm.update_ledger updated).restamp_host key
      rw [show after.ledger.hosts key = some host from found] at restamp
      have unstamped : host.times.updated ≠ entry.index := by
        simp only [Host.times]
        omega
      obtain ⟨stored, present, same⟩ := Option.map_eq_some_iff.mp (restamp.of_unstamped unstamped)
      have updated : stored.updated = host.updated := congrArg Times.updated same
      exact Option.map_eq_some_iff.mpr ⟨stored, present, updated⟩

theorem Settled.mono (settled : Settled setup state key ran) (grows : ∀ id, ran id → more id) :
    Settled setup state key more := by
  intro id replica found onHost outside
  exact (settled id replica found onHost outside).imp_left (grows id)

/-- The index of the controller is not ahead of the registry, and while it marks off the host, the replicas
of the host are settled. -/
structure Tended (setup : Setup) (registry : State) (memory : HostMemory) : Prop where
  regular : registry.Regular
  behind : memory.index ≤ registry.index
  covered : ∀ key, uuidKey setup.hostID = some key →
    (hostTracking setup key).Covered (fun _ _ settled => settled (Ran memory.calls)) memory.index registry

section Tended

variable {registry : State} {memory : HostMemory}

theorem Tended.step (tended : Tended setup registry memory) (step : Fsm.RegularStep registry after) :
    Tended setup after memory where
  regular := step.regular
  behind := tended.behind.trans step.index_le
  covered key parsed := hostTracking_tracks.covered_step (fun keeps settled => keeps _ settled)
    (tended.covered key parsed) tended.behind step

theorem Tended.steps (tended : Tended setup registry memory)
    (steps : ReflTransGen Fsm.RegularStep registry after) : Tended setup after memory := by
  induction steps with
  | refl => exact tended
  | tail _ step ih => exact ih.step step

theorem Tended.grow (tended : Tended setup registry memory) (calls : Calls) :
    Tended setup registry { memory with calls := memory.calls ++ calls } where
  regular := tended.regular
  behind := tended.behind
  covered key parsed only time stamped early := by
    refine Settled.mono (tended.covered key parsed only time stamped early) fun id ran => ?_
    exact ran.within (List.prefix_append _ _).isInfix

/-- A tick without an error raises the index to the update time of the host in its snapshot. -/
theorem Tended.raise {snapshot : State} {assigned : List Replica} {host : Host} {calls : Calls}
    (tended : Tended setup registry memory) (regular : snapshot.Regular)
    (onwards : ReflTransGen Fsm.RegularStep snapshot registry)
    (found : snapshot.host setup.hostID = .ok (some host))
    (listed : snapshot.replicaIterateByHostID setup.hostID = .ok assigned)
    (passed : ∀ replica ∈ assigned, 0 < replica.shardID →
      Ran calls replica.id ∨ IsForeign setup snapshot replica.id) :
    Tended setup registry { index := host.updated, calls := memory.calls ++ calls } := by
  obtain ⟨key, parsed, present⟩ := State.host_eq_ok_iff.mp found
  obtain ⟨other, valid, rfl⟩ := State.replicaIterateByHostID_eq_ok_iff.mp listed
  cases parsed.symm.trans valid
  have dated : host.updated ≤ snapshot.index := (regular.hosts key host present).2
  have tracks : (hostTracking setup key).Tracks Fsm.RegularStep := hostTracking_tracks
  refine ⟨tended.regular, dated.trans (tracks.clock_le onwards), fun other valid => ?_⟩
  cases parsed.symm.trans valid
  refine tracks.covered_raise (fun keeps settled => keeps _ settled) onwards
    ((tended.grow calls).covered key parsed) dated fun _ time stamped new within => ?_
  intro id replica stored onHost outside
  obtain rfl := State.replica_id stored
  refine (passed replica ?_ outside).imp_left fun ran => ran.within (List.suffix_append _ _).isInfix
  exact State.mem_scanHost.mpr ⟨stored, scans_of_parsed onHost _⟩

end Tended

section Verify

variable {ι : Type} {setups : ι → Setup} {cluster next : Cluster}

/-- Controllers rely on the registry to keep to regular steps. -/
def contract (setups : ι → Setup) : (hostControllers setups).Contract where
  rely before after := before.registry.Regular → ReflTransGen Fsm.RegularStep before.registry after.registry
  permits _ entry := entry.cmd.isRegular
  guard _ _ op := ∀ cmd, op = .agent (.propose cmd) → cmd.isRegular
  inv i cluster memory := Tended (setups i) cluster.registry memory
  post i memory := fun (index, calls) cluster =>
    Tended (setups i) cluster.registry { index, calls := memory.calls ++ calls }

theorem steps_of_rely (others : ReflTransGen (contract setups).rely cluster next)
    (regular : cluster.registry.Regular) :
    ReflTransGen Fsm.RegularStep cluster.registry next.registry :=
  star_of_guarded (fun _ step => step.regular) others regular

theorem regular_of_issues {state : State} {op : HostOp} (issued : Issues state op) :
    ∀ cmd, op = .agent (.propose cmd) → cmd.isRegular := by
  rintro cmd rfl
  obtain ⟨id, rfl⟩ := issued
  rfl

/-- Serving a call changes the registry by the entry of a proposal, or not at all. -/
theorem registry_of_serve {op : HostOp} {choice : HostChoice} {answer : HostRes op}
    (served : serveHost cluster op choice = some (answer, next)) :
    next.registry = cluster.registry ∨ ∃ cmd index, op = .agent (.propose cmd) ∧
      Fsm.Advances cluster.registry { index, cmd } next.registry := by
  cases op with
  | agent op =>
    cases choice with
    | agent choice =>
      obtain kept | ⟨cmd, index, rfl, advances⟩ := Cluster.progress_of_serve served
      · exact .inl kept
      · exact .inr ⟨cmd, index, rfl, advances⟩
    | _ => cases served
  | getNodeHostInfo =>
    cases choice with
    | running infos =>
      cases served
      exact .inl rfl
    | _ => cases served
  | startReplica factory members join config =>
    cases choice with
    | started =>
      cases served
      exact .inl rfl
    | failed err =>
      cases served
      exact .inl rfl
    | _ => cases served
  | add address request =>
    cases choice with
    | added value =>
      cases served
      exact .inl rfl
    | failed err =>
      cases served
      exact .inl rfl
    | _ => cases served

theorem rely_of_serve {i : ι} {op : HostOp} {choice : HostChoice} {answer : HostRes op}
    (guarded : (contract setups).guard i cluster op)
    (served : serveHost cluster op choice = some (answer, next)) :
    (contract setups).rely cluster next := by
  intro regular
  obtain kept | ⟨cmd, index, rfl, advances⟩ := registry_of_serve served
  · exact kept ▸ .refl
  · exact .single ⟨regular, _, advances, guarded cmd rfl⟩

theorem registry_of_read {choice : HostChoice} {snapshot : Snapshot}
    (served : serveHost cluster (.agent .read) choice = some (.ok snapshot, next)) :
    snapshot.state = cluster.registry := by
  cases choice with
  | agent choice =>
    obtain ⟨-, served⟩ := Cluster.serveRegular_eq_some served
    cases choice with
    | snapshot hostIterateByTag =>
      cases served
      rfl
    | _ => cases served
  | _ => cases served

theorem tick_ensures (i : ι) (fuel : ℕ) {memory : HostMemory}
    (tended : Tended (setups i) cluster.registry memory) :
    (contract setups).Ensures i (tick (setups i) fuel memory.index).record cluster
      ((contract setups).post i memory) := by
  intro before others
  have steps := steps_of_rely others tended.regular
  have regular := Fsm.regular_of_steps steps tended.regular
  have guarded : (contract setups).guard i before (.agent .read) := fun cmd is => by cases is
  refine ⟨guarded, fun choice answer after served => ?_⟩
  have kept := rely_of_serve guarded served
  cases answer with
  | error err =>
    intro last rest
    exact (tended.steps (steps_of_rely ((others.tail kept).trans rest) tended.regular)).grow _
  | ok snapshot =>
    have same := registry_of_read served
    rw [← same] at regular
    have records : Program.Records (fun _ _ => True) _ _ :=
      reconcileHost_records (setups i) fuel memory.index regular.startable
    refine (ActorSystem.Contract.Ensures.of_returns (fun _ issued => regular_of_issues issued) (fun _ => trivial)
      (fun guarded served => .single (rely_of_serve guarded served))
      (Program.record_onlyCalls (reconcileHost_onlyCalls ..)) records.returns).bind
      fun (value, calls) middle ⟨outcome, onwards⟩ => ?_
    intro last rest
    have run := (others.tail kept).trans (onwards.trans rest)
    have tended := tended.steps (steps_of_rely run tended.regular)
    obtain rfl | ⟨host, assigned, found, listed, rfl, passed⟩ := outcome
    · exact tended.grow _
    · have taken := steps_of_rely (.head kept (onwards.trans rest)) (same ▸ regular)
      refine tended.raise regular (same ▸ taken) found listed fun replica member outside => ?_
      exact (passed replica member outside).imp_left (·.within (List.suffix_cons _ _).isInfix)

theorem contract_valid : (contract setups).Valid where
  stable tended rely := tended.steps (rely tended.regular)
  outside regular taken := fun good => .single ⟨good, _, (Cluster.take_eq_some taken).1, regular⟩
  calls guarded served := .single (rely_of_serve guarded served)
  starts fuel tended := tick_ensures _ fuel tended
  finishes ended := ended

end Verify

/-- Whenever the index of a host controller is not behind the update time of its host, every replica assigned
to the host outside the prime shard, of a registered type, was running when a tick looked or was started by
a tick and reported active. -/
theorem controller_misses_no_assignment {ι : Type} [DecidableEq ι] {setups : ι → Setup}
    {agents : String → Agent} {moves : List (Move Entry ι ℕ HostChoice)}
    (regular : AlwaysStep (hostControllers setups).Steps (idleControllers { registry := {}, agents }) moves
      fun _ move => ∀ entry, move = .outside entry → entry.cmd.isRegular) :
    Always (hostControllers setups).Steps (idleControllers { registry := {}, agents }) moves fun actors =>
      ∀ i host, actors.shared.registry.host (setups i).hostID = .ok (some host) →
        host.updated ≤ (actors.memory i).index →
        ∀ replica shard, actors.shared.registry.replica replica.id = some replica →
          uuidKey replica.hostID = uuidKey (setups i).hostID → 0 < replica.shardID →
          actors.shared.registry.shard replica.shardID = some shard →
          ((setups i).shardTypes shard.type).isSome → Ran (actors.memory i).calls replica.id := by
  have untouched (i : ι) : Tended (setups i) {} {} := by
    refine ⟨State.regular_empty, le_rfl, fun key _ only time stamped => ?_⟩
    simp [hostTracking, HostTable.empty] at stamped
  have kept := ActorSystem.Contract.always_kept contract_valid
    (ActorSystem.Contract.kept_idle (fun _ => rfl) untouched) regular
  intro front back actors split reached i host found early replica shard present onHost outside owned registered
  obtain ⟨key, parsed, stored⟩ := State.host_eq_ok_iff.mp found
  have tended := (kept front back actors split reached).inv i
  have stamped : (hostTracking (setups i) key).stamp actors.shared.registry () = some host.updated := by
    simp [hostTracking, stored]
  have settled := tended.covered key parsed () host.updated stamped early
  obtain ran | ⟨_, _, again, other, foreign⟩ :=
    settled replica.id replica present (onHost.trans parsed) outside
  · exact ran
  · cases present.symm.trans again
    cases owned.symm.trans other
    simp [foreign] at registered

section Witness

/-- The controller of one host with one type. -/
def exampleSetup : Setup where
  hostID := Fsm.exampleHost.id
  shardTypes _ := some { factory := .stateMachine }

/-- A replica is assigned to the host, and a tick finds it running. -/
def exampleMoves : List (Move Entry Unit ℕ HostChoice) :=
  [.outside { index := 1, cmd := .host .put Fsm.exampleHost },
    .outside { index := 2, cmd := newCmdShardPost { name := "a" } },
    .outside { index := 3, cmd := newCmdReplicaPost Fsm.exampleHost.id 1 false },
    .start () 0, .call () (.agent (.snapshot fun _ => [])), .call () (.running [{ replicaID := 1 }]),
    .call () (.agent (.order [0])), .finish ()]

private def exampleStart : Actors Cluster Unit HostMemory HostOp HostRes (ℕ × Calls) :=
  idleControllers { registry := {}, agents := fun _ => {} }

private theorem exampleMoves_regular :
    AlwaysStep (hostControllers fun _ => exampleSetup).Steps exampleStart exampleMoves
      fun _ move => ∀ entry, move = .outside entry → entry.cmd.isRegular := by
  intro front move back _ split _ entry is
  have member : move ∈ exampleMoves := by simp [split]
  simp only [exampleMoves, List.mem_cons, List.not_mem_nil, or_false] at member
  obtain rfl | rfl | rfl | rfl | rfl | rfl | rfl | rfl := member
  all_goals
    cases is
    try rfl

/-- The tick that found the replica running is on the record of its controller. -/
theorem assigned_replica_ran :
    ∃ last, Path (hostControllers fun _ => exampleSetup).Steps
        (idleControllers { registry := {}, agents := fun _ => {} }) exampleMoves last ∧
      Ran (last.memory ()).calls 1 := by
  obtain ⟨last, ran, ⟨host, looked, early⟩, replica, present, named, onHost, shard, owned, outside⟩ :
      ∃ last ∈ (hostControllers fun _ => exampleSetup).run exampleStart exampleMoves,
        (∃ host ∈ (last.shared.registry.host exampleSetup.hostID).toOption.join,
          host.updated ≤ (last.memory ()).index) ∧
        ∃ replica ∈ last.shared.registry.replica 1, replica.id = 1 ∧
          uuidKey replica.hostID = uuidKey exampleSetup.hostID ∧
          ∃ shard ∈ last.shared.registry.shard replica.shardID, 0 < replica.shardID := by
    decide +kernel
  have found : last.shared.registry.host exampleSetup.hostID = .ok (some host) := by
    exact ExceptFold.toOption_eq_some_iff.mp (Option.join_eq_some_iff.mp looked)
  have path := ActorSystem.path_iff_run.mpr ran
  have all := (controller_misses_no_assignment exampleMoves_regular).last path
  exact ⟨last, path, named ▸ all () host found early replica shard (named.symm ▸ present) onHost outside
    owned rfl⟩

end Witness

end HostController

end Zongzi
