import Zongzi.Spec.LedgerInvariants
import Zongzi.Proofs.LedgerRefinement
import Zongzi.Proofs.Identifiers

/-! # Bootstrapping a shard once

The status of a posted replica comes from the number of voting replicas its shard has at that moment, not
from whether the shard was ever started. As long as no entry takes the votes of a started shard below
three, every later replica joins. Deleting one of three replicas is enough for the next one to bootstrap
the shard a second time.
-/

namespace Zongzi

open Std Machine

/-- Three voting replicas of a shard satisfy a predicate. -/
def State.ThreeVoters (state : State) (shardID : ℕ) (chosen : Replica → Prop) : Prop :=
  ∃ ids : Finset ℕ, ids.card = 3 ∧ ∀ id ∈ ids, ∃ replica, state.replica id = some replica ∧
    replica.shardID = shardID ∧ replica.isNonVoting = false ∧ chosen replica

theorem State.ThreeVoters.mono {state : State} {shardID : ℕ} {strong weak : Replica → Prop}
    (three : state.ThreeVoters shardID strong) (implies : ∀ replica, strong replica → weak replica) :
    state.ThreeVoters shardID weak := by
  obtain ⟨ids, card, voters⟩ := three
  refine ⟨ids, card, fun id member => ?_⟩
  obtain ⟨replica, found, ofShard, voting, held⟩ := voters id member
  exact ⟨replica, found, ofShard, voting, implies replica held⟩

namespace Fsm

open State

variable {state next before : State} {entry : Entry} {result : Result} {shardID : ℕ}

/-- The shard runs: three of its voting replicas are active at the same time. -/
def Established (shardID : ℕ) (state : State) : Prop :=
  state.ThreeVoters shardID fun replica => replica.status = .active

/-- If three replicas of the shard vote, the entry leaves three that do alone. -/
def SparesThree (shardID : ℕ) (state : State) (entry : Entry) : Prop :=
  state.ThreeVoters shardID (fun _ => True) →
    state.ThreeVoters shardID fun replica => ¬ state.ledger.Unseats entry replica

/-- A post for the shard stores a replica that joins. -/
def PostsJoining (shardID : ℕ) (state : State) (entry : Entry) : Prop :=
  ∀ replica next result, entry.cmd = .replica .post replica → replica.shardID = shardID →
    update state entry = .ok (next, result) →
    ∃ stored, next.replica result.value = some stored ∧ stored.shardID = shardID ∧
      stored.status = .joining

theorem threeVoters_iff : state.ThreeVoters shardID (fun _ => True) ↔ state.ledger.ThreeVote shardID := by
  simp only [ThreeVoters, Ledger.ThreeVote, Ledger.Votes, and_true]
  rfl

/-- Voters that an entry leaves alone vote after it. -/
theorem threeVoters_of_spares (three : state.ThreeVoters shardID fun _ => True)
    (spares : SparesThree shardID state entry) (applied : Applies state entry next) :
    next.ThreeVoters shardID fun _ => True := by
  obtain ⟨result, updated⟩ := applied
  obtain ⟨ids, card, voters⟩ := spares three
  refine threeVoters_iff.mpr ⟨ids, card, fun id member => ?_⟩
  obtain ⟨replica, found, rfl, voting, seated⟩ := voters id member
  have atId := replica_id found
  subst atId
  exact (update_ledger updated).votes found voting seated

/-- A replica posted to a shard with three voting replicas joins. -/
theorem postsJoining_of_threeVoters (three : state.ThreeVoters shardID fun _ => True) :
    PostsJoining shardID state entry := by
  rintro replica next result cmd rfl updated
  have step := update_ledger updated
  generalize reached : next.ledger = ledger at step
  cases step with
  | idle post => exact absurd cmd (post replica)
  | host write =>
    obtain ⟨_, _, other, -⟩ := write.cmd
    cases cmd.symm.trans other
  | shardPost other => cases cmd.symm.trans other
  | shardLeader other => cases cmd.symm.trans other
  | shard write =>
    obtain ⟨_, _, other, -⟩ := write.cmd
    cases cmd.symm.trans other
  | @replicaPost posted id status again fresh joins =>
    cases cmd.symm.trans again
    have value : result.value = id := (update_postsReplica cmd updated).1.trans fresh.symm
    have stored : next.replica id = some _ :=
      (congrFun (congrArg Ledger.replicas reached) id).trans (Function.update_self ..)
    rw [← value] at stored
    refine ⟨_, stored, rfl, ?_⟩
    obtain ⟨-, -, few⟩ | ⟨joining, -⟩ := joins
    · exact absurd (threeVoters_iff.mp three) few
    · exact joining
  | replica _ write =>
    obtain ⟨action, other, again, -⟩ := write.cmd
    cases cmd.symm.trans again
    cases write with
    | status is => cases cmd.symm.trans is
    | put is => cases cmd.symm.trans is
    | tags is _ tagFn =>
      cases cmd.symm.trans is
      cases tagFn
    | del is => cases cmd.symm.trans is

/-- Once three voting replicas of a shard were active, every replica posted to it joins, in every run
in which no entry takes the voting replicas of the shard below three. -/
theorem established_shard_only_joins {later : List Entry} (established : Established shardID before)
    (spares : AlwaysStep Applies before later (SparesThree shardID)) :
    AlwaysStep Applies before later (PostsJoining shardID) := by
  have started : before.ThreeVoters shardID fun _ => True := established.mono fun _ _ => trivial
  have voting : Always Applies before later fun state => state.ThreeVoters shardID fun _ => True :=
    spares.always started fun _ _ _ _ _ _ _ three spared applied => threeVoters_of_spares three spared applied
  intro front entry back state split reached
  exact postsJoining_of_threeVoters (voting front (entry :: back) state split reached)

/-- Three replicas of shard one become active. -/
def establishedLog : List Entry :=
  [{ index := 1, cmd := .host .put exampleHost },
    { index := 2, cmd := newCmdShardPost { name := "a" } },
    { index := 3, cmd := newCmdReplicaPost exampleHost.id 1 false },
    { index := 4, cmd := newCmdReplicaPost exampleHost.id 1 false },
    { index := 5, cmd := newCmdReplicaPost exampleHost.id 1 false },
    { index := 6, cmd := newCmdReplicaUpdateStatus 1 .active },
    { index := 7, cmd := newCmdReplicaUpdateStatus 2 .active },
    { index := 8, cmd := newCmdReplicaUpdateStatus 3 .active }]

/-- A replica of `establishedLog`. -/
def activeReplica (id : ℕ) : Replica :=
  { id, created := id + 2, updated := id + 2, status := .active, hostID := exampleHost.id, shardID := 1 }

/-- The status of a replica that is posted in a state. -/
def postedStatus (state : State) : Option ReplicaStatus :=
  match update state { index := 10, cmd := newCmdReplicaPost exampleHost.id 1 false } with
  | .error _ => none
  | .ok (next, result) => (next.replica result.value).map Replica.status

theorem establishedLog_runs :
    ∃ before results, run {} establishedLog = .ok (before, results) ∧ before.replicaID = 3 ∧
      (∀ id ∈ ({1, 2, 3} : Finset ℕ), before.replica id = some (activeReplica id)) ∧
      postedStatus before = some .joining ∧
      ∃ middle result, update before { index := 9, cmd := newCmdReplicaDelete 3 } =
        .ok (middle, result) ∧ postedStatus middle = some .bootstrapping := by
  obtain ⟨⟨before, results⟩, ran, count, voters, joins, ⟨middle, result⟩, deleted, boots⟩ :
      ∃ reached ∈ (run {} establishedLog).toOption, reached.1.replicaID = 3 ∧
        (∀ id ∈ ({1, 2, 3} : Finset ℕ), reached.1.replica id = some (activeReplica id)) ∧
        postedStatus reached.1 = some .joining ∧
        ∃ deleted ∈ (update reached.1 { index := 9, cmd := newCmdReplicaDelete 3 }).toOption,
          postedStatus deleted.1 = some .bootstrapping := by
    decide +kernel
  exact ⟨before, results, ExceptFold.toOption_eq_some_iff.mp ran, count, voters, joins, middle, result,
    ExceptFold.toOption_eq_some_iff.mp deleted, boots⟩

theorem established_of_voters
    (voters : ∀ id ∈ ({1, 2, 3} : Finset ℕ), state.replica id = some (activeReplica id)) :
    Established 1 state :=
  ⟨{1, 2, 3}, by decide, fun id member => ⟨_, voters id member, rfl, rfl, rfl⟩⟩

theorem update_of_postedStatus {status : ReplicaStatus} (posted : postedStatus state = some status) :
    ∃ next result stored, update state { index := 10, cmd := newCmdReplicaPost exampleHost.id 1 false } =
      .ok (next, result) ∧ next.replica result.value = some stored ∧ stored.status = status := by
  unfold postedStatus at posted
  split at posted
  · contradiction
  · next next result updated =>
    obtain ⟨stored, found, same⟩ := Option.map_eq_some_iff.mp posted
    exact ⟨next, result, stored, updated, found, same⟩

/-- A fourth replica joins. -/
theorem fourth_replica_joins :
    ∃ before results next result stored, run {} establishedLog = .ok (before, results) ∧
      update before { index := 10, cmd := newCmdReplicaPost exampleHost.id 1 false } =
        .ok (next, result) ∧ next.replica result.value = some stored ∧ stored.status = .joining := by
  obtain ⟨before, results, ran, count, voters, joins, -⟩ := establishedLog_runs
  obtain ⟨next, result, -, updated, -, -⟩ := update_of_postedStatus joins
  have spares : SparesThree 1 before
      { index := 10, cmd := newCmdReplicaPost exampleHost.id 1 false } := by
    intro _
    refine ⟨{1, 2, 3}, by decide, fun id member => ⟨_, voters id member, rfl, rfl, ?_⟩⟩
    simp only [Ledger.Unseats, newCmdReplicaPost, ledger, count, activeReplica]
    rintro rfl
    exact absurd member (by decide)
  have posts := established_shard_only_joins (established_of_voters voters)
    (.cons spares fun _ _ => .nil)
  obtain ⟨stored, found, -, joining⟩ := posts [] _ [] before rfl .nil _ next result rfl rfl updated
  exact ⟨before, results, next, result, stored, ran, updated, found, joining⟩

/-- One of the three active replicas is deleted and another one posted, which bootstraps the shard. -/
theorem replaced_replica_bootstraps_again :
    ∃ before results, run {} establishedLog = .ok (before, results) ∧ Established 1 before ∧
      ¬ AlwaysStep Applies before
        [{ index := 9, cmd := newCmdReplicaDelete 3 },
          { index := 10, cmd := newCmdReplicaPost exampleHost.id 1 false }] (PostsJoining 1) := by
  obtain ⟨before, results, ran, -, voters, -, middle, result, deleted, bootstraps⟩ := establishedLog_runs
  refine ⟨before, results, ran, established_of_voters voters, fun joins => ?_⟩
  obtain ⟨next, result, written, updated, present, status⟩ := update_of_postedStatus bootstraps
  obtain ⟨stored, found, -, joining⟩ := joins [_] _ [] middle rfl
    (Path.singleton_iff.mpr ⟨_, deleted⟩) _ next result rfl rfl updated
  cases present.symm.trans found
  cases status.symm.trans joining

end Fsm

end Zongzi
