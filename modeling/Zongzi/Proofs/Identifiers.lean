import Zongzi.Proofs.Recovery
import Zongzi.Spec.TopologyInvariants

/-! # Identifiers are never reused

A history interleaves entries with saving the registry and recovering it into a fresh one. Recovery
restores the counters with the records, so along a history with few posts the counters only grow and
bound every identifier that was ever present. An accepted post returns the next value.
-/

namespace Zongzi

open Std Machine

/-- What happens to the registry of one replica. -/
inductive Event where
  | applied (entry : Entry) (result : Result)
  /-- The registry is saved and recovered into a fresh one. -/
  | recovered

def Event.isPost : Event → Bool
  | .applied entry _ => entry.isPost
  | .recovered => false

namespace State

variable {σ : Type} {codec : Codec σ} {state next saved : State}

/-- Recovery into a fresh registry restores the topology. -/
theorem topology_recover {rest : Except String (List σ)}
    (read : ({} : State).recover codec (saved.save codec) = .ok (next, rest)) :
    next.topology = saved.topology := by
  obtain ⟨recovered, again, overlays⟩ := recover_save codec saved {}
  cases read.symm.trans again
  obtain ⟨hosts, shards, replicas, -, -, shardID, replicaID⟩ := overlays.sameRecords
  simp only [topology, State.shard, State.replica, hosts, shards, replicas, shardID, replicaID]

/-- The entry is a shard post and its name is not taken. -/
def PostsShard (state : State) (entry : Entry) : Prop :=
  ∃ shard, entry.cmd = .shard .post shard ∧
    (shard.name = "" ∨ state.shardFindByName shard.name = none)

end State

namespace Fsm

variable {σ : Type} {codec : Codec σ} {state next last : State} {entry : Entry} {result : Result}

def Moves (codec : Codec σ) (state : State) (event : Event) (next : State) : Prop :=
  match event with
  | .applied entry result => update state entry = .ok (next, result)
  | .recovered => ∃ rest, ({} : State).recover codec (state.save codec) = .ok (next, .ok rest)

theorem moves_determined (codec : Codec σ) : Determined (Moves codec) := by
  rintro state (⟨entry, result⟩ | _) left right moved again
  · cases Except.ok.inj (Eq.trans (Eq.symm moved) again)
    rfl
  · obtain ⟨rest, read⟩ := moved
    obtain ⟨other, read'⟩ := again
    cases Except.ok.inj (read.symm.trans read')
    rfl

/-- An accepted post returns the next value of the counter and leaves the counter there. -/
theorem update_postsShard (posts : state.PostsShard entry)
    (updated : update state entry = .ok (next, result)) :
    result.value = (state.shardID + 1) % 2 ^ 64 ∧ next.shardID = result.value := by
  obtain ⟨shard, cmd, free⟩ := posts
  obtain ⟨invalid, -, -⟩ | ⟨middle, applied, rfl, -⟩ := update_cases updated
  · cases cmd.symm.trans invalid
  · simp only [apply, cmd] at applied
    obtain ⟨named, held, -, -⟩ | ⟨-, rfl, rfl⟩ := shardCmdPost_cases applied
    · obtain unnamed | absent := free
      · exact absurd unnamed named
      · simp [absent] at held
    · exact ⟨rfl, rfl⟩

theorem update_postsReplica {replica : Replica} (cmd : entry.cmd = .replica .post replica)
    (updated : update state entry = .ok (next, result)) :
    result.value = (state.replicaID + 1) % 2 ^ 64 ∧ next.replicaID = result.value := by
  have step := update_refines updated
  generalize reached : next.topology = topology at step
  cases step with
  | idle _ replicaPost => exact absurd cmd (replicaPost replica)
  | replicaPost again fresh value =>
    have counter : next.replicaID = _ := congrArg Topology.replicaID reached
    exact ⟨value.trans fresh, counter.trans value.symm⟩
  | hostPut again => cases cmd.symm.trans again
  | hostDel again => cases cmd.symm.trans again
  | shardPost again => cases cmd.symm.trans again
  | shardPut again => cases cmd.symm.trans again
  | shardDel again => cases cmd.symm.trans again
  | replicaPut again => cases cmd.symm.trans again
  | replicaDel again => cases cmd.symm.trans again

/-- Along a history with few posts, identifiers stay within counters that only grow. -/
theorem within_of_path {events : List Event} {bound : ℕ}
    (path : Path (Moves codec) state events last) (within : state.topology.Within bound)
    (few : bound + events.countP Event.isPost < 2 ^ 64) :
    last.topology.Within (bound + events.countP Event.isPost) ∧ state.shardID ≤ last.shardID ∧
      state.replicaID ≤ last.replicaID := by
  induction path with
  | nil => exact ⟨within, le_rfl, le_rfl⟩
  | @snoc events middle last event before moved ih =>
    rw [List.countP_append, ← Nat.add_assoc] at few ⊢
    obtain ⟨kept, shardGrew, replicaGrew⟩ := ih (by omega)
    cases event with
    | applied entry result =>
      have counted : [Event.applied entry result].countP Event.isPost = entry.isPost.toNat := by
        cases post : entry.isPost <;> simp [Event.isPost, post]
      rw [counted] at few ⊢
      obtain ⟨grown, shardStep, replicaStep⟩ := (update_refines moved).within kept few
      exact ⟨grown, shardGrew.trans shardStep, replicaGrew.trans replicaStep⟩
    | recovered =>
      obtain ⟨rest, read⟩ := moved
      have same := State.topology_recover read
      have shardSame : last.shardID = middle.shardID := congrArg Topology.shardID same
      have replicaSame : last.replicaID = middle.replicaID := congrArg Topology.replicaID same
      rw [same, shardSame, replicaSame]
      exact ⟨kept, shardGrew, replicaGrew⟩

theorem within_empty : ({} : State).topology.Within 0 := by
  refine ⟨fun id present => ?_, fun id present => ?_, le_rfl, le_rfl⟩
  · cases present
  · cases present

/-- A shard identifier that was present in some state of the history or returned by a post. -/
def ShardSeen (codec : Codec σ) (events : List Event) (id : ℕ) : Prop :=
  (∃ front back state, events = front ++ back ∧ Path (Moves codec) {} front state ∧
    (state.shard id).isSome) ∨
  ∃ front entry result back state, events = front ++ .applied entry result :: back ∧
    Path (Moves codec) {} front state ∧ state.PostsShard entry ∧ result.value = id

def ReplicaSeen (codec : Codec σ) (events : List Event) (id : ℕ) : Prop :=
  (∃ front back state, events = front ++ back ∧ Path (Moves codec) {} front state ∧
    (state.replica id).isSome) ∨
  ∃ front entry result back replica, events = front ++ .applied entry result :: back ∧
    entry.cmd = .replica .post replica ∧ result.value = id

/-- From any point of a history on, the counters bound every identifier seen up to there. -/
theorem bounded_of_reached {front back : List Event} (left : Path (Moves codec) {} front state)
    (right : Path (Moves codec) state back last)
    (few : (front ++ back).countP Event.isPost < 2 ^ 64) :
    (∀ id, (state.shard id).isSome → id ≤ last.shardID) ∧
      (∀ id, (state.replica id).isSome → id ≤ last.replicaID) ∧
      state.shardID ≤ last.shardID ∧ state.replicaID ≤ last.replicaID := by
  rw [List.countP_append] at few
  obtain ⟨within, -, -⟩ := within_of_path left within_empty (by omega)
  obtain ⟨-, shardGrew, replicaGrew⟩ := within_of_path right within (by omega)
  refine ⟨fun id present => ?_, fun id present => ?_, shardGrew, replicaGrew⟩
  · exact (within.shards id (by simpa [State.topology] using present)).trans shardGrew
  · exact (within.replicas id (by simpa [State.topology] using present)).trans replicaGrew

theorem shardSeen_le {events : List Event} (path : Path (Moves codec) {} events last)
    (few : events.countP Event.isPost < 2 ^ 64) {id : ℕ} (seen : ShardSeen codec events id) :
    id ≤ last.shardID := by
  obtain ⟨front, back, state, rfl, reached, present⟩ |
    ⟨front, entry, result, back, state, rfl, reached, posts, rfl⟩ := seen
  · obtain ⟨middle, left, right⟩ := Path.append_iff.mp path
    cases left.deterministic (moves_determined codec) reached
    exact (bounded_of_reached left right few).1 id present
  · obtain ⟨before, after, left, moved, right⟩ := path.cut
    cases left.deterministic (moves_determined codec) reached
    rw [← (update_postsShard posts moved).2]
    rw [← List.singleton_append, ← List.append_assoc] at few
    exact (bounded_of_reached (.snoc left moved) right few).2.2.1

theorem replicaSeen_le {events : List Event} (path : Path (Moves codec) {} events last)
    (few : events.countP Event.isPost < 2 ^ 64) {id : ℕ} (seen : ReplicaSeen codec events id) :
    id ≤ last.replicaID := by
  obtain ⟨front, back, state, rfl, reached, present⟩ |
    ⟨front, entry, result, back, replica, rfl, cmd, rfl⟩ := seen
  · obtain ⟨middle, left, right⟩ := Path.append_iff.mp path
    cases left.deterministic (moves_determined codec) reached
    exact (bounded_of_reached left right few).2.1 id present
  · obtain ⟨before, after, left, moved, right⟩ := path.cut
    rw [← (update_postsReplica cmd moved).2]
    rw [← List.singleton_append, ← List.append_assoc] at few
    exact (bounded_of_reached (.snoc left moved) right few).2.2.2

/-- Every identifier a post returns is greater than every identifier of its kind that was present or
returned before, so that the post overwrites nothing. -/
theorem identifiers_never_reused {before after : List Event}
    (path : Path (Moves codec) {} (before ++ .applied entry result :: after) last)
    (few : (before ++ .applied entry result :: after).countP Event.isPost < 2 ^ 64)
    (reached : Path (Moves codec) {} before state) :
    (state.PostsShard entry →
      (∀ id, ShardSeen codec before id → id < result.value) ∧ state.shard result.value = none) ∧
    ((∃ replica, entry.cmd = .replica .post replica) →
      (∀ id, ReplicaSeen codec before id → id < result.value) ∧
        state.replica result.value = none) := by
  obtain ⟨middle, next, left, moved, -⟩ := path.cut
  cases left.deterministic (moves_determined codec) reached
  rw [List.countP_append, List.countP_cons] at few
  have fewBefore : before.countP Event.isPost < 2 ^ 64 := by omega
  obtain ⟨within, -, -⟩ := within_of_path reached within_empty (by omega)
  have shardBound : state.shardID ≤ 0 + before.countP Event.isPost := within.shardID
  have replicaBound : state.replicaID ≤ 0 + before.countP Event.isPost := within.replicaID
  constructor
  · intro posts
    have post : Event.isPost (.applied entry result) = true := by
      obtain ⟨shard, cmd, -⟩ := posts
      simp [Event.isPost, Entry.isPost, cmd]
    rw [if_pos post] at few
    have value := (update_postsShard posts moved).1
    have below : ∀ id, ShardSeen codec before id → id < result.value := by
      intro id seen
      have := shardSeen_le reached fewBefore seen
      omega
    refine ⟨below, ?_⟩
    by_contra present
    have seen : ShardSeen codec before result.value :=
      .inl ⟨before, [], state, by simp, reached, Option.isSome_iff_ne_none.mpr present⟩
    exact absurd (below _ seen) (lt_irrefl _)
  · rintro ⟨replica, cmd⟩
    have post : Event.isPost (.applied entry result) = true := by
      simp [Event.isPost, Entry.isPost, cmd]
    rw [if_pos post] at few
    have value := (update_postsReplica cmd moved).1
    have below : ∀ id, ReplicaSeen codec before id → id < result.value := by
      intro id seen
      have := replicaSeen_le reached fewBefore seen
      omega
    refine ⟨below, ?_⟩
    by_contra present
    have seen : ReplicaSeen codec before result.value :=
      .inl ⟨before, [], state, by simp, reached, Option.isSome_iff_ne_none.mpr present⟩
    exact absurd (below _ seen) (lt_irrefl _)

/-- A shard is created and deleted, and the registry recovered from a snapshot. -/
def deletedHistory : List Event :=
  [.applied { index := 1, cmd := newCmdShardPost { name := "a" } } { value := 1 },
   .applied { index := 2, cmd := newCmdShardDel 1 } { value := 1 }, .recovered]

/-- The next shard gets the next identifier, not the deleted one. -/
theorem identifier_after_recovery_is_new :
    ∃ state last, Path (Moves Codec.tokens) {} deletedHistory state ∧
      update state { index := 3, cmd := newCmdShardPost { name := "a" } } =
        .ok (last, { value := 2 }) ∧
      (∀ id, ShardSeen Codec.tokens deletedHistory id → id < 2) ∧ state.shard 2 = none := by
  have reached : ∃ state last, Path (Moves Codec.tokens) {} deletedHistory state ∧
      update state { index := 3, cmd := newCmdShardPost { name := "a" } } =
        .ok (last, { value := 2 }) ∧
      state.PostsShard { index := 3, cmd := newCmdShardPost { name := "a" } } := by
    refine ⟨_, _, Path.cons_iff.mpr ⟨_, rfl, Path.cons_iff.mpr ⟨_, rfl,
      Path.singleton_iff.mpr ⟨[], rfl⟩⟩⟩, rfl, { name := "a" }, rfl, .inr rfl⟩
  obtain ⟨state, last, path, updated, posts⟩ := reached
  have fresh := (identifiers_never_reused (.snoc path updated) (by decide) path).1 posts
  exact ⟨state, last, path, updated, fresh⟩

end Fsm

end Zongzi
