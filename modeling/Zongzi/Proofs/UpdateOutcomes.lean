import Zongzi.Proofs.ShardUpdates

/-! # What an update reports

`ShardUpdate` takes the value of an acknowledged put as the identifier of the shard that it returns. The state machine
answers a put that it rejects with the value zero and no error, so an update of a shard that was deleted after the read
reports success. It reports what has happened exactly if its put, where it is acknowledged, names the shard of the call
and finds it.
-/

namespace Zongzi

open Std Machine Fsm ExceptFold

section Outcomes

variable {ι : Type} [DecidableEq ι] {id : ℕ} {opts : List ShardEdit} {before after : ShardPool ι} {i : ι}
  {choice : Choice}

/-- The value of a put of a shard that exists is its identifier. -/
theorem value_of_put {state next : State} {record : Shard} {index : ℕ} {result : Result}
    (present : (state.shard record.id).isSome)
    (updated : update state { index, cmd := newCmdShardPut record } = .ok (next, result)) :
    result.value = record.id := by
  obtain ⟨invalid, -⟩ | ⟨middle, applied, -, -⟩ := update_cases updated
  · cases invalid
  · obtain ⟨absent, -⟩ | ⟨written, -, -, -, -, -, rfl⟩ := shardCmdPut_cases applied
    · rw [absent] at present
      cases present
    · rfl

theorem isFault_of_ok {cluster next : Cluster} {cmd : Cmd} {result : Result}
    (served : Cluster.serve cluster (.propose cmd) choice = some (.ok result, next)) : choice.isFault = false := by
  cases choice with
  | timedOut index err =>
    obtain ⟨_, -, same⟩ := Option.map_eq_some_iff.mp served
    cases same
  | failed err => cases served
  | _ => rfl

/-- What is left of an update: its read and its put, its put, or nothing. -/
inductive Updating (id : ℕ) (opts : List ShardEdit) : AgentM ShardReply → Prop where
  | fresh : Updating id opts (.updated <$> shardUpdate id opts)
  | waiting (record : Shard) : Updating id opts (.call (.propose (newCmdShardPut record)) fun
      | .error err => .done (.updated (.ok (record, some err)))
      | .ok result => .done (.updated (.ok ({ record with id := result.value }, none))))
  | done (reply : ShardReply) : Updating id opts (.done reply)

/-- No success has been reported. -/
def Silent (thread : AgentM ShardReply) : Prop := ∀ shard, thread ≠ .done (.updated (.ok (shard, none)))

theorem updating_putBack (found : Shard) :
    Updating id opts (.updated <$> putBack opts found) ∧ Silent (.updated <$> putBack opts found) := by
  unfold putBack
  cases editAll opts found with
  | error panic => exact ⟨.done (.updated (.error panic)), fun shard same => by cases same⟩
  | ok record =>
    refine ⟨?_, fun shard same => by cases same⟩
    convert Updating.waiting record using 1
    refine congrArg (Program.call _) (funext fun answer => ?_)
    cases answer with
    | error err => rfl
    | ok result => rfl

/-- A step of an update. -/
inductive UpdateStep (id : ℕ) (opts : List ShardEdit) (before after : ShardPool ι) (i : ι) (choice : Choice) :
    Prop where
  | read (asked : ∀ cmd continue_, before.threads i ≠ .call (.propose cmd) continue_)
      (rest : Updating id opts (after.threads i) ∧ Silent (after.threads i))
  | put (record : Shard) (continue_ : Except String Result → AgentM ShardReply)
      (puts : before.threads i = .call (.propose (newCmdShardPut record)) continue_)
      (result : Result) (index : ℕ) (acknowledged : choice.isFault = false)
      (applied : update before.shared.registry { index, cmd := newCmdShardPut record } =
        .ok (after.shared.registry, result))
      (returned : after.threads i = .done (.updated (.ok ({ record with id := result.value }, none))))
  | fault (record : Shard) (err : String) (faulty : choice.isFault)
      (returned : after.threads i = .done (.updated (.ok (record, some err))))

theorem updateStep_of_steps (updating : Updating id opts (before.threads i))
    (moved : before.Steps Cluster.serve (i, choice) after) : UpdateStep id opts before after i choice := by
  obtain ⟨op, continue_, answer, shared, calling, served, rfl⟩ := Pool.steps_cases moved
  generalize held : before.threads i = thread at updating
  cases updating with
  | fresh =>
    rw [shardUpdate_eq] at held
    cases calling.symm.trans held
    have missing : Updating id opts (.done (.updated (.ok ({}, some ErrShardNotFound)))) ∧
        Silent (.done (.updated (.ok ({}, some ErrShardNotFound)))) := ⟨.done _, fun shard same => by cases same⟩
    refine .read (fun cmd continue_ same => by cases held.symm.trans same) ?_
    dsimp only
    rw [Function.update_self]
    cases answer with
    | error err => exact missing
    | ok snapshot =>
      dsimp only
      cases snapshot.state.shard id with
      | none => exact missing
      | some found => exact updating_putBack found
  | waiting record =>
    cases calling.symm.trans held
    obtain ⟨index, registry, result, -, updated, rfl, applies, rfl | ⟨⟨err, rfl⟩, faulty⟩⟩ |
        ⟨-, -, ⟨err, rfl⟩, faulty⟩ := Cluster.serve_propose_cases served
    · exact .put record _ held result index (isFault_of_ok served) updated (Function.update_self ..)
    · exact .fault record err faulty (Function.update_self ..)
    · exact .fault record err faulty (Function.update_self ..)
  | done reply => cases calling.symm.trans held

omit [DecidableEq ι] in
theorem UpdateStep.updating (step : UpdateStep id opts before after i choice) : Updating id opts (after.threads i) := by
  cases step with
  | read asked rest => exact rest.1
  | put record continue_ puts result index acknowledged applied returned =>
    rw [returned]
    exact .done _
  | fault record err faulty returned =>
    rw [returned]
    exact .done _

/-- In every run, an update has one of these things left. -/
theorem updating_of_path {cluster : Cluster} {calls : ι → ShardCall} {labels : List (ι × Choice)}
    (updates : calls i = .update id opts)
    (path : Path (Pool.Steps Cluster.serve) (shardPool cluster calls) labels before) :
    Updating id opts (before.threads i) := by
  induction path with
  | nil =>
    change Updating id opts (calls i).program
    rw [updates]
    exact .fresh
  | @snoc _ pool next label _ moved ih =>
    obtain ⟨j, choice⟩ := label
    by_cases same : j = i
    · subst same
      exact (updateStep_of_steps ih moved).updating
    · obtain ⟨op, continue_, answer, shared, -, -, rfl⟩ := Pool.steps_cases moved
      simpa only [Function.update_of_ne (Ne.symm same)] using ih

/-- A step of an update tells the truth. -/
structure Truthful (id : ℕ) (before after : ShardPool ι) (i : ι) (choice : Choice) : Prop where
  /-- Success is reported for a put of an existing shard, and the shard is that of the call. -/
  success : ∀ shard, after.threads i = .done (.updated (.ok (shard, none))) → shard.id = id ∧
    ∃ record continue_ index result, before.threads i = .call (.propose (newCmdShardPut record)) continue_ ∧
      (before.shared.registry.shard record.id).isSome ∧
      update before.shared.registry { index, cmd := newCmdShardPut record } = .ok (after.shared.registry, result)
  /-- An error is reported if the shard is gone when the put is applied. -/
  gone : ∀ record continue_, before.threads i = .call (.propose (newCmdShardPut record)) continue_ → choice.applies →
    before.shared.registry.shard id = none → ∃ shard err, after.threads i = .done (.updated (.ok (shard, some err)))

/-- A put that the caller sees acknowledged is one of the shard of the call, and finds it. -/
def Lands (id : ℕ) (before : ShardPool ι) (i : ι) (choice : Choice) : Prop :=
  ∀ record continue_, before.threads i = .call (.propose (newCmdShardPut record)) continue_ →
    choice.isFault ∨ record.id = id ∧ (before.shared.registry.shard id).isSome

/-- In every run, each step of an update tells the truth exactly if it does not have a put acknowledged that names
another shard or finds none. -/
theorem update_truthful_iff {cluster : Cluster} {calls : ι → ShardCall} {labels : List (ι × Choice)}
    (updates : calls i = .update id opts)
    (path : Path (Pool.Steps Cluster.serve) (shardPool cluster calls) labels before)
    (moved : before.Steps Cluster.serve (i, choice) after) :
    Truthful id before after i choice ↔ Lands id before i choice := by
  cases updateStep_of_steps (updating_of_path updates path) moved with
  | read asked rest =>
    refine iff_of_true ⟨fun shard same => absurd same (rest.2 shard), fun record continue_ puts => ?_⟩
      fun record continue_ puts => ?_
    · exact absurd puts (asked _ _)
    · exact absurd puts (asked _ _)
  | put record continue_ puts result index acknowledged applied returned =>
    constructor
    · rintro ⟨success, -⟩ other rest again
      cases puts.symm.trans again
      obtain ⟨named, _, _, _, _, again, present, -⟩ := success _ returned
      cases puts.symm.trans again
      have own := (value_of_put present applied).symm.trans named
      exact .inr ⟨own, own ▸ present⟩
    · intro lands
      obtain faulty | ⟨named, present⟩ := lands record continue_ puts
      · cases acknowledged.symm.trans faulty
      · subst named
        refine ⟨fun shard same => ?_, fun other rest again applies gone => ?_⟩
        · cases returned.symm.trans same
          exact ⟨value_of_put present applied, record, continue_, index, result, puts, present, applied⟩
        · rw [gone] at present
          cases present
  | fault record err faulty returned =>
    refine iff_of_true ⟨fun shard same => ?_, fun _ _ _ _ _ => ⟨record, err, returned⟩⟩ fun _ _ _ => .inl faulty
    cases returned.symm.trans same

/-- An update of shard 1 and a deletion of it. -/
def updateAndDelete : Bool → ShardCall
  | false => .update 1 [WithTag "a" "x"]
  | true => .delete 1

/-- A run of both from a registry with the shard: up to the put of the update, and with it. -/
def runUpdateAndDelete (labels : List (Bool × Choice)) (index : ℕ) : Option (ShardPool Bool × ShardPool Bool) := do
  let (registry, _) ← (Fsm.run {} (taggedLog ∅)).toOption
  let before ← (shardPool ⟨registry, fun _ => {}⟩ updateAndDelete).run Cluster.serve labels
  let after ← before.step Cluster.serve (false, .applied index)
  return (before, after)

theorem runUpdateAndDelete_eq_some {labels : List (Bool × Choice)} {index : ℕ} {before after : ShardPool Bool}
    (ran : runUpdateAndDelete labels index = some (before, after)) :
    ∃ cluster, Path (Pool.Steps Cluster.serve) (shardPool cluster updateAndDelete) labels before ∧
      before.Steps Cluster.serve (false, .applied index) after := by
  unfold runUpdateAndDelete at ran
  generalize Fsm.run {} (taggedLog ∅) = outcome at ran
  obtain ⟨⟨registry, results⟩, -, ran⟩ := Option.bind_eq_some_iff.mp ran
  obtain ⟨middle, reached, ran⟩ := Option.bind_eq_some_iff.mp ran
  obtain ⟨last, moved, same⟩ := Option.bind_eq_some_iff.mp ran
  cases same
  exact ⟨_, Pool.path_iff_run.mpr reached, moved⟩

/-- What the update has returned. -/
def ShardPool.outcome (pool : ShardPool Bool) : Option (ℕ × Option String) :=
  match pool.threads false with
  | .done (.updated (.ok (shard, err))) => some (shard.id, err)
  | _ => none

/-- The record that the update is about to put. -/
def ShardPool.record (pool : ShardPool Bool) : Option Shard :=
  match pool.threads false with
  | .call (.propose (.shard .put record)) _ => some record
  | _ => none

/-- The shard is deleted between the read and the put, and the update reports success with the identifier zero. -/
theorem update_of_deleted_shard_succeeds :
    ∃ cluster before after shard,
      Path (Pool.Steps Cluster.serve) (shardPool cluster updateAndDelete)
        [(false, .snapshot fun _ => []), (true, .applied 2)] before ∧
      before.Steps Cluster.serve (false, .applied 3) after ∧ before.shared.registry.shard 1 = none ∧
      after.threads false = .done (.updated (.ok (shard, none))) ∧ shard.id = 0 := by
  obtain ⟨⟨before, after⟩, ran, gone, outcome⟩ :
      ∃ moved ∈ runUpdateAndDelete [(false, .snapshot fun _ => []), (true, .applied 2)] 3,
        moved.1.shared.registry.shard 1 = none ∧ moved.2.outcome = some (0, none) := by
    decide +kernel
  obtain ⟨cluster, path, moved⟩ := runUpdateAndDelete_eq_some ran
  unfold ShardPool.outcome at outcome
  split at outcome
  · next shard err returned =>
    obtain ⟨named, rfl⟩ := Prod.mk.inj (Option.some.inj outcome)
    exact ⟨cluster, before, after, shard, path, moved, gone, returned, named⟩
  · cases outcome

/-- The shard is still there when the update puts it. -/
theorem undisturbed_update_truthful :
    ∃ cluster before after, Path (Pool.Steps Cluster.serve) (shardPool cluster updateAndDelete)
        [(false, .snapshot fun _ => [])] before ∧
      before.Steps Cluster.serve (false, .applied 2) after ∧ Truthful 1 before after false (.applied 2) := by
  obtain ⟨⟨before, after⟩, ran, present, puts⟩ :
      ∃ moved ∈ runUpdateAndDelete [(false, .snapshot fun _ => [])] 2,
        (moved.1.shared.registry.shard 1).isSome ∧ moved.1.record.map Shard.id = some 1 := by
    decide +kernel
  obtain ⟨cluster, path, moved⟩ := runUpdateAndDelete_eq_some ran
  have updates : updateAndDelete false = .update 1 [WithTag "a" "x"] := rfl
  refine ⟨cluster, before, after, path, moved, (update_truthful_iff updates path moved).mpr ?_⟩
  intro record continue_ here
  rw [ShardPool.record, here] at puts
  exact .inr ⟨Option.some.inj puts, present⟩

end Outcomes

end Zongzi
