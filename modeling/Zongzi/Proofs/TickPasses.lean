import Zongzi.Model.ControllerManager

/-! # The passes of a tick

A tick goes over fresh snapshots while its controls say that they updated something. The controls are
cleared before each shard that is reconciled, and not before a pass. A pass that reconciles no shard
therefore finds the word of the pass before it, and the tick goes on although nothing was created or
deleted. Here a tick also returns its passes. Without them it is `tick` (`fst_tickTraced`).
-/

namespace Zongzi

open Machine

/-- One pass of a tick. -/
structure Pass where
  snapshot : Snapshot
  calls : List (Σ op, AgentRes op)
  /-- The tick starts another pass after this one. -/
  again : Bool

namespace Pass

/-- A proposal to create or delete a replica succeeded. -/
def isUpdate : (Σ op, AgentRes op) → Bool
  | ⟨.propose (.replica .post _), .ok _⟩ => true
  | ⟨.propose (.replica .del _), .ok _⟩ => true
  | _ => false

/-- What the context answered. -/
def poll : (Σ op, AgentRes op) → Option Bool
  | ⟨.cancelled, flag⟩ => some flag
  | _ => none

/-- The pass made a successful `Create` or `Delete`. -/
def updated (pass : Pass) : Bool := pass.calls.any isUpdate

/-- The context is not cancelled before the first shard that has a controller. -/
def reaches : List Shard → (polls : List Bool) → Bool
  | shard :: shards, false :: polls => shard.id ≠ ShardID || reaches shards polls
  | _, _ => false

/-- The pass reconciles a shard of its snapshot. -/
def reconciles (after : ℕ) (pass : Pass) : Bool :=
  reaches (pass.snapshot.state.shardIterateUpdatedAfter after) (pass.calls.filterMap poll)

end Pass

section Traced

def tickPassesTraced (controller : Controller) (after : ℕ) :
    (fuel index : ℕ) → (updated hadErr : Bool) → AgentM ((ℕ × Bool) × List Pass)
  | 0, index, _, _ => return ((index, true), [])
  | fuel + 1, index, updated, hadErr => do
    match ← readState with
    | .error _ => return ((index, true), [])
    | .ok snapshot =>
      let ((updated, hadErr), calls) ← (reconcileShards controller snapshot
        (snapshot.state.shardIterateUpdatedAfter after) updated hadErr).record
      if updated then
        let (outcome, passes) ← tickPassesTraced controller after fuel snapshot.state.index updated hadErr
        return (outcome, ⟨snapshot, calls, true⟩ :: passes)
      else return ((snapshot.state.index, hadErr), [⟨snapshot, calls, false⟩])

def tickTraced (controller : Controller) (isLeader : Bool) (fuel index : ℕ) : AgentM (ℕ × List Pass) := do
  if isLeader then
    let ((reached, hadErr), passes) ← tickPassesTraced controller index fuel 0 false false
    return (if !hadErr && index < reached then reached else index, passes)
  else return (index, [])

theorem fst_tickPassesTraced (controller : Controller) (after fuel index : ℕ) (updated hadErr : Bool) :
    Prod.fst <$> tickPassesTraced controller after fuel index updated hadErr =
      tickPasses controller after fuel index updated hadErr := by
  induction fuel generalizing index updated hadErr with
  | zero => rfl
  | succ fuel ih =>
    simp only [tickPassesTraced, tickPasses, map_bind]
    refine bind_congr fun answer => ?_
    cases answer with
    | error err => rfl
    | ok snapshot =>
      dsimp only
      generalize reconcileShards controller snapshot _ updated hadErr = program
      conv_rhs => rw [← program.fst_record]
      simp only [map_bind, bind_map_left]
      refine bind_congr ?_
      rintro ⟨⟨updated, hadErr⟩, calls⟩
      dsimp only
      split
      · simp only [← ih, bind_pure_comp, Functor.map_map]
      · rfl

/-- The passes change nothing else. -/
theorem fst_tickTraced (controller : Controller) (isLeader : Bool) (fuel index : ℕ) :
    Prod.fst <$> tickTraced controller isLeader fuel index = tick controller isLeader fuel index := by
  unfold tickTraced tick
  split
  · simp only [← fst_tickPassesTraced, map_bind, map_pure, bind_map_left]
  · rfl

end Traced

namespace Pass

variable {possible : (op : AgentOp) → AgentRes op → Prop}

/-- The flag of the controls says whether one of their calls updated something. -/
theorem controls_records (op : ControlOp) (updated : Bool) :
    ((controls op).run updated).Records possible fun (_, after) calls =>
      after = (updated || calls.any isUpdate) ∧ calls.filterMap poll = [] := by
  cases op with
  | order count => exact fun order _ => ⟨by simp [isUpdate], rfl⟩
  | create hostID shardID isNonVoting =>
    intro answer _
    cases answer with
    | error err => exact ⟨by simp [isUpdate], rfl⟩
    | ok result => exact ⟨by simp [isUpdate, newCmdReplicaPost], rfl⟩
  | delete replicaID =>
    intro answer _
    cases answer with
    | error err => exact ⟨by simp [isUpdate], rfl⟩
    | ok result => exact ⟨by simp [isUpdate, newCmdReplicaDelete], rfl⟩

theorem interpret_records {ρ : Type} (program : Program ControlOp ControlRes ρ) (updated : Bool) :
    ((program.interpret controls).run updated).Records possible fun (_, after) calls =>
      after = (updated || calls.any isUpdate) ∧ calls.filterMap poll = [] := by
  induction program generalizing updated with
  | done result => exact ⟨by simp, rfl⟩
  | call op next ih =>
    refine (controls_records op updated).bind fun (answer, after) calls ⟨flag, silent⟩ => ?_
    refine (ih answer after).mono fun (_, final) more ⟨flags, quiet⟩ => ?_
    exact ⟨by simp [flags, flag, Bool.or_assoc], by simp [silent, quiet]⟩

/-- Reporting an error creates and deletes nothing. -/
theorem reportError_records (shard : Shard) (err : Option String) :
    (reportError shard err).Records possible fun _ calls =>
      calls.any isUpdate = false ∧ calls.filterMap poll = [] := by
  cases err with
  | some err =>
    intro answer _
    cases answer <;> exact ⟨rfl, rfl⟩
  | none =>
    dsimp only [reportError]
    split
    · intro answer _
      cases answer <;> exact ⟨rfl, rfl⟩
    · exact ⟨rfl, rfl⟩

/-- After a pass over the shards the flag says whether something was updated, if a shard was reconciled.
Otherwise nothing was updated and the flag is what it was. -/
theorem reconcileShards_records (controller : Controller) (snapshot : Snapshot) (shards : List Shard)
    (updated hadErr : Bool) :
    (reconcileShards controller snapshot shards updated hadErr).Records possible fun (after, _) calls =>
      after = (if reaches shards (calls.filterMap poll) then calls.any isUpdate else updated) ∧
      (calls.any isUpdate → reaches shards (calls.filterMap poll)) := by
  induction shards generalizing updated hadErr with
  | nil => exact ⟨rfl, by simp⟩
  | cons shard shards ih =>
    intro cancelled _
    cases cancelled with
    | true => exact ⟨rfl, by simp [isUpdate]⟩
    | false =>
      dsimp only
      split
      · next prime =>
        refine (ih updated hadErr).mono fun (after, _) calls flag => ?_
        simpa [reaches, poll, isUpdate, prime] using flag
      · next secondary =>
        refine (interpret_records _ false).bind fun (err, changed) calls ⟨flag, silent⟩ => ?_
        refine (reportError_records shard err).bind fun failed report ⟨unchanged, quiet⟩ => ?_
        dsimp only
        split
        · next changes =>
          refine ⟨?_, by simp [reaches, poll, secondary]⟩
          have flag : calls.any isUpdate = true := by simpa [changes] using flag.symm
          simp [reaches, poll, secondary, changes, flag]
        · next still =>
          obtain rfl : changed = false := by simpa using still
          refine (ih false _).mono fun (after, _) more ⟨flags, only⟩ => ⟨?_, by simp [reaches, poll, secondary]⟩
          have flag : calls.any isUpdate = false := by simpa using flag.symm
          have rest : after = more.any isUpdate := by
            rw [flags]
            split
            · rfl
            · next unreached => exact (Bool.eq_false_iff.mpr fun updates => unreached (only updates)).symm
          simp [reaches, poll, isUpdate, secondary, unchanged, flag, rest]

/-- A pass that reconciles a shard is repeated exactly for an update. Another one updates nothing, and it is
repeated if it follows a pass. -/
theorem tickPassesTraced_returns (controller : Controller) (after fuel index : ℕ) (updated hadErr : Bool) :
    (tickPassesTraced controller after fuel index updated hadErr).Returns possible fun (_, passes) =>
      ∀ front pass back, passes = front ++ pass :: back →
        pass.again = (if pass.reconciles after then pass.updated else updated || !front.isEmpty) ∧
        (pass.updated → pass.reconciles after) := by
  induction fuel generalizing index updated hadErr with
  | zero => exact fun front pass back listed => by simp at listed
  | succ fuel ih =>
    intro answer _
    cases answer with
    | error err => exact fun front pass back listed => by simp at listed
    | ok snapshot =>
      refine (reconcileShards_records ..).returns.bind fun ((again, hadErr), calls) ⟨flag, only⟩ => ?_
      dsimp only at flag ⊢
      split
      · next repeats =>
        refine (ih ..).bind fun (outcome, passes) rest => ?_
        intro front pass back listed
        obtain ⟨rfl, tail⟩ | ⟨front, rfl, tail⟩ := List.cons_eq_append_iff.mp listed
        · cases tail
          refine ⟨?_, only⟩
          simpa [reconciles, Pass.updated, repeats] using flag
        · simpa [repeats] using rest front pass back tail
      · next last =>
        intro front pass back listed
        obtain ⟨rfl, tail⟩ | ⟨front, rfl, tail⟩ := List.cons_eq_append_iff.mp listed
        · cases tail
          refine ⟨?_, only⟩
          simpa [reconciles, Pass.updated, last] using flag
        · simp at tail

/-- A tick repeats a pass only for an update, exactly if this is its first pass or it reconciles a shard. -/
theorem again_only_updated_iff (controller : Controller) (isLeader : Bool) (fuel index : ℕ) :
    (tickTraced controller isLeader fuel index).Returns (fun _ _ => True) fun (_, passes) =>
      ∀ front pass back, passes = front ++ pass :: back →
        ((pass.again → pass.updated) ↔ (front = [] ∨ pass.reconciles index)) := by
  unfold tickTraced
  split
  · refine (tickPassesTraced_returns ..).bind fun ((reached, hadErr), passes) flags => ?_
    intro front pass back listed
    obtain ⟨flag, only⟩ := flags front pass back listed
    rw [flag]
    by_cases reached : pass.reconciles index
    · simp [reached]
    · have unchanged : pass.updated = false := Bool.eq_false_iff.mpr fun updates => reached (only updates)
      cases front <;> simp [reached, unchanged]
  · exact fun front pass back listed => by simp at listed

section Deleted

/-- A controller that creates a replica of every shard. -/
private def creates : Controller := fun _ shard => do
  let _ ← Program.perform (ControlOp.create "host" shard.id false)
  return none

private def fresh : Shard := { id := 1, updated := 1 }

private def freshSnapshot : Snapshot := ⟨({ index := 1 } : State).shardPut fresh, fun _ => []⟩

private def deletedSnapshot : Snapshot := ⟨{ freshSnapshot.state.shardDelete fresh with index := 3 }, fun _ => []⟩

/-- The shard gets a replica in the first pass and has been deleted before the second, which is repeated. -/
theorem deleted_shard_repeats :
    ¬ (tickTraced creates true 2 0).Returns (fun _ _ => True) fun (_, passes) =>
      ∀ pass ∈ passes, pass.again → pass.updated := by
  intro held
  have first : freshSnapshot.state.shardIterateUpdatedAfter 0 = [fresh] := by decide +kernel
  have second : deletedSnapshot.state.shardIterateUpdatedAfter 0 = [] := by decide +kernel
  replace held := held (.ok freshSnapshot) trivial
  simp only [Program.bind] at held
  rw [first] at held
  replace held := held false trivial (.ok {}) trivial (.ok deletedSnapshot) trivial
  simp only [Program.bind] at held
  rw [second] at held
  exact absurd (held ⟨deletedSnapshot, [], true⟩ (by simp) rfl) (by decide)

end Deleted

end Pass

end Zongzi
