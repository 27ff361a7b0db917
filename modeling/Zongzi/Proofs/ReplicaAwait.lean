import Zongzi.Machine.Loops
import Zongzi.Model.ReplicaAwait

/-! # When an awaited replica is ready

`ReplicaAwait` returns without an error when a poll has found the replica active. It also does when it notices the end
of the context and its last read has not failed, whatever that read has found.
-/

namespace Zongzi

open Machine Program

abbrev AwaitCall : Type := Σ op, AwaitRes op

section Await

variable (hostID : String) (shardID : ℕ)

/-- A poll has found the replica active. -/
def ObservesActive (calls : List AwaitCall) : Prop :=
  ∃ state replica, (⟨.read, .ok state⟩ : AwaitCall) ∈ calls ∧ state.localReplica hostID shardID = some replica ∧
    replica.status = .active

/-- The end of the context is noticed when the last read has not failed, or before any read. -/
def Abandons : (readFailed : Bool) → List AwaitCall → Prop
  | _, [] => False
  | readFailed, ⟨.select, signal⟩ :: calls =>
    (signal = .cancelled ∧ readFailed = false) ∨ Abandons readFailed calls
  | _, ⟨.read, answer⟩ :: calls => Abandons (!answer.isOk) calls

variable {hostID shardID} {calls : List AwaitCall}

theorem observesActive_select {signal : Signal} :
    ObservesActive hostID shardID (⟨.select, signal⟩ :: calls) ↔ ObservesActive hostID shardID calls := by
  simp [ObservesActive]

theorem observesActive_read {answer : Except String State} :
    ObservesActive hostID shardID (⟨.read, answer⟩ :: calls) ↔
      (∃ state replica, answer = .ok state ∧ state.localReplica hostID shardID = some replica ∧
        replica.status = .active) ∨ ObservesActive hostID shardID calls := by
  simp only [ObservesActive, List.mem_cons, Sigma.mk.injEq, heq_eq_eq, true_and, or_and_right, exists_or]
  simp only [eq_comm]

/-- A replica that was not active and is now was found by the poll. -/
theorem observes_of_active {replica : Replica} (inactive : replica.status ≠ .active) {state : State} :
    ((state.localReplica hostID shardID).getD replica).status = .active ↔
      ∃ found, state.localReplica hostID shardID = some found ∧ found.status = .active := by
  cases state.localReplica hostID shardID with
  | none => simpa using inactive
  | some found => simp

theorem awaitActive_records (fuel : ℕ) (replica : Replica) (err : Option AwaitErr)
    (inactive : replica.status ≠ .active) :
    (awaitActive hostID shardID fuel replica err).Records (fun _ _ => True) fun answer calls =>
      (answer = some none → ObservesActive hostID shardID calls) ↔ ¬ Abandons err.isSome calls := by
  induction fuel generalizing replica err with
  | zero => simp [awaitActive, Records, Abandons]
  | succ fuel ih =>
    intro signal _
    cases signal with
    | cancelled =>
      change (some err = some none → _) ↔ _
      cases err with
      | none => simp [Abandons, ObservesActive]
      | some err => simp [Abandons]
    | fired =>
      change (some (some _) = some none → _) ↔ _
      simp [Abandons]
    | none =>
      intro answer _
      cases answer with
      | error failure =>
        dsimp only [Program.bind, pollReplica]
        rw [if_neg inactive]
        refine (ih replica _ inactive).mono fun answer calls outcome => ?_
        rw [observesActive_select, observesActive_read]
        simpa [Abandons, Except.isOk, Except.toBool] using outcome
      | ok state =>
        dsimp only [Program.bind, pollReplica]
        split
        · next active =>
          obtain ⟨found, here, status⟩ := (observes_of_active inactive).mp active
          refine iff_of_true (fun _ => ?_) (by simp [Abandons])
          exact observesActive_select.mpr (observesActive_read.mpr (.inl ⟨state, found, rfl, here, status⟩))
        · next waiting =>
          refine (ih _ none waiting).mono fun answer calls outcome => ?_
          rw [observesActive_select, observesActive_read]
          rw [observes_of_active inactive] at waiting
          simpa [Abandons, Except.isOk, Except.toBool, waiting] using outcome

/-- In every run, a return without an error stands for a poll that has found the replica active exactly if the end of
the context is noticed only after a read that has failed. -/
theorem await_observes_active_iff (hostID : String) (shardID fuel : ℕ) :
    (replicaAwait hostID shardID fuel).Records (fun _ _ => True) fun answer calls =>
      (answer = some none → ObservesActive hostID shardID calls) ↔ ¬ Abandons false calls :=
  awaitActive_records fuel {} none nofun

/-- The context has ended before the first poll. -/
def cancelledAnswer : (op : AwaitOp) → AwaitRes op
  | .select => .cancelled
  | .read => .ok {}

theorem cancelled_await_succeeds :
    ∃ answer : (op : AwaitOp) → AwaitRes op, (replicaAwait "h" 1 1).answered answer =
      (some none, [⟨.select, .cancelled⟩]) ∧ ¬ ObservesActive "h" 1 [⟨.select, .cancelled⟩] :=
  ⟨cancelledAnswer, rfl, by simp [ObservesActive]⟩

end Await

end Zongzi
