import Zongzi.Machine.Path
import Zongzi.Proofs.TopologyRefinement

/-! # Runs of the state machine

`Fsm.run` as a path of entries, so that the rules for runs apply to logs.
-/

namespace Zongzi.Fsm

open ExceptFold Machine

/-- A host for concrete runs. -/
def exampleHost : Host := { id := "00000000-0000-4000-8000-000000000001", tags := some ∅ }

/-- One entry that does not panic. -/
def Applies (state : State) (entry : Entry) (next : State) : Prop :=
  ∃ result, update state entry = .ok (next, result)

theorem applies_determined : Determined Applies := by
  rintro state entry left right ⟨result, updated⟩ ⟨other, again⟩
  rw [updated] at again
  cases again
  rfl

theorem run_cons_eq_ok_iff {state last : State} {entry : Entry} {log : List Entry}
    {results : List Result} :
    run state (entry :: log) = .ok (last, results) ↔
      ∃ next result rest, update state entry = .ok (next, result) ∧
        run next log = .ok (last, rest) ∧ results = result :: rest := by
  simp only [run, bind_eq_ok_iff, pure_eq_ok_iff, Prod.exists, Prod.mk.injEq]
  constructor
  · rintro ⟨next, result, updated, final, rest, ran, rfl, rfl⟩
    exact ⟨next, result, rest, updated, ran, rfl⟩
  · rintro ⟨next, result, rest, updated, ran, rfl⟩
    exact ⟨next, result, updated, last, rest, ran, rfl, rfl⟩

theorem run_append_eq_ok_iff {state last : State} {first second : List Entry}
    {results : List Result} :
    run state (first ++ second) = .ok (last, results) ↔
      ∃ middle before after, run state first = .ok (middle, before) ∧
        run middle second = .ok (last, after) ∧ results = before ++ after := by
  induction first generalizing state results with
  | nil => simp [run]
  | cons entry rest ih =>
    simp only [List.cons_append, run_cons_eq_ok_iff, ih]
    constructor
    · rintro ⟨next, result, _, updated, ⟨middle, before, after, left, right, rfl⟩, rfl⟩
      exact ⟨middle, result :: before, after, ⟨next, result, before, updated, left, rfl⟩, right, rfl⟩
    · rintro ⟨middle, _, after, ⟨next, result, before, updated, left, rfl⟩, right, rfl⟩
      exact ⟨next, result, before ++ after, updated, ⟨middle, before, after, left, right, rfl⟩, rfl⟩

/-- The runs that do not panic are the paths of entries. -/
theorem path_iff_run {state last : State} {log : List Entry} :
    Path Applies state log last ↔ ∃ results, run state log = .ok (last, results) := by
  induction log generalizing state with
  | nil => simp [Path.nil_iff, run, eq_comm]
  | cons entry log ih =>
    simp only [Path.cons_iff, run_cons_eq_ok_iff, ih]
    constructor
    · rintro ⟨next, ⟨result, updated⟩, results, ran⟩
      exact ⟨result :: results, next, result, results, updated, ran, rfl⟩
    · rintro ⟨_, next, result, rest, updated, ran, rfl⟩
      exact ⟨next, ⟨result, updated⟩, rest, ran⟩

end Zongzi.Fsm
