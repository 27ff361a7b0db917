import Mathlib

/-! # Objects on loan

A pool lends objects, numbered in the order in which they are made. It lends one that was given back, or makes a new
one. Nobody else has what is lent (`Exclusive`), as long as every borrower gives back what it has and nothing else.
-/

variable {κ : Type} [DecidableEq κ]

structure Leases (κ : Type) where
  free : List ℕ := []
  made : ℕ := 0
  lease : κ → Option ℕ := fun _ => none

namespace Leases

variable {leases next : Leases κ} {borrower other : κ} {object : ℕ}

/-- Lend a free object, or make one. -/
def acquire (leases : Leases κ) (borrower : κ) : Option ℕ → Option (ℕ × Leases κ)
  | none => some (leases.made,
      { leases with made := leases.made + 1, lease := Function.update leases.lease borrower (some leases.made) })
  | some object =>
    if object ∈ leases.free then some (object,
      { leases with
        free := leases.free.erase object
        lease := Function.update leases.lease borrower (some object) })
    else none

/-- Take back what a borrower has. -/
def release (leases : Leases κ) (borrower : κ) (object : ℕ) : Leases κ :=
  { leases with free := object :: leases.free, lease := Function.update leases.lease borrower none }

/-- An object is free or lent to one borrower. -/
structure Exclusive (leases : Leases κ) : Prop where
  distinct : leases.free.Nodup
  free_made : ∀ object ∈ leases.free, object < leases.made
  lent_made : ∀ borrower object, leases.lease borrower = some object → object < leases.made
  lent : ∀ borrower object, leases.lease borrower = some object → object ∉ leases.free
  single : ∀ borrower other object, leases.lease borrower = some object → leases.lease other = some object →
    borrower = other

omit [DecidableEq κ] in
theorem exclusive_empty : ({} : Leases κ).Exclusive where
  distinct := List.nodup_nil
  free_made := by simp
  lent_made := by simp
  lent := by simp
  single := by simp

/-- Nobody has what is lent next. -/
theorem Exclusive.unlent (exclusive : leases.Exclusive) {choice : Option ℕ}
    (acquired : leases.acquire borrower choice = some (object, next)) (holder : κ) :
    leases.lease holder ≠ some object := by
  intro held
  cases choice with
  | none =>
    cases acquired
    exact lt_irrefl _ (exclusive.lent_made holder _ held)
  | some chosen =>
    obtain ⟨free, same⟩ := Option.ite_none_right_eq_some.mp acquired
    cases same
    exact exclusive.lent holder _ held free

theorem lease_acquire {choice : Option ℕ} (acquired : leases.acquire borrower choice = some (object, next)) :
    next.lease = Function.update leases.lease borrower (some object) := by
  cases choice with
  | none =>
    cases acquired
    rfl
  | some chosen =>
    cases (Option.ite_none_right_eq_some.mp acquired).2
    rfl

theorem Exclusive.acquire (exclusive : leases.Exclusive) {choice : Option ℕ}
    (acquired : leases.acquire borrower choice = some (object, next)) : next.Exclusive := by
  have unlent := exclusive.unlent acquired
  have lease := lease_acquire acquired
  have free : next.free ⊆ leases.free ∧ next.free.Nodup ∧ object ∉ next.free ∧ object < next.made ∧
      leases.made ≤ next.made := by
    cases choice with
    | none =>
      cases acquired
      refine ⟨List.Subset.refl _, exclusive.distinct, fun listed => ?_, Nat.lt_succ_self _, Nat.le_succ _⟩
      exact lt_irrefl _ (exclusive.free_made _ listed)
    | some chosen =>
      obtain ⟨listed, same⟩ := Option.ite_none_right_eq_some.mp acquired
      cases same
      exact ⟨List.erase_subset, exclusive.distinct.erase _, exclusive.distinct.not_mem_erase,
        exclusive.free_made _ listed, le_rfl⟩
  obtain ⟨part, distinct, absent, below, grown⟩ := free
  have cases_of {holder : κ} {held : ℕ} (holds : next.lease holder = some held) :
      holder = borrower ∧ held = object ∨ holder ≠ borrower ∧ leases.lease holder = some held := by
    rw [lease] at holds
    by_cases same : holder = borrower
    · rw [same, Function.update_self] at holds
      exact .inl ⟨same, (Option.some.inj holds).symm⟩
    · rw [Function.update_of_ne same] at holds
      exact .inr ⟨same, holds⟩
  refine ⟨distinct, fun one listed => (exclusive.free_made one (part listed)).trans_le grown, ?_, ?_, ?_⟩
  · intro holder held holds
    rcases cases_of holds with ⟨-, rfl⟩ | ⟨-, before⟩
    · exact below
    · exact (exclusive.lent_made holder held before).trans_le grown
  · intro holder held holds
    rcases cases_of holds with ⟨-, rfl⟩ | ⟨-, before⟩
    · exact absent
    · exact fun listed => exclusive.lent holder held before (part listed)
  · intro holder second held holds again
    rcases cases_of holds with ⟨rfl, rfl⟩ | ⟨-, before⟩
    · rcases cases_of again with ⟨rfl, -⟩ | ⟨-, after⟩
      · rfl
      · exact absurd after (unlent second)
    · rcases cases_of again with ⟨rfl, rfl⟩ | ⟨-, after⟩
      · exact absurd before (unlent holder)
      · exact exclusive.single holder second held before after

theorem Exclusive.release (exclusive : leases.Exclusive) (held : leases.lease borrower = some object) :
    (leases.release borrower object).Exclusive := by
  have before {holder : κ} {one : ℕ} (holds : (leases.release borrower object).lease holder = some one) :
      holder ≠ borrower ∧ leases.lease holder = some one := by
    change Function.update leases.lease borrower none holder = some one at holds
    by_cases same : holder = borrower
    · rw [same, Function.update_self] at holds
      cases holds
    · rw [Function.update_of_ne same] at holds
      exact ⟨same, holds⟩
  refine ⟨List.nodup_cons.mpr ⟨exclusive.lent borrower object held, exclusive.distinct⟩, ?_, ?_, ?_, ?_⟩
  · intro one listed
    rcases List.mem_cons.mp listed with rfl | listed
    · exact exclusive.lent_made borrower one held
    · exact exclusive.free_made one listed
  · exact fun holder one holds => exclusive.lent_made holder one (before holds).2
  · intro holder one holds listed
    obtain ⟨apart, held'⟩ := before holds
    rcases List.mem_cons.mp listed with same | listed
    · exact apart (exclusive.single holder borrower one held' (same ▸ held))
    · exact exclusive.lent holder one held' listed
  · exact fun holder second one holds again => exclusive.single holder second one (before holds).2 (before again).2

end Leases
