import Mathlib

/-! # Watermarks over stamped objects

Objects carry the time of their last change, and a reader remembers up to which time it has read. When
every step stamps what it changes with a time after the clock it started from, an object whose stamp is
not after the clock of an earlier state has not changed since (`Tracks.unchanged`). So a reader that has
dealt with every stamp of one snapshot up to some time has dealt with every such stamp of any later state
(`Tracks.covered_raise`), and it keeps that as long as nothing but steps happens
(`Tracks.covered_step`).

What counts as unchanged is up to the tracking (`keeps`): equality of what is watched, or that something
once true of it stays true.
-/

namespace Machine

open Relation

variable {σ κ ν : Type}

/-- A clock, the stamp of each object, absent when the object is, what is watched of it, and what of that
may become what without a new stamp. -/
structure Tracking (σ κ ν : Type) where
  clock : σ → ℕ
  stamp : σ → κ → Option ℕ
  view : σ → κ → ν
  keeps : ν → ν → Prop

namespace Tracking

/-- A step does not turn the clock back, and an object that it leaves without a new stamp is kept. -/
structure Tracks (tracking : Tracking σ κ ν) (Step : σ → σ → Prop) : Prop where
  refl : ∀ view, tracking.keeps view view
  trans : ∀ {first second third}, tracking.keeps first second → tracking.keeps second third →
    tracking.keeps first third
  clock : ∀ {before after}, Step before after → tracking.clock before ≤ tracking.clock after
  stamps : ∀ {before after key time}, Step before after → tracking.stamp after key = some time →
    tracking.clock before < time ∨ tracking.stamp before key = some time ∧
      tracking.keeps (tracking.view before key) (tracking.view after key)

/-- Every object whose stamp is within the mark has been dealt with as it is. -/
def Covered (tracking : Tracking σ κ ν) (done : κ → ℕ → ν → Prop) (mark : ℕ) (state : σ) : Prop :=
  ∀ key time, tracking.stamp state key = some time → time ≤ mark →
    done key time (tracking.view state key)

variable {tracking : Tracking σ κ ν} {Step : σ → σ → Prop} {first last : σ} {done : κ → ℕ → ν → Prop}
  {mark : ℕ}

theorem Tracks.clock_le (tracks : tracking.Tracks Step) (run : ReflTransGen Step first last) :
    tracking.clock first ≤ tracking.clock last := by
  induction run with
  | refl => exact le_rfl
  | tail _ step ih => exact ih.trans (tracks.clock step)

/-- A stamp within the clock of an earlier state is from before that state, and so is what it stamps. -/
theorem Tracks.unchanged (tracks : tracking.Tracks Step) (run : ReflTransGen Step first last) {key : κ}
    {time : ℕ} (stamped : tracking.stamp last key = some time) (early : time ≤ tracking.clock first) :
    tracking.stamp first key = some time ∧ tracking.keeps (tracking.view first key) (tracking.view last key) := by
  induction run with
  | refl => exact ⟨stamped, tracks.refl _⟩
  | tail before step ih =>
    obtain late | ⟨earlier, kept⟩ := tracks.stamps step stamped
    · have := tracks.clock_le before
      omega
    · obtain ⟨found, before⟩ := ih earlier
      exact ⟨found, tracks.trans before kept⟩

/-- A step leaves what is covered covered. -/
theorem Tracks.covered_step (tracks : tracking.Tracks Step)
    (keeps : ∀ {key time old new}, tracking.keeps old new → done key time old → done key time new)
    (covered : tracking.Covered done mark first) (within : mark ≤ tracking.clock first)
    (step : Step first last) : tracking.Covered done mark last := by
  intro key time stamped early
  obtain ⟨found, kept⟩ := tracks.unchanged (.single step) stamped (early.trans within)
  exact keeps kept (covered key time found early)

/-- What was dealt with in a snapshot raises the mark for every later state. -/
theorem Tracks.covered_raise (tracks : tracking.Tracks Step)
    (keeps : ∀ {key time old new}, tracking.keeps old new → done key time old → done key time new)
    (run : ReflTransGen Step first last) (covered : tracking.Covered done mark last) {next : ℕ}
    (within : next ≤ tracking.clock first)
    (dealt : ∀ key time, tracking.stamp first key = some time → mark < time → time ≤ next →
      done key time (tracking.view first key)) : tracking.Covered done next last := by
  intro key time stamped early
  obtain old | new := le_or_gt time mark
  · exact covered key time stamped old
  · obtain ⟨found, kept⟩ := tracks.unchanged run stamped (early.trans within)
    exact keeps kept (dealt key time found new early)

end Tracking

end Machine
