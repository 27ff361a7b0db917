import Mathlib

/-! # Finite runs of a labeled step relation

`Path Step source events target` is a finite run, built at its end, so that an induction meets the
state a run has reached together with the step it takes there. `Always` and `AlwaysStep` quantify
over every state a run passes and every step it takes. When a step keeps a property exactly under a
condition, the property holds all along a run exactly when the condition does (`always_iff`).
-/

namespace Machine

variable {σ ε : Type}

/-- A run from the source, with the labels of its steps. -/
inductive Path (Step : σ → ε → σ → Prop) (source : σ) : List ε → σ → Prop
  | nil : Path Step source [] source
  | snoc {events : List ε} {middle target : σ} {event : ε} (before : Path Step source events middle)
      (step : Step middle event target) : Path Step source (events ++ [event]) target

/-- A state and a label determine the next state. -/
def Determined (Step : σ → ε → σ → Prop) : Prop :=
  ∀ state event left right, Step state event left → Step state event right → left = right

/-- A property of every state of a run. -/
def Always (Step : σ → ε → σ → Prop) (source : σ) (events : List ε) (property : σ → Prop) : Prop :=
  ∀ front back state, events = front ++ back → Path Step source front state → property state

/-- A condition on every step of a run and the state it is taken in. -/
def AlwaysStep (Step : σ → ε → σ → Prop) (source : σ) (events : List ε) (condition : σ → ε → Prop) :
    Prop :=
  ∀ front event back state, events = front ++ event :: back → Path Step source front state →
    condition state event

variable {Step : σ → ε → σ → Prop} {source middle target : σ} {event : ε}
  {events first second : List ε}

namespace Path

theorem nil_iff : Path Step source [] target ↔ target = source := by
  constructor
  · intro path
    generalize same : ([] : List ε) = events at path
    cases path with
    | nil => rfl
    | snoc before step => simp at same
  · rintro rfl
    exact .nil

theorem snoc_iff :
    Path Step source (events ++ [event]) target ↔
      ∃ middle, Path Step source events middle ∧ Step middle event target := by
  constructor
  · intro path
    generalize same : events ++ [event] = all at path
    cases path with
    | nil => simp at same
    | snoc before step =>
      obtain ⟨rfl, last⟩ := List.append_inj' same rfl
      cases last
      exact ⟨_, before, step⟩
  · rintro ⟨middle, before, step⟩
    exact .snoc before step

theorem append_iff :
    Path Step source (first ++ second) target ↔
      ∃ middle, Path Step source first middle ∧ Path Step middle second target := by
  induction second using List.reverseRecOn generalizing target with
  | nil => simp [nil_iff]
  | append_singleton rest event ih =>
    rw [← List.append_assoc, snoc_iff]
    simp only [ih, snoc_iff]
    constructor
    · rintro ⟨last, ⟨middle, left, right⟩, step⟩
      exact ⟨middle, left, last, right, step⟩
    · rintro ⟨middle, left, last, right, step⟩
      exact ⟨last, ⟨middle, left, right⟩, step⟩

theorem singleton_iff : Path Step source [event] target ↔ Step source event target := by
  rw [← List.nil_append [event], snoc_iff]
  simp [nil_iff]

theorem cons_iff :
    Path Step source (event :: events) target ↔
      ∃ middle, Step source event middle ∧ Path Step middle events target := by
  rw [← List.singleton_append, append_iff]
  simp only [singleton_iff]

/-- A run can be cut before any of its steps. -/
theorem cut (path : Path Step source (first ++ event :: second) target) :
    ∃ before after, Path Step source first before ∧ Step before event after ∧
      Path Step after second target := by
  obtain ⟨before, left, right⟩ := append_iff.mp path
  obtain ⟨after, step, right⟩ := cons_iff.mp right
  exact ⟨before, after, left, step, right⟩

/-- What every step of a run preserves, the run preserves. -/
theorem invariant {property : σ → Prop} (path : Path Step source events target)
    (initial : property source)
    (preserved : ∀ event ∈ events, ∀ before after, property before → Step before event after →
      property after) : property target := by
  induction path with
  | nil => exact initial
  | snoc before step ih =>
    refine preserved _ (by simp) _ _ (ih fun event member => ?_) step
    exact preserved event (List.mem_append_left _ member)

/-- Where steps are determined, the source and the labels fix the target. -/
theorem deterministic (determined : Determined Step) {other : σ}
    (path : Path Step source events target) (again : Path Step source events other) :
    target = other := by
  induction path generalizing other with
  | nil => exact (nil_iff.mp again).symm
  | snoc before step ih =>
    obtain ⟨middle, front, last⟩ := snoc_iff.mp again
    cases ih front
    exact determined _ _ _ _ step last

/-- The runs of a step function. -/
theorem iff_foldlM {step : σ → ε → Option σ} :
    Path (fun state event next => step state event = some next) source events target ↔
      events.foldlM step source = some target := by
  induction events generalizing source with
  | nil => simp [nil_iff, eq_comm]
  | cons event events ih => simp [cons_iff, ih, Option.bind_eq_some_iff]

end Path

theorem Always.last {property : σ → Prop} (always : Always Step source events property)
    (path : Path Step source events target) : property target :=
  always events [] target (by simp) path

theorem AlwaysStep.nil {condition : σ → ε → Prop} : AlwaysStep Step source [] condition := by
  intro front event back state split
  simp at split

theorem AlwaysStep.cons {condition : σ → ε → Prop} (holds : condition source event)
    (rest : ∀ next, Step source event next → AlwaysStep Step next events condition) :
    AlwaysStep Step source (event :: events) condition := by
  intro front other back state split reached
  cases front with
  | nil =>
    obtain ⟨rfl, -⟩ := List.cons_eq_cons.mp split
    rw [Path.nil_iff.mp reached]
    exact holds
  | cons first front =>
    obtain ⟨rfl, same⟩ := List.cons_eq_cons.mp split
    obtain ⟨next, step, after⟩ := Path.cons_iff.mp reached
    exact rest next step front other back state same after

theorem AlwaysStep.front {condition : σ → ε → Prop}
    (conditions : AlwaysStep Step source (first ++ second) condition) :
    AlwaysStep Step source first condition := by
  rintro front event back state rfl reached
  exact conditions front event (back ++ second) state (by simp) reached

/-- What holds at every step of a run holds at every step of its end. -/
theorem AlwaysStep.of_append {condition : σ → ε → Prop}
    (conditions : AlwaysStep Step source (first ++ second) condition) (path : Path Step source first middle) :
    AlwaysStep Step middle second condition := by
  rintro front event back state rfl reached
  exact conditions (first ++ front) event back state (by simp) (Path.append_iff.mpr ⟨middle, path, reached⟩)

/-- Check every step of a run. -/
def checks (step : σ → ε → Option σ) (check : σ → ε → Bool) (state : σ) : List ε → Bool
  | [] => true
  | event :: events => check state event && (step state event).all fun next => checks step check next events

theorem AlwaysStep.of_checks {step : σ → ε → Option σ} {check : σ → ε → Bool} {condition : σ → ε → Prop}
    (sound : ∀ state event, check state event → condition state event)
    (checked : checks step check source events) :
    AlwaysStep (fun state event next => step state event = some next) source events condition := by
  induction events generalizing source with
  | nil => exact .nil
  | cons event events ih =>
    simp only [checks, Bool.and_eq_true, Option.all_eq_true] at checked
    exact .cons (sound source event checked.1) fun next moved => ih (checked.2 next moved)

/-- Under the condition no step of the run loses the property. -/
theorem AlwaysStep.always {property : σ → Prop} {condition : σ → ε → Prop}
    (conditions : AlwaysStep Step source events condition) (initial : property source)
    (kept : ∀ front event back before after, events = front ++ event :: back →
      Path Step source front before → property before → condition before event →
      Step before event after → property after) :
    Always Step source events property := by
  intro front back state split reached
  induction reached generalizing back with
  | nil => exact initial
  | snoc before step ih =>
    rw [List.append_assoc, List.singleton_append] at split
    exact kept _ _ _ _ _ split before (ih _ split) (conditions _ _ _ _ split before) step

/-- A step keeps the property exactly under the condition, and so does a run. -/
theorem always_iff {property : σ → Prop} {condition : σ → ε → Prop} (determined : Determined Step)
    (path : Path Step source events target) (initial : property source)
    (kept : ∀ front event back before after, events = front ++ event :: back →
      Path Step source front before → property before → Step before event after →
      (property after ↔ condition before event)) :
    Always Step source events property ↔ AlwaysStep Step source events condition := by
  constructor
  · intro always front event back state split reached
    subst split
    obtain ⟨before, after, left, step, -⟩ := path.cut
    cases left.deterministic determined reached
    have held := always front (event :: back) state rfl reached
    have holds := always (front ++ [event]) back after (by simp) (.snoc reached step)
    exact (kept front event back state after rfl reached held step).mp holds
  · intro conditions
    exact conditions.always initial fun front event back before after split reached held met step =>
      (kept front event back before after split reached held step).mpr met

end Machine
