import Zongzi.Machine.Program

/-! # Programs that own a part of the shared object

The programs of a pool can be verified one at a time when each owns a part of the shared object that
the others leave alone. A discipline names what every call keeps, what each program owns, and when a
call is allowed. A program obeys when each of its calls, whatever the object answers, keeps the common
property and what the others own; in return it may rely on its own part from one call to the next.
Programs that obey go on obeying along every run whose calls are allowed (`always_kept`).
-/

namespace Machine

structure Discipline (σ ι Op : Type) (Res : Op → Type) (χ ω : Type) where
  serve : Serve σ Op Res χ
  /-- What every call keeps. -/
  good : σ → Prop
  /-- The part of the shared object that belongs to a program. -/
  own : ι → σ → ω
  /-- When a program may make a call. -/
  allowed : ι → σ → Op → Prop

namespace Discipline

variable {σ ι Op χ ω ρ τ : Type} {Res : Op → Type} {discipline : Discipline σ ι Op Res χ ω} {i : ι}
  {owned : ω}

/-- The program obeys from where it owns `owned`, and returns with `post`. -/
def Obeys (discipline : Discipline σ ι Op Res χ ω) (i : ι) :
    Program Op Res ρ → ω → (ρ → ω → Prop) → Prop
  | .done result, owned, post => post result owned
  | .call op next, owned, post => ∀ shared choice answer after, discipline.good shared →
      discipline.own i shared = owned → discipline.allowed i shared op →
      discipline.serve shared op choice = some (answer, after) →
      discipline.good after ∧ (∀ j, j ≠ i → discipline.own j after = discipline.own j shared) ∧
        Obeys discipline i (next answer) (discipline.own i after) post

theorem Obeys.mono {program : Program Op Res ρ} {strong weak : ρ → ω → Prop}
    (obeys : discipline.Obeys i program owned strong)
    (weaker : ∀ result owned, strong result owned → weak result owned) :
    discipline.Obeys i program owned weak := by
  induction program generalizing owned with
  | done result => exact weaker result owned obeys
  | call op next ih =>
    intro shared choice answer after good owns allowed served
    obtain ⟨kept, others, rest⟩ := obeys shared choice answer after good owns allowed served
    exact ⟨kept, others, ih answer rest⟩

/-- Verify a program and then what follows it. -/
theorem Obeys.bind {first : Program Op Res ρ} {continue_ : ρ → Program Op Res τ}
    {middle : ρ → ω → Prop} {post : τ → ω → Prop} (obeys : discipline.Obeys i first owned middle)
    (rest : ∀ result owned, middle result owned → discipline.Obeys i (continue_ result) owned post) :
    discipline.Obeys i (first >>= continue_) owned post := by
  induction first generalizing owned with
  | done result => exact rest result owned obeys
  | call op next ih =>
    intro shared choice answer after good owns allowed served
    obtain ⟨kept, others, obeys⟩ := obeys shared choice answer after good owns allowed served
    exact ⟨kept, others, ih answer obeys⟩

/-- Every program of the pool obeys from where it stands. -/
structure Kept (discipline : Discipline σ ι Op Res χ ω) (post : ι → ρ → ω → Prop)
    (pool : Pool σ ι Op Res ρ) : Prop where
  good : discipline.good pool.shared
  obeys : ∀ i, discipline.Obeys i (pool.threads i) (discipline.own i pool.shared) (post i)

/-- A finished program has returned what it promised. -/
theorem Kept.finished {post : ι → ρ → ω → Prop} {pool : Pool σ ι Op Res ρ} {result : ρ}
    (kept : discipline.Kept post pool) (finished : pool.threads i = .done result) :
    post i result (discipline.own i pool.shared) := by
  have obeys := kept.obeys i
  rw [finished] at obeys
  exact obeys

/-- The call of a step is allowed. -/
def AllowsStep (discipline : Discipline σ ι Op Res χ ω) (pool : Pool σ ι Op Res ρ) (label : ι × χ) :
    Prop :=
  ∀ op continue_, pool.threads label.1 = .call op continue_ →
    discipline.allowed label.1 pool.shared op

variable [DecidableEq ι] {post : ι → ρ → ω → Prop} {pool next : Pool σ ι Op Res ρ} {label : ι × χ}

theorem Kept.step (kept : discipline.Kept post pool) (allows : discipline.AllowsStep pool label)
    (moved : pool.Steps discipline.serve label next) : discipline.Kept post next := by
  obtain ⟨op, continue_, answer, shared, calling, served, rfl⟩ := Pool.steps_cases moved
  have obeys := kept.obeys label.1
  rw [calling] at obeys
  obtain ⟨good, others, rest⟩ := obeys pool.shared label.2 answer shared kept.good rfl
    (allows op continue_ calling) served
  refine ⟨good, fun i => ?_⟩
  by_cases same : i = label.1
  · subst same
    simpa using rest
  · simpa [Function.update_of_ne same, others i same] using kept.obeys i

/-- A step leaves to the others what they own. -/
theorem Kept.frame (kept : discipline.Kept post pool) (allows : discipline.AllowsStep pool label)
    (moved : pool.Steps discipline.serve label next) (other : i ≠ label.1) :
    discipline.own i next.shared = discipline.own i pool.shared := by
  obtain ⟨op, continue_, answer, shared, calling, served, rfl⟩ := Pool.steps_cases moved
  have obeys := kept.obeys label.1
  rw [calling] at obeys
  exact (obeys pool.shared label.2 answer shared kept.good rfl (allows op continue_ calling) served).2.1 i other

/-- Programs that obey go on obeying while their calls are allowed. -/
theorem always_kept {labels : List (ι × χ)} (initial : discipline.Kept post pool)
    (allows : AlwaysStep (Pool.Steps discipline.serve) pool labels discipline.AllowsStep) :
    Always (Pool.Steps discipline.serve) pool labels (discipline.Kept post) :=
  allows.always initial fun _ _ _ _ _ _ _ kept allows moved => kept.step allows moved

end Discipline

end Machine
