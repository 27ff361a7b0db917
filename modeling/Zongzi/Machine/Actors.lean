import Zongzi.Machine.Program

/-! # Actors

An actor runs programs against a shared object, one after the other. It remembers what the last one
returned, and the next one starts from that. The object also takes steps of its own, and any number of
actors call it side by side.

A contract verifies each program alone, against everything the object may do between two of its calls
(`rely`). `Ensures` is closed under such steps by definition, so an assertion needs no separate proof that
others leave it alone. What programs ensure from where they start holds along every run of the system
whose outside steps are permitted (`always_kept`).
-/

namespace Machine

open Relation

/-- How the object moves, what each actor runs and what it remembers of a run. -/
structure ActorSystem (σ ε ι μ α Op : Type) (Res : Op → Type) (χ ρ : Type) where
  serve : Serve σ Op Res χ
  /-- A step of the object on its own. -/
  outside : σ → ε → Option σ
  /-- The program that an actor starts, with an argument that the system chooses. -/
  start : ι → α → μ → Program Op Res ρ
  /-- The memory after a run. -/
  finish : ι → μ → ρ → μ

/-- The object, what each actor remembers and what it is running. -/
structure Actors (σ ι μ Op : Type) (Res : Op → Type) (ρ : Type) where
  shared : σ
  memory : ι → μ
  running : ι → Option (Program Op Res ρ)

inductive Move (ε ι α χ : Type) where
  | outside (event : ε)
  | start (i : ι) (argument : α)
  | call (i : ι) (choice : χ)
  | finish (i : ι)

/-- Others who keep to a relation while the object is good, and leave it good, keep to it altogether. -/
theorem star_of_guarded {σ τ : Type} {view : σ → τ} {good : τ → Prop} {Step : τ → τ → Prop} {shared after : σ}
    (kept : ∀ {before after}, good before → Step before after → good after)
    (others : ReflTransGen (fun before after => good (view before) →
      ReflTransGen Step (view before) (view after)) shared after)
    (initial : good (view shared)) : ReflTransGen Step (view shared) (view after) := by
  have stays {middle : τ} (steps : ReflTransGen Step (view shared) middle) : good middle := by
    induction steps with
    | refl => exact initial
    | tail _ step ih => exact kept ih step
  induction others with
  | refl => exact .refl
  | tail _ rely ih => exact ih.trans (rely (stays ih))

open Classical in
/-- Answer only while the object is good. -/
noncomputable def serveWithin {σ Op χ : Type} {Res : Op → Type} (good : σ → Prop) (serve : Serve σ Op Res χ) :
    Serve σ Op Res χ :=
  fun shared op choice => if good shared then serve shared op choice else none

theorem serveWithin_eq_some {σ Op χ : Type} {Res : Op → Type} {good : σ → Prop} {serve : Serve σ Op Res χ}
    {shared after : σ} {op : Op} {choice : χ} {answer : Res op} :
    serveWithin good serve shared op choice = some (answer, after) ↔
      good shared ∧ serve shared op choice = some (answer, after) := by
  simp only [serveWithin, Option.ite_none_right_eq_some]

namespace ActorSystem

variable {σ ε ι μ α Op χ ρ τ υ : Type} {Res : Op → Type}
  {system : ActorSystem σ ε ι μ α Op Res χ ρ} {actors next : Actors σ ι μ Op Res ρ}

section Steps

variable [DecidableEq ι] {event : ε} {i : ι} {argument : α} {choice : χ}

def step (system : ActorSystem σ ε ι μ α Op Res χ ρ) (actors : Actors σ ι μ Op Res ρ) :
    Move ε ι α χ → Option (Actors σ ι μ Op Res ρ)
  | .outside event => (system.outside actors.shared event).map fun shared => { actors with shared }
  | .start i argument =>
    match actors.running i with
    | none =>
      let program := system.start i argument (actors.memory i)
      some { actors with running := Function.update actors.running i (some program) }
    | some _ => none
  | .call i choice =>
    match actors.running i with
    | some (.call op continue_) => (system.serve actors.shared op choice).map fun (answer, shared) =>
      { actors with shared, running := Function.update actors.running i (some (continue_ answer)) }
    | _ => none
  | .finish i =>
    match actors.running i with
    | some (.done result) =>
      let memory := system.finish i (actors.memory i) result
      some { actors with
        memory := Function.update actors.memory i memory
        running := Function.update actors.running i none }
    | _ => none

def Steps (system : ActorSystem σ ε ι μ α Op Res χ ρ) (actors : Actors σ ι μ Op Res ρ)
    (move : Move ε ι α χ) (next : Actors σ ι μ Op Res ρ) : Prop :=
  system.step actors move = some next

theorem steps_outside (moved : system.Steps actors (.outside event) next) :
    ∃ shared, system.outside actors.shared event = some shared ∧ next = { actors with shared } := by
  obtain ⟨shared, stepped, rfl⟩ := Option.map_eq_some_iff.mp moved
  exact ⟨shared, stepped, rfl⟩

theorem steps_start (moved : system.Steps actors (.start i argument) next) :
    actors.running i = none ∧ next = { actors with
      running := Function.update actors.running i (some (system.start i argument (actors.memory i))) } := by
  simp only [Steps, step] at moved
  split at moved
  · next idle => exact ⟨idle, (Option.some.inj moved).symm⟩
  · cases moved

theorem steps_call (moved : system.Steps actors (.call i choice) next) :
    ∃ op continue_ answer shared, actors.running i = some (.call op continue_) ∧
      system.serve actors.shared op choice = some (answer, shared) ∧ next = { actors with
        shared
        running := Function.update actors.running i (some (continue_ answer)) } := by
  simp only [Steps, step] at moved
  split at moved
  · next op continue_ calling =>
    obtain ⟨⟨answer, shared⟩, served, rfl⟩ := Option.map_eq_some_iff.mp moved
    exact ⟨op, continue_, answer, shared, calling, served, rfl⟩
  · cases moved

theorem steps_finish (moved : system.Steps actors (.finish i) next) :
    ∃ result, actors.running i = some (.done result) ∧ next = { actors with
      memory := Function.update actors.memory i (system.finish i (actors.memory i) result)
      running := Function.update actors.running i none } := by
  simp only [Steps, step] at moved
  split at moved
  · next result done => exact ⟨result, done, (Option.some.inj moved).symm⟩
  · cases moved

theorem steps_determined : Determined system.Steps :=
  fun _ _ _ _ left right => Option.some.inj (left.symm.trans right)

/-- Run the moves one after the other. -/
def run (system : ActorSystem σ ε ι μ α Op Res χ ρ) (actors : Actors σ ι μ Op Res ρ)
    (moves : List (Move ε ι α χ)) : Option (Actors σ ι μ Op Res ρ) :=
  moves.foldlM system.step actors

theorem path_iff_run {moves : List (Move ε ι α χ)} :
    Path system.Steps actors moves next ↔ system.run actors moves = some next :=
  Path.iff_foldlM

end Steps

section Within

variable {good : σ → Prop}

/-- The same system, whose object answers only while it is good. -/
noncomputable def within (system : ActorSystem σ ε ι μ α Op Res χ ρ) (good : σ → Prop) :
    ActorSystem σ ε ι μ α Op Res χ ρ :=
  { system with serve := serveWithin good system.serve }

variable [DecidableEq ι]

theorem steps_within {move : Move ε ι α χ} (fine : good actors.shared) :
    (system.within good).Steps actors move next ↔ system.Steps actors move next := by
  have served (op : Op) (choice : χ) :
      (system.within good).serve actors.shared op choice = system.serve actors.shared op choice := if_pos fine
  cases move with
  | outside event => exact Iff.rfl
  | start i argument => exact Iff.rfl
  | call i choice => simp only [Steps, step, served]
  | finish i => exact Iff.rfl

/-- Where the object stays good, nothing is lost. -/
theorem path_within {moves : List (Move ε ι α χ)} (initial : good actors.shared)
    (kept : ∀ {actors move next}, good actors.shared → system.Steps actors move next → good next.shared) :
    Path (system.within good).Steps actors moves next ↔ Path system.Steps actors moves next := by
  induction moves generalizing actors with
  | nil => rw [Path.nil_iff, Path.nil_iff]
  | cons move moves ih =>
    rw [Path.cons_iff, Path.cons_iff]
    refine exists_congr fun middle => ?_
    rw [steps_within initial]
    exact and_congr_right fun moved => ih (kept initial moved)

end Within

/-- What programs are verified against, and what they are verified for. -/
structure Contract (system : ActorSystem σ ε ι μ α Op Res χ ρ) where
  /-- A step of the object that a program does not make itself. -/
  rely : σ → σ → Prop
  /-- The outside steps that are considered. -/
  permits : σ → ε → Prop
  /-- What holds whenever an actor makes a call. -/
  guard : ι → σ → Op → Prop
  /-- What an actor's memory says about the object. -/
  inv : ι → σ → μ → Prop
  /-- What holds when a run ends, with the memory from its start. -/
  post : ι → μ → ρ → σ → Prop

namespace Contract

variable {contract : Contract system} {i : ι} {shared after : σ}

/-- The program ends with `post` and makes every call under its guard, whatever happens between. -/
def Ensures (contract : Contract system) (i : ι) :
    Program Op Res τ → σ → (τ → σ → Prop) → Prop
  | .done result, shared, post => ∀ after, ReflTransGen contract.rely shared after → post result after
  | .call op continue_, shared, post => ∀ before, ReflTransGen contract.rely shared before →
      contract.guard i before op ∧ ∀ choice answer after,
        system.serve before op choice = some (answer, after) →
        Ensures contract i (continue_ answer) after post

section Rules

variable {program : Program Op Res τ} {continue_ : τ → Program Op Res υ} {post : υ → σ → Prop}
  {middle strong : τ → σ → Prop}

/-- Others do not break what a program ensures. -/
theorem Ensures.stable (ensures : contract.Ensures i program shared strong)
    (others : ReflTransGen contract.rely shared after) : contract.Ensures i program after strong := by
  cases program with
  | done result => exact fun last rest => ensures last (others.trans rest)
  | call op continue_ => exact fun before rest => ensures before (others.trans rest)

theorem Ensures.mono (ensures : contract.Ensures i program shared strong)
    (weaker : ∀ result after, strong result after → middle result after) :
    contract.Ensures i program shared middle := by
  induction program generalizing shared with
  | done result => exact fun after others => weaker result after (ensures after others)
  | call op continue_ ih =>
    intro before others
    obtain ⟨guarded, rest⟩ := ensures before others
    exact ⟨guarded, fun choice answer after served => ih answer (rest choice answer after served)⟩

/-- Verify a program and then what follows it. -/
theorem Ensures.bind (ensures : contract.Ensures i program shared middle)
    (rest : ∀ result after, middle result after → contract.Ensures i (continue_ result) after post) :
    contract.Ensures i (program >>= continue_) shared post := by
  induction program generalizing shared with
  | done result => exact rest result shared (ensures shared .refl)
  | call op continue_ ih =>
    intro before others
    obtain ⟨guarded, further⟩ := ensures before others
    exact ⟨guarded, fun choice answer after served => ih answer (further choice answer after served)⟩

/-- A program whose result does not depend on the object, and whose calls only do what others may do. -/
theorem Ensures.of_returns {allowed : Op → Prop} {possible : (op : Op) → Res op → Prop}
    {condition : τ → Prop}
    (guarded : ∀ {before op}, ReflTransGen contract.rely shared before → allowed op →
      contract.guard i before op)
    (answers : ∀ {before op choice answer after},
      system.serve before op choice = some (answer, after) → possible op answer)
    (calls : ∀ {before op choice answer after}, contract.guard i before op →
      system.serve before op choice = some (answer, after) → ReflTransGen contract.rely before after)
    (only : program.OnlyCalls allowed) (returns : program.Returns possible condition) :
    contract.Ensures i program shared fun result after =>
      condition result ∧ ReflTransGen contract.rely shared after := by
  induction program generalizing shared with
  | done result => exact fun after others => ⟨returns, others⟩
  | call op continue_ ih =>
    intro before others
    have guard := guarded others only.1
    refine ⟨guard, fun choice answer after served => ?_⟩
    have onwards := others.trans (calls guard served)
    refine (ih answer (fun further => guarded (onwards.trans further)) (only.2 answer)
      (returns answer (answers served))).mono fun result last ⟨held, rest⟩ => ?_
    exact ⟨held, onwards.trans rest⟩

/-- Where the calls of a program only do what others may do, so does the program. -/
theorem Ensures.reaches
    (calls : ∀ {before op choice answer after}, contract.guard i before op →
      system.serve before op choice = some (answer, after) → ReflTransGen contract.rely before after)
    (ensures : contract.Ensures i program shared strong) :
    contract.Ensures i program shared fun result after =>
      strong result after ∧ ReflTransGen contract.rely shared after := by
  induction program generalizing shared with
  | done result => exact fun after others => ⟨ensures after others, others⟩
  | call op continue_ ih =>
    intro before others
    obtain ⟨guarded, rest⟩ := ensures before others
    refine ⟨guarded, fun choice answer after served => ?_⟩
    refine (ih answer (rest choice answer after served)).mono fun result last ⟨holds, onwards⟩ => ?_
    exact ⟨holds, (others.trans (calls guarded served)).trans onwards⟩

end Rules

/-- The obligations of a contract. -/
structure Valid (contract : Contract system) : Prop where
  stable : ∀ {i shared after memory}, contract.inv i shared memory → contract.rely shared after →
    contract.inv i after memory
  outside : ∀ {shared event after}, contract.permits shared event →
    system.outside shared event = some after → contract.rely shared after
  calls : ∀ {i shared op choice answer after}, contract.guard i shared op →
    system.serve shared op choice = some (answer, after) → ReflTransGen contract.rely shared after
  starts : ∀ {i shared memory} argument, contract.inv i shared memory →
    contract.Ensures i (system.start i argument memory) shared (contract.post i memory)
  finishes : ∀ {i shared memory result}, contract.post i memory result shared →
    contract.inv i shared (system.finish i memory result)

/-- Every actor's memory is right, and what it is running ends well. -/
structure Kept (contract : Contract system) (actors : Actors σ ι μ Op Res ρ) : Prop where
  inv : ∀ i, contract.inv i actors.shared (actors.memory i)
  ensures : ∀ i program, actors.running i = some program →
    contract.Ensures i program actors.shared (contract.post i (actors.memory i))

/-- The outside step of a move is permitted. -/
def Permits (contract : Contract system) (actors : Actors σ ι μ Op Res ρ) (move : Move ε ι α χ) : Prop :=
  ∀ event, move = .outside event → contract.permits actors.shared event

theorem kept_idle (idle : ∀ i, actors.running i = none)
    (inv : ∀ i, contract.inv i actors.shared (actors.memory i)) : contract.Kept actors where
  inv
  ensures i program running := by
    rw [idle i] at running
    cases running

theorem Valid.stable_star (valid : contract.Valid) {memory : μ} (inv : contract.inv i shared memory)
    (others : ReflTransGen contract.rely shared after) : contract.inv i after memory := by
  induction others with
  | refl => exact inv
  | tail _ step ih => exact valid.stable ih step

/-- A run that ends, ends with its postcondition. -/
theorem Kept.post {result : ρ} (kept : contract.Kept actors)
    (done : actors.running i = some (.done result)) :
    contract.post i (actors.memory i) result actors.shared :=
  kept.ensures i _ done actors.shared .refl

/-- A call is made under its guard. -/
theorem Kept.guard {op : Op} {continue_ : Res op → Program Op Res ρ} (kept : contract.Kept actors)
    (calling : actors.running i = some (.call op continue_)) : contract.guard i actors.shared op :=
  (kept.ensures i _ calling actors.shared .refl).1

variable [DecidableEq ι]

theorem Kept.step {move : Move ε ι α χ} (valid : contract.Valid) (kept : contract.Kept actors)
    (permits : contract.Permits actors move) (moved : system.Steps actors move next) :
    contract.Kept next := by
  cases move with
  | outside event =>
    obtain ⟨shared, stepped, rfl⟩ := steps_outside moved
    have others := valid.outside (permits event rfl) stepped
    exact ⟨fun i => valid.stable (kept.inv i) others,
      fun i program running => (kept.ensures i program running).stable (.single others)⟩
  | start i argument =>
    obtain ⟨-, rfl⟩ := steps_start moved
    refine ⟨kept.inv, fun j program running => ?_⟩
    by_cases same : j = i
    · subst same
      simp only [Function.update_self] at running
      cases running
      exact valid.starts argument (kept.inv j)
    · simp only [Function.update_of_ne same] at running
      exact kept.ensures j program running
  | call i choice =>
    obtain ⟨op, continue_, answer, shared, calling, served, rfl⟩ := steps_call moved
    have others := valid.calls (kept.guard calling) served
    refine ⟨fun j => valid.stable_star (kept.inv j) others, fun j program running => ?_⟩
    by_cases same : j = i
    · subst same
      simp only [Function.update_self] at running
      cases running
      exact (kept.ensures j _ calling actors.shared .refl).2 choice answer shared served
    · simp only [Function.update_of_ne same] at running
      exact (kept.ensures j program running).stable others
  | finish i =>
    obtain ⟨result, done, rfl⟩ := steps_finish moved
    refine ⟨fun j => ?_, fun j program running => ?_⟩
    · by_cases same : j = i
      · subst same
        simpa using valid.finishes (kept.post done)
      · simpa [Function.update_of_ne same] using kept.inv j
    · by_cases same : j = i
      · subst same
        simp at running
      · simp only [Function.update_of_ne same] at running ⊢
        exact kept.ensures j program running

/-- A move does to the object what others may do. -/
theorem Kept.rely {move : Move ε ι α χ} (valid : contract.Valid) (kept : contract.Kept actors)
    (permits : contract.Permits actors move) (moved : system.Steps actors move next) :
    ReflTransGen contract.rely actors.shared next.shared := by
  cases move with
  | outside event =>
    obtain ⟨shared, stepped, rfl⟩ := steps_outside moved
    exact .single (valid.outside (permits event rfl) stepped)
  | start i argument =>
    obtain ⟨-, rfl⟩ := steps_start moved
    exact .refl
  | call i choice =>
    obtain ⟨op, continue_, answer, shared, calling, served, rfl⟩ := steps_call moved
    exact valid.calls (kept.guard calling) served
  | finish i =>
    obtain ⟨result, done, rfl⟩ := steps_finish moved
    exact .refl

/-- A valid contract is kept in every state of a run. -/
theorem always_kept {moves : List (Move ε ι α χ)} (valid : contract.Valid) (initial : contract.Kept actors)
    (permitted : AlwaysStep system.Steps actors moves contract.Permits) :
    Always system.Steps actors moves contract.Kept :=
  permitted.always initial fun _ _ _ _ _ _ _ kept permits moved => kept.step valid permits moved

theorem rely_of_path {moves : List (Move ε ι α χ)} (valid : contract.Valid) (initial : contract.Kept actors)
    (permitted : AlwaysStep system.Steps actors moves contract.Permits)
    (path : Path system.Steps actors moves next) : ReflTransGen contract.rely actors.shared next.shared := by
  have kept := always_kept valid initial permitted
  have runs : Always system.Steps actors moves fun state =>
      ReflTransGen contract.rely actors.shared state.shared := by
    refine permitted.always .refl fun front move back before after split reached run permits moved => ?_
    exact run.trans ((kept front _ before split reached).rely valid permits moved)
  exact runs.last path

end Contract

end ActorSystem

end Machine
