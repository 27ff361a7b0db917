import Zongzi.Machine.Actors

/-! # Two groups of actors beside each other

Two systems may share one object. Each of them sees the moves of the other as steps that the object takes on its own,
so a contract of one holds in the company of the other as long as every move of the other is a step that the contract
relies on (`Joint.always_kept`).

For that, more may have to be known about the calls of a group than its own contract needs. A contract is narrowed to
the calls that the programs of its system can make at all.
-/

namespace Machine

open Relation

namespace ActorSystem.Contract

variable {σ ε ι μ α Op χ ρ τ : Type} {Res : Op → Type} {system : ActorSystem σ ε ι μ α Op Res χ ρ}

section Narrow

variable {serve : Serve σ Op Res χ} {allowed : Op → Prop} {contract : Contract system}

/-- The same contract for an object that gives fewer answers and programs that make only these calls. -/
def narrow (contract : Contract system) (serve : Serve σ Op Res χ) (allowed : Op → Prop) :
    Contract { system with serve } where
  rely := contract.rely
  permits := contract.permits
  guard i shared op := contract.guard i shared op ∧ allowed op
  inv := contract.inv
  post := contract.post

variable (fewer : ∀ {shared op choice answer after}, serve shared op choice = some (answer, after) →
  system.serve shared op choice = some (answer, after))
include fewer

theorem Ensures.narrow {i : ι} {program : Program Op Res τ} {shared : σ} {post : τ → σ → Prop}
    (only : program.OnlyCalls allowed) (ensures : contract.Ensures i program shared post) :
    (contract.narrow serve allowed).Ensures i program shared post := by
  induction program generalizing shared with
  | done result => exact ensures
  | call op continue_ ih =>
    intro before others
    obtain ⟨guarded, rest⟩ := ensures before others
    refine ⟨⟨guarded, only.1⟩, fun choice answer after served => ?_⟩
    exact ih answer (only.2 answer) (rest choice answer after (fewer served))

theorem Valid.narrow (valid : contract.Valid)
    (only : ∀ i argument memory, (system.start i argument memory).OnlyCalls allowed) :
    (contract.narrow serve allowed).Valid where
  stable := valid.stable
  outside := valid.outside
  calls guarded served := valid.calls guarded.1 (fewer served)
  starts argument inv := (valid.starts argument inv).narrow fewer (only _ argument _)
  finishes := valid.finishes

end Narrow

variable {contract : Contract system} {actors next : Actors σ ι μ Op Res ρ}

/-- Whatever a group relies on may happen to the object. -/
theorem Kept.others {shared : σ} (valid : contract.Valid) (kept : contract.Kept actors)
    (others : ReflTransGen contract.rely actors.shared shared) : contract.Kept { actors with shared } where
  inv i := valid.stable_star (kept.inv i) others
  ensures i program running := (kept.ensures i program running).stable others

/-- What outside steps and guarded calls do to the object, every move does. -/
theorem Kept.does [DecidableEq ι] {does : σ → σ → Prop} {move : Move ε ι α χ} (kept : contract.Kept actors)
    (moved : system.Steps actors move next)
    (outside : ∀ event, move = .outside event → ∀ after, system.outside actors.shared event = some after →
      does actors.shared after)
    (calls : ∀ {i shared op choice answer after}, contract.guard i shared op →
      system.serve shared op choice = some (answer, after) → does shared after) :
    ReflTransGen does actors.shared next.shared := by
  cases move with
  | outside event =>
    obtain ⟨shared, stepped, rfl⟩ := steps_outside moved
    exact .single (outside event rfl shared stepped)
  | start i argument =>
    obtain ⟨-, rfl⟩ := steps_start moved
    exact .refl
  | call i choice =>
    obtain ⟨op, continue_, answer, shared, calling, served, rfl⟩ := steps_call moved
    exact .single (calls (kept.guard calling) served)
  | finish i =>
    obtain ⟨result, -, rfl⟩ := steps_finish moved
    exact .refl

end ActorSystem.Contract

section Joint

variable {σ ε ι μ α Op χ ρ ι' μ' α' Op' χ' ρ' : Type} {Res : Op → Type} {Res' : Op' → Type}

/-- Two groups that see one object. -/
structure Joint (σ ι μ Op : Type) (Res : Op → Type) (ρ ι' μ' Op' : Type) (Res' : Op' → Type) (ρ' : Type) where
  left : Actors σ ι μ Op Res ρ
  right : Actors σ ι' μ' Op' Res' ρ'
  one : left.shared = right.shared

/-- A move of one group. A step of the object on its own is written as a move of either. -/
abbrev JointMove (ε ι α χ ι' α' χ' : Type) : Type := Move ε ι α χ ⊕ Move ε ι' α' χ'

namespace Joint

variable [DecidableEq ι] [DecidableEq ι'] {first : ActorSystem σ ε ι μ α Op Res χ ρ}
  {second : ActorSystem σ ε ι' μ' α' Op' Res' χ' ρ'} {joint next : Joint σ ι μ Op Res ρ ι' μ' Op' Res' ρ'}

def step (first : ActorSystem σ ε ι μ α Op Res χ ρ) (second : ActorSystem σ ε ι' μ' α' Op' Res' χ' ρ')
    (joint : Joint σ ι μ Op Res ρ ι' μ' Op' Res' ρ') :
    JointMove ε ι α χ ι' α' χ' → Option (Joint σ ι μ Op Res ρ ι' μ' Op' Res' ρ')
  | .inl move => (first.step joint.left move).map fun left =>
    { left, right := { joint.right with shared := left.shared }, one := rfl }
  | .inr move => (second.step joint.right move).map fun right =>
    { left := { joint.left with shared := right.shared }, right, one := rfl }

def Steps (first : ActorSystem σ ε ι μ α Op Res χ ρ) (second : ActorSystem σ ε ι' μ' α' Op' Res' χ' ρ')
    (joint : Joint σ ι μ Op Res ρ ι' μ' Op' Res' ρ') (move : JointMove ε ι α χ ι' α' χ')
    (next : Joint σ ι μ Op Res ρ ι' μ' Op' Res' ρ') : Prop :=
  joint.step first second move = some next

/-- The event of a move that the object makes on its own. -/
def event? : JointMove ε ι α χ ι' α' χ' → Option ε
  | .inl (.outside event) | .inr (.outside event) => some event
  | _ => none

theorem steps_left {move : Move ε ι α χ} (moved : Steps first second joint (.inl move) next) :
    first.Steps joint.left move next.left ∧ next.right = { joint.right with shared := next.left.shared } := by
  obtain ⟨left, stepped, rfl⟩ := Option.map_eq_some_iff.mp moved
  exact ⟨stepped, rfl⟩

theorem steps_right {move : Move ε ι' α' χ'} (moved : Steps first second joint (.inr move) next) :
    second.Steps joint.right move next.right ∧ next.left = { joint.left with shared := next.right.shared } := by
  obtain ⟨right, stepped, rfl⟩ := Option.map_eq_some_iff.mp moved
  exact ⟨stepped, rfl⟩

section Kept

variable {good : σ → Prop} {left : (first.within good).Contract} {right : (second.within good).Contract}

/-- The object is good, and both groups keep their contracts. -/
structure Kept (good : σ → Prop) (left : (first.within good).Contract) (right : (second.within good).Contract)
    (joint : Joint σ ι μ Op Res ρ ι' μ' Op' Res' ρ') : Prop where
  good : good joint.left.shared
  left : left.Kept joint.left
  right : right.Kept joint.right

/-- Both contracts are valid, and each group relies on the calls of the other. -/
structure Compatible (good : σ → Prop) (left : (first.within good).Contract)
    (right : (second.within good).Contract) : Prop where
  left_valid : left.Valid
  right_valid : right.Valid
  outside : first.outside = second.outside
  good_left : ∀ {actors move next}, good actors.shared → first.Steps actors move next → good next.shared
  good_right : ∀ {actors move next}, good actors.shared → second.Steps actors move next → good next.shared
  left_calls : ∀ {i shared op choice answer after}, left.guard i shared op →
    serveWithin good first.serve shared op choice = some (answer, after) → right.rely shared after
  right_calls : ∀ {i shared op choice answer after}, right.guard i shared op →
    serveWithin good second.serve shared op choice = some (answer, after) → left.rely shared after

theorem Kept.step {move : JointMove ε ι α χ ι' α' χ'} (compatible : Compatible good left right)
    (kept : Kept good left right joint)
    (permits : ∀ event, event? move = some event → good joint.left.shared →
      left.permits joint.left.shared event ∧ right.permits joint.left.shared event)
    (moved : Steps first second joint move next) : Kept good left right next := by
  have same := joint.one
  cases move with
  | inl move =>
    obtain ⟨stepped, rest⟩ := steps_left moved
    have fine := compatible.good_left kept.good stepped
    replace stepped := (ActorSystem.steps_within kept.good).mpr stepped
    have permitted (event : ε) (is : move = .outside event) := permits event (is ▸ rfl) kept.good
    have others := kept.left.does stepped (fun event is after taken =>
      compatible.right_valid.outside (permitted event is).2 (compatible.outside ▸ taken)) compatible.left_calls
    refine ⟨fine, kept.left.step compatible.left_valid (fun event is => (permitted event is).1) stepped, ?_⟩
    rw [rest]
    exact kept.right.others compatible.right_valid (same ▸ others)
  | inr move =>
    obtain ⟨stepped, rest⟩ := steps_right moved
    have fine := compatible.good_right (same ▸ kept.good) stepped
    replace stepped := (ActorSystem.steps_within (same ▸ kept.good)).mpr stepped
    have permitted (event : ε) (is : move = .outside event) := permits event (is ▸ rfl) kept.good
    rw [same] at permitted
    have others := kept.right.does stepped (fun event is after taken =>
      compatible.left_valid.outside (permitted event is).1 (compatible.outside ▸ taken)) compatible.right_calls
    refine ⟨next.one ▸ fine, ?_,
      kept.right.step compatible.right_valid (fun event is => (permitted event is).2) stepped⟩
    rw [rest]
    exact kept.left.others compatible.left_valid (same ▸ others)

/-- What both groups ensure alone, they ensure together. -/
theorem always_kept {moves : List (JointMove ε ι α χ ι' α' χ')} (compatible : Compatible good left right)
    (initial : Kept good left right joint)
    (permitted : AlwaysStep (Steps first second) joint moves fun joint move => ∀ event, event? move = some event →
      good joint.left.shared → left.permits joint.left.shared event ∧ right.permits joint.left.shared event) :
    Always (Steps first second) joint moves (Kept good left right) :=
  permitted.always initial fun _ _ _ _ _ _ _ kept permits moved => kept.step compatible permits moved

end Kept

end Joint

end Joint

end Machine
