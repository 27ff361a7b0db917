import Zongzi.Machine.Path

/-! # Programs that call a shared object

A program is a tree of calls: it asks for an operation and continues with the answer. A handler in
another monad interprets it, and a pool runs any number of programs against one shared object, one
call at a time. Which program moves and what the object does where it has a choice is the label of a
step, so a run is determined by its labels.

`OnlyCalls` bounds the operations a program can ask for, whatever the answers are, `Returns` what it can
return, and `Records` what it can return after which calls. `Can` says that it does return something after
some calls.
-/

namespace Machine

/-- A program over the operations `Op`, whose answers have the types `Res`. -/
inductive Program (Op : Type) (Res : Op → Type) (ρ : Type) where
  | done (result : ρ)
  | call (op : Op) (next : Res op → Program Op Res ρ)

namespace Program

variable {Op : Type} {Res : Op → Type} {ρ τ : Type}

def bind : Program Op Res ρ → (ρ → Program Op Res τ) → Program Op Res τ
  | .done result, continue_ => continue_ result
  | .call op next, continue_ => .call op fun answer => (next answer).bind continue_

instance : Monad (Program Op Res) where
  pure := .done
  bind := .bind

/-- Ask for one operation. -/
def perform (op : Op) : Program Op Res (Res op) := .call op .done

@[simp] theorem pure_eq (result : ρ) : (pure result : Program Op Res ρ) = .done result := rfl

@[simp] theorem done_bind (result : ρ) (continue_ : ρ → Program Op Res τ) :
    (.done result >>= continue_) = continue_ result := rfl

@[simp] theorem call_bind (op : Op) (next : Res op → Program Op Res ρ)
    (continue_ : ρ → Program Op Res τ) :
    (.call op next >>= continue_) = .call op fun answer => next answer >>= continue_ := rfl

@[simp] theorem perform_bind (op : Op) (continue_ : Res op → Program Op Res τ) :
    (perform op >>= continue_) = .call op continue_ := rfl

theorem bind_done (program : Program Op Res ρ) : program.bind .done = program := by
  induction program with
  | done result => rfl
  | call op next ih => exact congrArg (Program.call op) (funext ih)

theorem bind_bind {υ : Type} (program : Program Op Res ρ) (first : ρ → Program Op Res τ)
    (second : τ → Program Op Res υ) :
    (program.bind first).bind second = program.bind fun result => (first result).bind second := by
  induction program with
  | done result => rfl
  | call op next ih => exact congrArg (Program.call op) (funext ih)

instance : LawfulMonad (Program Op Res) := .mk' _ bind_done (fun _ _ => rfl) bind_bind

/-- Answer every operation in another monad. -/
def interpret {m : Type → Type} [Monad m] (handle : (op : Op) → m (Res op)) :
    Program Op Res ρ → m ρ
  | .done result => pure result
  | .call op next => do interpret handle (next (← handle op))

theorem interpret_bind {m : Type → Type} [Monad m] [LawfulMonad m] (handle : (op : Op) → m (Res op))
    (program : Program Op Res ρ) (continue_ : ρ → Program Op Res τ) :
    (program >>= continue_).interpret handle =
      program.interpret handle >>= fun result => (continue_ result).interpret handle := by
  induction program with
  | done result => simp [interpret]
  | call op next ih =>
    change (handle op >>= fun answer => (next answer >>= continue_).interpret handle) = _
    simp only [ih, interpret, bind_assoc]

/-- An order in which a loop may visit a collection of `count` entries. -/
abbrev Order (count : ℕ) : Type := { order : List ℕ // order.Perm (List.range count) }

/-- The order in which nothing is moved. -/
def Order.unmoved (count : ℕ) : Order count := ⟨List.range count, .refl _⟩

/-- Visit the entries of a map in the order that is answered. -/
def visit {m : Type → Type} [Monad m] (ask : (count : ℕ) → m (Order count)) {κ β : Type} [Ord κ]
    [Std.TransOrd κ] (entries : Std.ExtTreeMap κ β) : m (List (κ × β)) := do
  let order ← ask entries.size
  return order.val.filterMap (entries.toList[·]?)

/-- Every order visits every entry. -/
theorem mem_visited {α : Type} {entries : List α} {count : ℕ} (length : entries.length = count)
    (order : Order count) {entry : α} :
    entry ∈ order.val.filterMap (entries[·]?) ↔ entry ∈ entries := by
  rw [List.mem_filterMap, List.mem_iff_getElem?]
  constructor
  · rintro ⟨position, -, found⟩
    exact ⟨position, found⟩
  · rintro ⟨position, found⟩
    refine ⟨position, order.property.mem_iff.mpr (List.mem_range.mpr ?_), found⟩
    exact length ▸ (List.getElem?_eq_some_iff.mp found).1

section OnlyCalls

variable {allowed : Op → Prop}

/-- Every operation the program can come to ask for is allowed. -/
def OnlyCalls (allowed : Op → Prop) : Program Op Res ρ → Prop
  | .done _ => True
  | .call op next => allowed op ∧ ∀ answer, OnlyCalls allowed (next answer)

theorem OnlyCalls.any (program : Program Op Res ρ) : OnlyCalls (fun _ => True) program := by
  induction program with
  | done result => exact True.intro
  | call op next ih => exact ⟨True.intro, ih⟩

theorem OnlyCalls.mono {more : Op → Prop} {program : Program Op Res ρ} (only : OnlyCalls allowed program)
    (weaker : ∀ op, allowed op → more op) : OnlyCalls more program := by
  induction program with
  | done result => exact True.intro
  | call op next ih => exact ⟨weaker op only.1, fun answer => ih answer (only.2 answer)⟩

theorem OnlyCalls.perform {op : Op} (permitted : allowed op) :
    OnlyCalls allowed (perform op : Program Op Res (Res op)) :=
  ⟨permitted, fun _ => trivial⟩

theorem OnlyCalls.bind {first : Program Op Res ρ} {continue_ : ρ → Program Op Res τ}
    (head : OnlyCalls allowed first) (rest : ∀ result, OnlyCalls allowed (continue_ result)) :
    OnlyCalls allowed (first >>= continue_) := by
  induction first with
  | done result => exact rest result
  | call op next ih => exact ⟨head.1, fun answer => ih answer (head.2 answer)⟩

/-- Interpreting with a state calls only what the handler calls. -/
theorem OnlyCalls.interpret {Op' : Type} {Res' : Op' → Type} {allowed' : Op' → Prop} {β : Type}
    {handle : (op : Op) → StateT β (Program Op' Res') (Res op)}
    (handles : ∀ op state, OnlyCalls allowed' ((handle op).run state)) (program : Program Op Res ρ)
    (state : β) : OnlyCalls allowed' ((program.interpret handle).run state) := by
  induction program generalizing state with
  | done result => exact trivial
  | call op next ih =>
    exact .bind (handles op state) fun (answer, state) => ih answer state

end OnlyCalls

section Returns

variable {possible : (op : Op) → Res op → Prop} {post : ρ → Prop}

/-- Every result the program can come to, with answers that are possible, satisfies the condition. -/
def Returns (possible : (op : Op) → Res op → Prop) (post : ρ → Prop) : Program Op Res ρ → Prop
  | .done result => post result
  | .call op next => ∀ answer, possible op answer → Returns possible post (next answer)

theorem Returns.any (program : Program Op Res ρ) : Returns possible (fun _ => True) program := by
  induction program with
  | done result => exact True.intro
  | call op next ih => exact fun answer _ => ih answer

theorem Returns.mono {weak : ρ → Prop} {program : Program Op Res ρ}
    (returns : Returns possible post program) (weaker : ∀ result, post result → weak result) :
    Returns possible weak program := by
  induction program with
  | done result => exact weaker result returns
  | call op next ih => exact fun answer can => ih answer (returns answer can)

theorem Returns.bind {middle : ρ → Prop} {post : τ → Prop} {first : Program Op Res ρ}
    {continue_ : ρ → Program Op Res τ} (head : Returns possible middle first)
    (rest : ∀ result, middle result → Returns possible post (continue_ result)) :
    Returns possible post (first >>= continue_) := by
  induction first with
  | done result => exact rest result head
  | call op next ih => exact fun answer can => ih answer (head answer can)

end Returns

section Record

variable {possible : (op : Op) → Res op → Prop}

/-- The same program, which also returns its calls with their answers. -/
def record : Program Op Res ρ → Program Op Res (ρ × List (Σ op, Res op))
  | .done result => .done (result, [])
  | .call op next => .call op fun answer => do
    let (result, calls) ← (next answer).record
    return (result, ⟨op, answer⟩ :: calls)

theorem fst_record (program : Program Op Res ρ) : Prod.fst <$> program.record = program := by
  induction program with
  | done result => rfl
  | call op next ih =>
    refine congrArg (Program.call op) (funext fun answer => ?_)
    calc Prod.fst <$> (do
          let (result, calls) ← (next answer).record
          return (result, (⟨op, answer⟩ : Σ op, Res op) :: calls))
      _ = Prod.fst <$> (next answer).record := by simp only [bind_pure_comp, Functor.map_map]
      _ = next answer := ih answer

theorem record_onlyCalls {allowed : Op → Prop} {program : Program Op Res ρ}
    (only : program.OnlyCalls allowed) : program.record.OnlyCalls allowed := by
  induction program with
  | done result => exact trivial
  | call op next ih => exact ⟨only.1, fun answer => .bind (ih answer (only.2 answer)) fun _ => trivial⟩

/-- Every result the program can come to satisfies the condition together with the calls made for it. -/
def Records (possible : (op : Op) → Res op → Prop) :
    Program Op Res ρ → (ρ → List (Σ op, Res op) → Prop) → Prop
  | .done result, post => post result []
  | .call op next, post => ∀ answer, possible op answer →
      Records possible (next answer) fun result calls => post result (⟨op, answer⟩ :: calls)

theorem Records.any (program : Program Op Res ρ) : program.Records possible fun _ _ => True := by
  induction program with
  | done result => exact True.intro
  | call op next ih => exact fun answer _ => ih answer

theorem Records.mono {program : Program Op Res ρ} {strong weak : ρ → List (Σ op, Res op) → Prop}
    (records : program.Records possible strong)
    (weaker : ∀ result calls, strong result calls → weak result calls) : program.Records possible weak := by
  induction program generalizing strong weak with
  | done result => exact weaker result [] records
  | call op next ih =>
    exact fun answer can => ih answer (records answer can) fun result calls => weaker result _

theorem Records.bind {first : Program Op Res ρ} {continue_ : ρ → Program Op Res τ}
    {middle : ρ → List (Σ op, Res op) → Prop} {post : τ → List (Σ op, Res op) → Prop}
    (head : first.Records possible middle)
    (rest : ∀ result calls, middle result calls →
      (continue_ result).Records possible fun value more => post value (calls ++ more)) :
    (first >>= continue_).Records possible post := by
  induction first generalizing middle post with
  | done result => exact rest result [] head
  | call op next ih => exact fun answer can => ih answer (head answer can) fun result calls => rest result _

theorem Records.returns {program : Program Op Res ρ} {post : ρ → List (Σ op, Res op) → Prop}
    (records : program.Records possible post) :
    program.record.Returns possible fun (result, calls) => post result calls := by
  induction program generalizing post with
  | done result => exact records
  | call op next ih => exact fun answer can => .bind (ih answer (records answer can)) fun _ held => held

end Record

section Can

/-- The program can come to the result with these calls. -/
def Can : Program Op Res ρ → ρ → List (Σ op, Res op) → Prop
  | .done value, result, calls => value = result ∧ calls = []
  | .call op next, result, calls => ∃ answer rest, calls = ⟨op, answer⟩ :: rest ∧ (next answer).Can result rest

theorem Can.done (result : ρ) : (done result : Program Op Res ρ).Can result [] := ⟨rfl, rfl⟩

theorem Can.call {op : Op} {next : Res op → Program Op Res ρ} {result : ρ} {rest : List (Σ op, Res op)}
    (answer : Res op) (can : (next answer).Can result rest) : (call op next).Can result (⟨op, answer⟩ :: rest) :=
  ⟨answer, rest, rfl, can⟩

theorem Can.bind {first : Program Op Res ρ} {continue_ : ρ → Program Op Res τ} {middle : ρ} {result : τ}
    {calls more : List (Σ op, Res op)} (head : first.Can middle calls) (rest : (continue_ middle).Can result more) :
    (first >>= continue_).Can result (calls ++ more) := by
  induction first generalizing calls with
  | done value =>
    obtain ⟨rfl, rfl⟩ := head
    exact rest
  | call op next ih =>
    obtain ⟨answer, after, rfl, head⟩ := head
    exact .call answer (ih answer head)

/-- What a program records holds of everything it can do. -/
theorem Records.of_can {possible : (op : Op) → Res op → Prop} {program : Program Op Res ρ}
    {post : ρ → List (Σ op, Res op) → Prop} {result : ρ} {calls : List (Σ op, Res op)}
    (records : program.Records possible post) (can : program.Can result calls)
    (fair : ∀ call ∈ calls, possible call.1 call.2) : post result calls := by
  induction program generalizing post calls with
  | done value =>
    obtain ⟨rfl, rfl⟩ := can
    exact records
  | call op next ih =>
    obtain ⟨answer, rest, rfl, can⟩ := can
    have head := records answer (fair ⟨op, answer⟩ List.mem_cons_self)
    apply ih answer head can
    exact fun call member => fair call (List.mem_cons_of_mem _ member)

end Can

end Program

/-- How a shared object answers: its state, the operation and its own choice give the answer and the
next state, or the choice is not possible. -/
abbrev Serve (σ Op : Type) (Res : Op → Type) (χ : Type) : Type :=
  σ → (op : Op) → χ → Option (Res op × σ)

/-- A shared object and the programs that call it. -/
structure Pool (σ ι Op : Type) (Res : Op → Type) (ρ : Type) where
  shared : σ
  threads : ι → Program Op Res ρ

namespace Pool

variable {σ ι Op ρ χ : Type} {Res : Op → Type} [DecidableEq ι]

/-- One program makes its next call. -/
def step (serve : Serve σ Op Res χ) (pool : Pool σ ι Op Res ρ) (label : ι × χ) :
    Option (Pool σ ι Op Res ρ) :=
  match pool.threads label.1 with
  | .done _ => none
  | .call op next => (serve pool.shared op label.2).map fun (answer, shared) =>
    { shared, threads := Function.update pool.threads label.1 (next answer) }

def Steps (serve : Serve σ Op Res χ) (pool : Pool σ ι Op Res ρ) (label : ι × χ)
    (next : Pool σ ι Op Res ρ) : Prop :=
  pool.step serve label = some next

/-- Run a schedule. -/
def run (serve : Serve σ Op Res χ) (pool : Pool σ ι Op Res ρ) :
    List (ι × χ) → Option (Pool σ ι Op Res ρ)
  | [] => some pool
  | label :: labels => (pool.step serve label).bind fun next => next.run serve labels

variable {serve : Serve σ Op Res χ} {pool next : Pool σ ι Op Res ρ} {label : ι × χ}

theorem steps_determined : Determined (Steps (ρ := ρ) (ι := ι) serve) := by
  intro pool label left right moved again
  exact Option.some.inj (moved.symm.trans again)

theorem path_iff_run {labels : List (ι × χ)} :
    Path (Steps serve) pool labels next ↔ pool.run serve labels = some next := by
  induction labels generalizing pool with
  | nil => rw [Path.nil_iff, run, Option.some_inj, eq_comm]
  | cons label labels ih =>
    rw [Path.cons_iff, run, Option.bind_eq_some_iff]
    simp only [ih]
    rfl

/-- A step serves the next call of the program that moves. -/
theorem steps_cases (moved : pool.Steps serve label next) :
    ∃ op continue_ answer shared, pool.threads label.1 = .call op continue_ ∧
      serve pool.shared op label.2 = some (answer, shared) ∧
      next = { shared, threads := Function.update pool.threads label.1 (continue_ answer) } := by
  unfold Steps step at moved
  split at moved
  · contradiction
  · next op continue_ calling =>
    obtain ⟨⟨answer, shared⟩, served, rfl⟩ := Option.map_eq_some_iff.mp moved
    exact ⟨op, continue_, answer, shared, calling, served, rfl⟩

/-- A program that has finished stays finished. -/
theorem done_step (moved : pool.Steps serve label next) {i : ι} {result : ρ}
    (finished : pool.threads i = .done result) : next.threads i = .done result := by
  obtain ⟨op, continue_, answer, shared, calling, -, rfl⟩ := steps_cases moved
  have different : i ≠ label.1 := by
    rintro rfl
    cases finished.symm.trans calling
  rw [← finished]
  exact Function.update_of_ne different ..

/-- Programs stay within the operations they can ask for. -/
theorem onlyCalls_step {allowed : Op → Prop} (moved : pool.Steps serve label next)
    (only : ∀ i, (pool.threads i).OnlyCalls allowed) : ∀ i, (next.threads i).OnlyCalls allowed := by
  obtain ⟨op, continue_, answer, shared, calling, -, rfl⟩ := steps_cases moved
  intro i
  by_cases same : i = label.1
  · subst same
    have within := only label.1
    rw [calling] at within
    simpa using within.2 answer
  · simpa [Function.update_of_ne same] using only i

end Pool

end Machine
