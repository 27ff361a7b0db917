import Zongzi.Machine.Program

/-! # Loops and runs of programs

Rules for programs that loop over lists. `Ends` is for programs whose calls are of no account: it says what
they return, whatever is answered. `Records` rules keep the calls as well. `exec` runs a program alone against
an object.
-/

namespace Machine

/-- A loop with more in its state does the same for the part that a smaller loop has. -/
theorem map_forIn_bind {m : Type → Type} [Monad m] [LawfulMonad m] {α β γ δ ε : Type} (f : β → γ) {g : δ → ε}
    {items : List α} {start : β} {body : α → β → m (ForInStep β)} {body' : α → γ → m (ForInStep γ)}
    {rest : β → m δ} {rest' : γ → m ε}
    (step : ∀ item state, (fun
      | .done next => .done (f next)
      | .yield next => .yield (f next) : ForInStep β → ForInStep γ) <$> body item state = body' item (f state))
    (last : ∀ state, g <$> rest state = rest' (f state)) :
    g <$> (forIn items start body >>= rest) = forIn items (f start) body' >>= rest' := by
  rw [map_bind]
  simp only [last]
  induction items generalizing start with
  | nil => simp
  | cons item items ih =>
    simp only [List.forIn_cons, ← step, bind_map_left, bind_assoc]
    refine bind_congr fun outcome => ?_
    cases outcome with
    | done next => simp
    | yield next => exact ih

namespace Program

variable {Op ρ τ α β : Type} {Res : Op → Type} {quiet : Op → Prop} {possible : (op : Op) → Res op → Prop}

/-- The program only makes quiet calls, and every result it can come to satisfies the condition. -/
def Ends (quiet : Op → Prop) : Program Op Res ρ → (ρ → Prop) → Prop
  | .done result, post => post result
  | .call op next, post => quiet op ∧ ∀ answer, Ends quiet (next answer) post

theorem Ends.mono {program : Program Op Res ρ} {strong weak : ρ → Prop} (ends : program.Ends quiet strong)
    (weaker : ∀ result, strong result → weak result) : program.Ends quiet weak := by
  induction program with
  | done result => exact weaker result ends
  | call op next ih => exact ⟨ends.1, fun answer => ih answer (ends.2 answer)⟩

theorem Ends.bind {first : Program Op Res ρ} {continue_ : ρ → Program Op Res τ} {middle : ρ → Prop}
    {post : τ → Prop} (head : first.Ends quiet middle)
    (rest : ∀ result, middle result → (continue_ result).Ends quiet post) :
    (first >>= continue_).Ends quiet post := by
  induction first with
  | done result => exact rest result head
  | call op next ih => exact ⟨head.1, fun answer => ih answer (head.2 answer)⟩

theorem Ends.and {program : Program Op Res ρ} {left right : ρ → Prop} (first : program.Ends quiet left)
    (second : program.Ends quiet right) : program.Ends quiet fun result => left result ∧ right result := by
  induction program with
  | done result => exact ⟨first, second⟩
  | call op next ih => exact ⟨first.1, fun answer => ih answer (first.2 answer) (second.2 answer)⟩

/-- What is known of the items before holds after the next one, until the loop is left. -/
theorem Ends.forIn {items : List α} {start : β} {body : α → β → Program Op Res (ForInStep β)}
    (inv : List α → β → Prop) (post : β → Prop) (initial : inv [] start)
    (step : ∀ front item back state, items = front ++ item :: back → inv front state →
      (body item state).Ends quiet fun
        | .yield next => inv (front ++ [item]) next
        | .done next => post next)
    (final : ∀ state, inv items state → post state) :
    (ForIn.forIn items start body).Ends quiet post := by
  suffices loops : ∀ front back state, items = front ++ back → inv front state →
      (ForIn.forIn back state body).Ends quiet post from loops [] items start rfl initial
  intro front back
  induction back generalizing front with
  | nil =>
    intro state split held
    simp only [List.append_nil] at split
    exact final state (split ▸ held)
  | cons item back ih =>
    intro state split held
    rw [List.forIn_cons]
    refine (step front item back state split held).bind fun outcome kept => ?_
    cases outcome with
    | done next => exact kept
    | yield next => exact ih (front ++ [item]) next (by simp [split]) kept

theorem Ends.foldlM {items : List α} {start : β} {body : β → α → Program Op Res β}
    (inv : List α → β → Prop) (initial : inv [] start)
    (step : ∀ front item back state, items = front ++ item :: back → inv front state →
      (body state item).Ends quiet fun next => inv (front ++ [item]) next) :
    (items.foldlM body start).Ends quiet (inv items) := by
  suffices loops : ∀ front back state, items = front ++ back → inv front state →
      (back.foldlM body state).Ends quiet (inv items) from loops [] items start rfl initial
  intro front back
  induction back generalizing front with
  | nil =>
    intro state split held
    simp only [List.append_nil] at split
    exact split ▸ held
  | cons item back ih =>
    intro state split held
    rw [List.foldlM_cons]
    exact (step front item back state split held).bind fun next kept =>
      ih (front ++ [item]) next (by simp [split]) kept

/-- The calls of a program that only makes quiet ones are quiet. -/
theorem Ends.records {program : Program Op Res ρ} {post : ρ → Prop} (ends : program.Ends quiet post) :
    program.Records possible fun result calls => post result ∧ ∀ call ∈ calls, quiet call.1 := by
  induction program with
  | done result => exact ⟨ends, by simp⟩
  | call op next ih =>
    refine fun answer _ => (ih answer (ends.2 answer)).mono fun result calls held => ?_
    exact ⟨held.1, by simpa using ⟨ends.1, held.2⟩⟩

/-- The same rule with the calls made so far. -/
theorem Records.forIn {items : List α} {start : β} {body : α → β → Program Op Res (ForInStep β)}
    (inv : List α → β → List (Σ op, Res op) → Prop) (post : β → List (Σ op, Res op) → Prop)
    (initial : inv [] start [])
    (step : ∀ front item back state calls, items = front ++ item :: back → inv front state calls →
      (body item state).Records possible fun outcome more => match outcome with
        | .yield next => inv (front ++ [item]) next (calls ++ more)
        | .done next => post next (calls ++ more))
    (final : ∀ state calls, inv items state calls → post state calls) :
    (ForIn.forIn items start body).Records possible post := by
  suffices loops : ∀ front back state calls, items = front ++ back → inv front state calls →
      (ForIn.forIn back state body).Records possible fun next more => post next (calls ++ more) by
    simpa using loops [] items start [] rfl initial
  intro front back
  induction back generalizing front with
  | nil =>
    intro state calls split held
    simp only [List.append_nil] at split
    change post state (calls ++ [])
    rw [List.append_nil]
    exact final state calls (split ▸ held)
  | cons item back ih =>
    intro state calls split held
    rw [List.forIn_cons]
    refine (step front item back state calls split held).bind fun outcome more kept => ?_
    cases outcome with
    | done next =>
      change post next (calls ++ (more ++ []))
      rw [List.append_nil]
      exact kept
    | yield next =>
      refine (ih (front ++ [item]) next (calls ++ more) (by simp [split]) kept).mono fun last rest held => ?_
      simpa using held

/-- The calls that a program returns are those it makes. -/
theorem Records.record {program : Program Op Res ρ} {post : ρ → List (Σ op, Res op) → Prop}
    (records : program.Records possible post) :
    program.record.Records possible fun (result, made) calls => made = calls ∧ post result calls := by
  induction program generalizing post with
  | done result => exact ⟨rfl, records⟩
  | call op next ih =>
    intro answer can
    refine (ih answer (records answer can)).bind fun (result, made) calls ⟨same, held⟩ => ?_
    exact ⟨by simp [same], by simpa using held⟩

private theorem filterMap_range_getElem? (entries : List α) :
    (List.range entries.length).filterMap (entries[·]?) = entries := by
  induction entries with
  | nil => rfl
  | cons entry entries ih =>
    rw [List.length_cons, List.range_succ_eq_map, List.filterMap_cons, List.filterMap_map]
    simpa [Function.comp_def] using ih

/-- Every order visits every entry once. -/
theorem perm_visited {entries : List α} {count : ℕ} (length : entries.length = count) (order : Order count) :
    (order.val.filterMap (entries[·]?)).Perm entries := by
  subst length
  exact (order.property.filterMap _).trans (.of_eq (filterMap_range_getElem? entries))

section Exec

variable {σ χ : Type} {serve : Serve σ Op Res χ} {program : Program Op Res ρ} {before after : σ}
  {choices : List χ} {result : ρ} {calls : List (Σ op, Res op)}

/-- Run a program to its end, with all its calls. -/
def exec (serve : Serve σ Op Res χ) : Program Op Res ρ → σ → List χ → Option (ρ × List (Σ op, Res op) × σ)
  | .done result, state, [] => some (result, [], state)
  | .call op next, state, choice :: choices => do
    let (answer, after) ← serve state op choice
    let (result, calls, last) ← exec serve (next answer) after choices
    return (result, ⟨op, answer⟩ :: calls, last)
  | _, _, _ => none

/-- One call that the object has answered. -/
def Served (serve : Serve σ Op Res χ) (before : σ) (call : Σ op, Res op) (after : σ) : Prop :=
  ∃ choice, serve before call.1 choice = some (call.2, after)

theorem exec_call_eq_some {op : Op} {next : Res op → Program Op Res ρ}
    (ran : exec serve (.call op next) before choices = some (result, calls, after)) :
    ∃ choice rest answer middle made, choices = choice :: rest ∧ serve before op choice = some (answer, middle) ∧
      exec serve (next answer) middle rest = some (result, made, after) ∧ calls = ⟨op, answer⟩ :: made := by
  cases choices with
  | nil => cases ran
  | cons choice rest =>
    obtain ⟨⟨answer, middle⟩, served, ran⟩ := Option.bind_eq_some_iff.mp ran
    obtain ⟨⟨value, made, last⟩, rest_ran, same⟩ := Option.bind_eq_some_iff.mp ran
    cases same
    exact ⟨choice, rest, answer, middle, made, rfl, served, rest_ran, rfl⟩

/-- The calls of a run take the object from its first state to its last. -/
theorem path_of_exec (ran : exec serve program before choices = some (result, calls, after)) :
    Path (Served serve) before calls after := by
  induction program generalizing before choices calls with
  | done value =>
    cases choices with
    | nil =>
      cases ran
      exact .nil
    | cons => cases ran
  | call op next ih =>
    obtain ⟨choice, rest, answer, middle, made, rfl, served, onwards, rfl⟩ := exec_call_eq_some ran
    exact Path.cons_iff.mpr ⟨middle, ⟨choice, served⟩, ih answer onwards⟩

/-- A run comes to one of the recorded outcomes. -/
theorem Records.of_exec {post : ρ → List (Σ op, Res op) → Prop} (records : program.Records possible post)
    (answers : ∀ {state op choice answer next}, serve state op choice = some (answer, next) → possible op answer)
    (ran : exec serve program before choices = some (result, calls, after)) : post result calls := by
  induction program generalizing before choices calls post with
  | done value =>
    cases choices with
    | nil =>
      cases ran
      exact records
    | cons => cases ran
  | call op next ih =>
    obtain ⟨choice, rest, answer, middle, made, rfl, served, onwards, rfl⟩ := exec_call_eq_some ran
    have held := ih answer (records answer (answers served)) onwards
    exact held

/-- The outcome when every call of an operation gets the same answer. -/
def answered (answer : (op : Op) → Res op) : Program Op Res ρ → ρ × List (Σ op, Res op)
  | .done result => (result, [])
  | .call op next =>
    let (result, calls) := (next (answer op)).answered answer
    (result, ⟨op, answer op⟩ :: calls)

theorem Records.of_answered {post : ρ → List (Σ op, Res op) → Prop} (records : program.Records possible post)
    (answer : (op : Op) → Res op) (can : ∀ op, possible op (answer op)) :
    post (program.answered answer).1 (program.answered answer).2 := by
  induction program generalizing post with
  | done value => exact records
  | call op next ih => exact ih (answer op) (records (answer op) (can op))

/-- The outcome when an answer may depend on the calls before it, which come first in the calls returned. -/
def converse (answer : List (Σ op, Res op) → (op : Op) → Res op) :
    Program Op Res ρ → List (Σ op, Res op) → ρ × List (Σ op, Res op)
  | .done result, calls => (result, calls)
  | .call op next, calls => (next (answer calls op)).converse answer (calls ++ [⟨op, answer calls op⟩])

theorem converse_bind (answer : List (Σ op, Res op) → (op : Op) → Res op) (first : Program Op Res ρ)
    (continue_ : ρ → Program Op Res τ) (calls : List (Σ op, Res op)) :
    (first >>= continue_).converse answer calls =
      (continue_ (first.converse answer calls).1).converse answer (first.converse answer calls).2 := by
  induction first generalizing calls with
  | done result => rfl
  | call op next ih => exact ih (answer calls op) _

theorem prefix_converse (answer : List (Σ op, Res op) → (op : Op) → Res op) (program : Program Op Res ρ)
    (calls : List (Σ op, Res op)) : calls <+: (program.converse answer calls).2 := by
  induction program generalizing calls with
  | done result => exact List.prefix_rfl
  | call op next ih => exact (List.prefix_append ..).trans (ih (answer calls op) _)

theorem mem_converse {answer : List (Σ op, Res op) → (op : Op) → Res op} {program : Program Op Res ρ}
    {before : List (Σ op, Res op)} {call : Σ op, Res op} (member : call ∈ (program.converse answer before).2) :
    call ∈ before ∨ ∃ calls, call.2 = answer calls call.1 := by
  induction program generalizing before with
  | done result => exact .inl member
  | call op next ih =>
    obtain earlier | answered := ih (answer before op) member
    · obtain earlier | here := List.mem_append.mp earlier
      · exact .inl earlier
      · cases List.mem_singleton.mp here
        exact .inr ⟨before, rfl⟩
    · exact .inr answered

theorem Records.of_converse {post : ρ → List (Σ op, Res op) → Prop}
    (records : program.Records (fun _ _ => True) post) (answer : List (Σ op, Res op) → (op : Op) → Res op)
    (before : List (Σ op, Res op)) :
    ∃ calls, (program.converse answer before).2 = before ++ calls ∧ post (program.converse answer before).1 calls := by
  induction program generalizing post before with
  | done value => exact ⟨[], by simp [converse], records⟩
  | call op next ih =>
    obtain ⟨calls, made, held⟩ := ih (answer before op) (records (answer before op) trivial)
      (before ++ [⟨op, answer before op⟩])
    exact ⟨⟨op, answer before op⟩ :: calls, by simpa [converse] using made, held⟩

/-- Some outcome is among those that are recorded. -/
theorem Records.exists_outcome {post : ρ → List (Σ op, Res op) → Prop} (records : program.Records possible post)
    (answerable : ∀ op, ∃ answer, possible op answer) : ∃ result calls, post result calls := by
  choose answer can using answerable
  exact ⟨_, _, records.of_answered answer can⟩

/-- The answers in a recorded outcome are possible. -/
theorem Records.and_possible {post : ρ → List (Σ op, Res op) → Prop} (records : program.Records possible post) :
    program.Records possible fun result calls => post result calls ∧ ∀ call ∈ calls, possible call.1 call.2 := by
  induction program generalizing post with
  | done value => exact ⟨records, by simp⟩
  | call op next ih =>
    refine fun answer can => (ih answer (records answer can)).mono fun result calls ⟨held, could⟩ => ⟨held, ?_⟩
    rintro call (_ | ⟨_, member⟩)
    · exact can
    · exact could call member

/-- A program whose runs pay for a bounded number of calls has a run from every state with room for them. -/
theorem exec_exists {able : Op → Prop} {costs : Op → Bool} {room : ℕ → σ → Prop} {count : ℕ}
    (answerable : ∀ op, ∃ answer, possible op answer)
    (serves : ∀ op left state, able op → room (left + (costs op).toNat) state →
      ∃ choice answer next, serve state op choice = some (answer, next) ∧ possible op answer ∧ room left next)
    (records : program.Records possible fun _ calls =>
      (∀ call ∈ calls, able call.1) ∧ calls.countP (costs ·.1) ≤ count)
    (enough : room count before) :
    ∃ choices result calls after, exec serve program before choices = some (result, calls, after) ∧
      (∀ call ∈ calls, possible call.1 call.2) ∧ room (count - calls.countP (costs ·.1)) after := by
  induction program generalizing before count with
  | done value => exact ⟨[], value, [], before, rfl, by simp, enough⟩
  | call op next ih =>
    obtain ⟨some_answer, can⟩ := answerable op
    obtain ⟨_, calls, ables, paid⟩ := (records some_answer can).exists_outcome answerable
    have cost (answer : Res op) (calls : List (Σ op, Res op)) : List.countP (costs ·.1) (⟨op, answer⟩ :: calls) =
        calls.countP (costs ·.1) + (costs op).toNat := by
      rw [List.countP_cons]
      cases costs op <;> rfl
    rw [cost] at paid
    obtain ⟨left, rfl⟩ := Nat.exists_eq_add_of_le' (le_of_add_le_right paid)
    obtain ⟨choice, answer, middle, served, could, remains⟩ :=
      serves op left before (ables _ List.mem_cons_self) enough
    have onwards : (next answer).Records possible fun _ calls =>
        (∀ call ∈ calls, able call.1) ∧ calls.countP (costs ·.1) ≤ left := by
      refine (records answer could).mono fun _ calls ⟨ables, paid⟩ => ?_
      rw [cost] at paid
      exact ⟨fun call member => ables call (List.mem_cons_of_mem _ member), by omega⟩
    obtain ⟨choices, result, calls, after, ran, could_all, rest⟩ := ih answer onwards remains
    refine ⟨choice :: choices, result, ⟨op, answer⟩ :: calls, after, by simp [exec, served, ran], ?_, ?_⟩
    · rintro call (_ | ⟨_, member⟩)
      · exact could
      · exact could_all call member
    · rwa [cost, Nat.add_sub_add_right]

end Exec

end Program

end Machine
