import Zongzi.Machine.Path

/-! # Goroutines and channels

Goroutines run side by side and meet at unbuffered channels: a send and a receive of a value are one step of both. From
a closed channel one can always receive, and nothing can be sent to it. A goroutine in a `select` can do each of several
things. A goroutine that another one waits for closes a channel when it exits, and one that is started later waits for a
channel to be closed.

What a goroutine does in a run is a run of its own (`foldlM_acts`). A goroutine that passes on what it receives is a
`Relay`: in every run it has given out, in order and once each, the first of the values that it has taken.
-/

namespace Machine

variable {ι C V E L τ : Type}

/-- What a goroutine takes part in. -/
inductive Act (C V E : Type) where
  | send (channel : C) (value : V)
  | receive (channel : C) (value : V)
  /-- Receive from a closed channel. -/
  | drain (channel : C)
  | close (channel : C)
  /-- Anything that concerns no other goroutine. -/
  | event (event : E)

namespace Act

variable [DecidableEq C] (channel : C)

def sent : Act C V E → Option V
  | .send other value => if other = channel then some value else none
  | _ => none

def received : Act C V E → Option V
  | .receive other value => if other = channel then some value else none
  | _ => none

end Act

/-- Goroutines, by where each of them can be and what it can do there. -/
structure Goroutines (ι C V E : Type) where
  Loc : ι → Type
  next : (i : ι) → Loc i → Act C V E → Option (Loc i)

namespace Goroutines

/-- One step: a value is exchanged, or a goroutine moves without another. -/
inductive Label (ι C V E : Type) where
  | exchange (sender receiver : ι) (channel : C) (value : V)
  | alone (i : ι) (act : Act C V E)

/-- What a goroutine does in a step, if it takes part. -/
def Label.act [DecidableEq ι] (i : ι) : Label ι C V E → Option (Act C V E)
  | .exchange sender receiver channel value =>
    if i = sender then some (.send channel value)
    else if i = receiver then some (.receive channel value) else none
  | .alone j act => if i = j then some act else none

/-- The value that is exchanged on a channel. -/
def Label.value [DecidableEq C] (channel : C) : Label ι C V E → Option V
  | .exchange _ _ other value => if other = channel then some value else none
  | .alone .. => none

def exchanged [DecidableEq C] (channel : C) (labels : List (Label ι C V E)) : List V :=
  labels.filterMap (Label.value channel)

structure Config (system : Goroutines ι C V E) where
  loc : (i : ι) → system.Loc i
  closed : C → Bool := fun _ => false

section Steps

variable [DecidableEq ι] [DecidableEq C] {system : Goroutines ι C V E}

/-- A channel is closed once. What needs another goroutine is no step of one alone. -/
def Config.permits (config : system.Config) : Act C V E → Bool
  | .send .. => false
  | .receive .. => false
  | .drain channel => config.closed channel
  | .close channel => !config.closed channel
  | .event _ => true

/-- The channels that are closed after an act. -/
def Config.closedBy (config : system.Config) : Act C V E → C → Bool
  | .close channel => Function.update config.closed channel true
  | _ => config.closed

def step (system : Goroutines ι C V E) (config : system.Config) : Label ι C V E → Option system.Config
  | .exchange sender receiver channel value =>
    if config.closed channel || sender = receiver then none
    else do
      let sent ← system.next sender (config.loc sender) (.send channel value)
      let received ← system.next receiver (config.loc receiver) (.receive channel value)
      return { config with loc := Function.update (Function.update config.loc sender sent) receiver received }
  | .alone i act =>
    if config.permits act then do
      let moved ← system.next i (config.loc i) act
      return { loc := Function.update config.loc i moved, closed := config.closedBy act }
    else none

def Steps (system : Goroutines ι C V E) (config : system.Config) (label : Label ι C V E)
    (next : system.Config) : Prop :=
  system.step config label = some next

/-- Run a schedule. -/
def run (system : Goroutines ι C V E) (config : system.Config) : List (Label ι C V E) → Option system.Config
  | [] => some config
  | label :: labels => (system.step config label).bind fun next => system.run next labels

variable {config next : system.Config} {label : Label ι C V E} {labels : List (Label ι C V E)}

theorem path_iff_run : Path system.Steps config labels next ↔ system.run config labels = some next := by
  induction labels generalizing config with
  | nil => rw [Path.nil_iff, run, Option.some_inj, eq_comm]
  | cons label labels ih =>
    rw [Path.cons_iff, run, Option.bind_eq_some_iff]
    simp only [ih]
    rfl

theorem steps_exchange_iff {sender receiver : ι} {channel : C} {value : V} :
    system.Steps config (.exchange sender receiver channel value) next ↔
      config.closed channel = false ∧ sender ≠ receiver ∧ ∃ sent received,
        system.next sender (config.loc sender) (.send channel value) = some sent ∧
        system.next receiver (config.loc receiver) (.receive channel value) = some received ∧
        next = { config with loc := Function.update (Function.update config.loc sender sent) receiver received } := by
  simp only [Steps, step]
  split
  · next blocked =>
    simp only [Bool.or_eq_true, decide_eq_true_eq] at blocked
    simp only [reduceCtorEq, false_iff]
    rintro ⟨open_, different, -⟩
    simp [open_, different] at blocked
  · next free =>
    simp only [Bool.or_eq_true, decide_eq_true_eq, not_or, Bool.not_eq_true] at free
    simp only [free.1, ne_eq, free.2, not_false_eq_true, true_and, Option.bind_eq_bind, Option.bind_eq_some_iff,
      Option.pure_def, Option.some_inj]
    constructor
    · rintro ⟨sent, sends, received, receives, rfl⟩
      exact ⟨sent, received, sends, receives, rfl⟩
    · rintro ⟨sent, received, sends, receives, rfl⟩
      exact ⟨sent, sends, received, receives, rfl⟩

theorem steps_alone_iff {i : ι} {act : Act C V E} :
    system.Steps config (.alone i act) next ↔ config.permits act ∧ ∃ moved,
      system.next i (config.loc i) act = some moved ∧
      next = { loc := Function.update config.loc i moved, closed := config.closedBy act } := by
  simp only [Steps, step]
  split
  · next permitted =>
    simp only [permitted, true_and, Option.bind_eq_bind, Option.bind_eq_some_iff, Option.pure_def, Option.some_inj]
    simp only [eq_comm]
  · next refused => simp [refused]

/-- A goroutine that takes part moves by its act. -/
theorem next_of_act {i : ι} {act : Act C V E} (moved : system.Steps config label next) (acts : label.act i = some act) :
    system.next i (config.loc i) act = some (next.loc i) := by
  cases label with
  | exchange sender receiver channel value =>
    obtain ⟨-, different, sent, received, sends, receives, rfl⟩ := steps_exchange_iff.mp moved
    dsimp only [Label.act] at acts
    split at acts
    · next here =>
      subst here
      cases acts
      dsimp only
      rw [Function.update_of_ne different, Function.update_self]
      exact sends
    · split at acts
      · next here =>
        subst here
        cases acts
        dsimp only
        rw [Function.update_self]
        exact receives
      · cases acts
  | alone j act =>
    obtain ⟨-, after, moves, rfl⟩ := steps_alone_iff.mp moved
    dsimp only [Label.act] at acts
    split at acts
    · next here =>
      subst here
      cases acts
      dsimp only
      rw [Function.update_self]
      exact moves
    · cases acts

/-- A goroutine that takes no part stays where it is. -/
theorem loc_of_idle {i : ι} (moved : system.Steps config label next) (idle : label.act i = none) :
    next.loc i = config.loc i := by
  cases label with
  | exchange sender receiver channel value =>
    obtain ⟨-, -, sent, received, -, -, rfl⟩ := steps_exchange_iff.mp moved
    dsimp only [Label.act] at idle
    split at idle
    · cases idle
    · next elsewhere =>
      split at idle
      · cases idle
      · next apart =>
        dsimp only
        rw [Function.update_of_ne apart, Function.update_of_ne elsewhere]
  | alone j act =>
    obtain ⟨-, after, -, rfl⟩ := steps_alone_iff.mp moved
    dsimp only [Label.act] at idle
    split at idle
    · cases idle
    · next elsewhere => exact Function.update_of_ne elsewhere ..

/-- The channel is closed in this step. -/
def Label.closes (channel : C) : Label ι C V E → Bool
  | .alone _ (.close other) => other = channel
  | _ => false

theorem closed_of_steps (moved : system.Steps config label next) (channel : C) :
    next.closed channel = (config.closed channel || label.closes channel) := by
  cases label with
  | exchange sender receiver other value =>
    obtain ⟨-, -, sent, received, -, -, rfl⟩ := steps_exchange_iff.mp moved
    simp [Label.closes]
  | alone j act =>
    obtain ⟨permitted, after, -, rfl⟩ := steps_alone_iff.mp moved
    cases act with
    | close other =>
      by_cases same : other = channel
      · subst same
        simp [Config.closedBy, Label.closes]
      · simp [Config.closedBy, Label.closes, same, Function.update_of_ne (Ne.symm same)]
    | _ => simp [Config.closedBy, Label.closes]

omit [DecidableEq C] in
private theorem act_alone_of {i : ι} {act : Act C V E} (acts : label.act i = some act)
    (send : ∀ channel value, act ≠ .send channel value) (receive : ∀ channel value, act ≠ .receive channel value) :
    label = .alone i act := by
  cases label with
  | exchange sender receiver channel value =>
    dsimp only [Label.act] at acts
    split at acts
    · exact absurd (Option.some.inj acts).symm (send channel value)
    · split at acts
      · exact absurd (Option.some.inj acts).symm (receive channel value)
      · cases acts
  | alone j other =>
    dsimp only [Label.act] at acts
    split at acts
    · next here =>
      subst here
      cases acts
      rfl
    · cases acts

/-- A goroutine drains only what is closed. -/
theorem closed_of_drain {i : ι} {channel : C} (moved : system.Steps config label next)
    (drains : label.act i = some (.drain channel)) : config.closed channel = true := by
  obtain rfl := act_alone_of drains nofun nofun
  exact (steps_alone_iff.mp moved).1

/-- What a goroutine does in a run. -/
def acts (i : ι) (labels : List (Label ι C V E)) : List (Act C V E) := labels.filterMap (Label.act i)

omit [DecidableEq C] in
theorem acts_append (i : ι) (front back : List (Label ι C V E)) :
    acts i (front ++ back) = acts i front ++ acts i back := List.filterMap_append

/-- What a goroutine does in a run is a run of its own. -/
theorem foldlM_acts (path : Path system.Steps config labels next) (i : ι) :
    (acts i labels).foldlM (system.next i) (config.loc i) = some (next.loc i) := by
  induction path with
  | nil => rfl
  | @snoc labels middle last label before moved ih =>
    rw [acts_append, List.foldlM_append, ih]
    change (acts i [label]).foldlM (system.next i) (middle.loc i) = _
    cases act : label.act i with
    | none =>
      rw [acts, List.filterMap_cons_none act, loc_of_idle moved act]
      rfl
    | some act' =>
      rw [acts, List.filterMap_cons_some act]
      simp [next_of_act moved act]

theorem next_of_mem_acts {i : ι} {act : Act C V E} (path : Path system.Steps config labels next)
    (made : act ∈ acts i labels) : ∃ loc after, system.next i loc act = some after := by
  induction path with
  | nil => cases made
  | @snoc labels middle last label before moved ih =>
    rw [acts_append, List.mem_append] at made
    obtain earlier | here := made
    · exact ih earlier
    · obtain ⟨_, last, acts⟩ := List.mem_filterMap.mp here
      cases List.mem_singleton.mp last
      exact ⟨_, _, next_of_act moved acts⟩

/-- A channel that is closed in a run was closed by a goroutine. -/
theorem close_mem_acts {channel : C} (path : Path system.Steps config labels next)
    (unclosed : config.closed channel = false) (shut : next.closed channel = true) :
    ∃ i, .close channel ∈ acts i labels := by
  induction path with
  | nil => cases unclosed.symm.trans shut
  | @snoc labels middle last label before moved ih =>
    rw [closed_of_steps moved, Bool.or_eq_true] at shut
    obtain earlier | here := shut
    · obtain ⟨i, closes⟩ := ih earlier
      exact ⟨i, acts_append i .. ▸ List.mem_append_left _ closes⟩
    · unfold Label.closes at here
      split at here
      · next i other =>
        obtain rfl : other = channel := of_decide_eq_true here
        exact ⟨i, List.mem_filterMap.mpr ⟨.alone i (.close other), by simp, by simp [Label.act]⟩⟩
      · cases here

theorem closed_of_close_mem_acts {i : ι} {channel : C} (path : Path system.Steps config labels next)
    (closes : .close channel ∈ acts i labels) : next.closed channel = true := by
  induction path with
  | nil => cases closes
  | @snoc labels middle last label before moved ih =>
    rw [closed_of_steps moved, Bool.or_eq_true]
    rw [acts_append, List.mem_append] at closes
    obtain earlier | here := closes
    · exact .inl (ih earlier)
    · obtain ⟨_, last, closes⟩ := List.mem_filterMap.mp here
      cases List.mem_singleton.mp last
      obtain rfl := act_alone_of closes nofun nofun
      exact .inr (decide_eq_true rfl)

/-- One receives from a closed channel after it was closed. -/
theorem close_mem_acts_of_drain {i : ι} {channel : C} (path : Path system.Steps config labels next)
    (unclosed : config.closed channel = false) (drained : .drain channel ∈ acts i labels) :
    ∃ j, .close channel ∈ acts j labels := by
  induction path with
  | nil => cases drained
  | @snoc labels middle last label before moved ih =>
    have earlier : (∃ j, .close channel ∈ acts j labels) → ∃ j, .close channel ∈ acts j (labels ++ [label]) :=
      fun ⟨j, closes⟩ => ⟨j, acts_append j .. ▸ List.mem_append_left _ closes⟩
    rw [acts_append, List.mem_append] at drained
    obtain before | here := drained
    · exact earlier (ih before)
    · obtain ⟨_, last, drains⟩ := List.mem_filterMap.mp here
      cases List.mem_singleton.mp last
      exact earlier (close_mem_acts before unclosed (closed_of_drain moved drains))

/-- If the value of each step is what a goroutine does there, the values of a run are what it does in the run. -/
private theorem filterMap_acts {i : ι} {channel : C} {pick : Act C V E → Option V}
    (picks : ∀ label ∈ labels, (label.act i).bind pick = label.value channel) :
    (acts i labels).filterMap pick = exchanged channel labels := by
  rw [acts, List.filterMap_filterMap, exchanged]
  exact List.filterMap_congr picks

/-- Every label of a run is that of a step. -/
theorem steps_of_mem (path : Path system.Steps config labels next) (member : label ∈ labels) :
    ∃ before after, system.Steps before label after := by
  obtain ⟨front, back, rfl⟩ := List.append_of_mem member
  obtain ⟨before, after, -, moved, -⟩ := path.cut
  exact ⟨before, after, moved⟩

/-- If only one goroutine receives from a channel, it receives what is exchanged there. -/
theorem received_acts {i : ι} {channel : C} (path : Path system.Steps config labels next)
    (only : ∀ j value, .receive channel value ∈ acts j labels → ∀ loc after,
      system.next j loc (.receive channel value) = some after → j = i) :
    (acts i labels).filterMap (Act.received channel) = exchanged channel labels := by
  refine filterMap_acts fun label member => ?_
  obtain ⟨before, after, moved⟩ := steps_of_mem path member
  cases label with
  | exchange sender receiver other value =>
    obtain ⟨-, different, _, _, -, receives, -⟩ := steps_exchange_iff.mp moved
    by_cases same : other = channel
    · subst same
      obtain rfl : receiver = i := only receiver value
        (List.mem_filterMap.mpr ⟨_, member, by simp [Label.act, Ne.symm different]⟩) _ _ receives
      simp [Label.act, Label.value, Act.received, Ne.symm different]
    · by_cases sends : i = sender
      · simp [Label.act, Label.value, Act.received, sends, same]
      · by_cases receives : i = receiver
        · subst receives
          simp [Label.act, Label.value, Act.received, sends, same]
        · simp [Label.act, Label.value, sends, receives, same]
  | alone j act =>
    have permitted := (steps_alone_iff.mp moved).1
    by_cases here : i = j
    · cases act with
      | receive => cases permitted
      | _ => simp [Label.act, Label.value, Act.received, here]
    · simp [Label.act, Label.value, here]

/-- If only one goroutine sends to a channel, it sends what is exchanged there. -/
theorem sent_acts {i : ι} {channel : C} (path : Path system.Steps config labels next)
    (only : ∀ j value, .send channel value ∈ acts j labels → ∀ loc after,
      system.next j loc (.send channel value) = some after → j = i) :
    (acts i labels).filterMap (Act.sent channel) = exchanged channel labels := by
  refine filterMap_acts fun label member => ?_
  obtain ⟨before, after, moved⟩ := steps_of_mem path member
  cases label with
  | exchange sender receiver other value =>
    obtain ⟨-, -, _, _, sends, -⟩ := steps_exchange_iff.mp moved
    by_cases same : other = channel
    · subst same
      obtain rfl : sender = i := only sender value (List.mem_filterMap.mpr ⟨_, member, by simp [Label.act]⟩) _ _ sends
      simp [Label.act, Label.value, Act.sent]
    · by_cases sends : i = sender
      · simp [Label.act, Label.value, Act.sent, sends, same]
      · by_cases receives : i = receiver
        · subst receives
          simp [Label.act, Label.value, Act.sent, sends, same]
        · simp [Label.act, Label.value, sends, receives, same]
  | alone j act =>
    have permitted := (steps_alone_iff.mp moved).1
    by_cases here : i = j
    · cases act with
      | send => cases permitted
      | _ => simp [Label.act, Label.value, Act.sent, here]
    · simp [Label.act, Label.value, here]

omit [DecidableEq ι] in
theorem exchanged_append (channel : C) (front back : List (Label ι C V E)) :
    exchanged channel (front ++ back) = exchanged channel front ++ exchanged channel back := List.filterMap_append

/-- If one value of what is ready can be exchanged, all of them can be in turn. -/
theorem exists_run_exchanged {value : τ → V} {ready : List τ → system.Config → Prop} {channel : C}
    (once : ∀ data rest config, ready (data :: rest) config → ∃ labels next,
      Path system.Steps config labels next ∧ ready rest next ∧ exchanged channel labels = [value data])
    (written : List τ) (config : system.Config) (begins : ready written config) :
    ∃ labels next, Path system.Steps config labels next ∧ ready [] next ∧
      exchanged channel labels = written.map value := by
  induction written generalizing config with
  | nil => exact ⟨[], config, .nil, begins, rfl⟩
  | cons data rest ih =>
    obtain ⟨front, middle, first, still, one⟩ := once data rest config begins
    obtain ⟨back, next, second, done, others⟩ := ih middle still
    refine ⟨front ++ back, next, Path.append_iff.mpr ⟨middle, first, second⟩, done, ?_⟩
    rw [exchanged_append, one, others]
    rfl

end Steps

/-- A goroutine passes on what it takes: it has what it was given and has not given out yet. Where it drops something it
gives out nothing more. -/
structure Relay (next : L → Act C V E → Option L) (takes gives : Act C V E → Option τ) (held : L → List τ)
    (dead : L → Prop) : Prop where
  moves : ∀ loc act after, next loc act = some after → ∃ lost,
    held loc ++ (takes act).toList = (gives act).toList ++ held after ++ lost ∧ (lost = [] ∨ dead after)
  rests : ∀ loc act after, dead loc → next loc act = some after → gives act = none ∧ dead after
  empty : ∀ loc, dead loc → held loc = []

section Relay

variable {next : L → Act C V E → Option L} {takes gives : Act C V E → Option τ} {held : L → List τ} {dead : L → Prop}
  {loc last : L} {acts : List (Act C V E)}

theorem Relay.of_dead (relay : Relay next takes gives held dead) (ended : dead loc)
    (ran : acts.foldlM next loc = some last) : acts.filterMap gives = [] ∧ dead last := by
  induction acts generalizing loc with
  | nil =>
    cases ran
    exact ⟨rfl, ended⟩
  | cons act acts ih =>
    rw [List.foldlM_cons] at ran
    obtain ⟨after, moved, ran⟩ := Option.bind_eq_some_iff.mp ran
    obtain ⟨silent, still⟩ := relay.rests _ _ _ ended moved
    rw [List.filterMap_cons_none silent]
    exact ih still ran

/-- In every run, what was taken is given out in order, held, or dropped at the end. -/
theorem Relay.run (relay : Relay next takes gives held dead) (ran : acts.foldlM next loc = some last) :
    ∃ lost, held loc ++ acts.filterMap takes = acts.filterMap gives ++ held last ++ lost ∧
      (lost = [] ∨ dead last) := by
  induction acts generalizing loc with
  | nil =>
    cases ran
    exact ⟨[], by simp, .inl rfl⟩
  | cons act acts ih =>
    rw [List.foldlM_cons] at ran
    obtain ⟨after, moved, ran⟩ := Option.bind_eq_some_iff.mp ran
    have takes_cons : (act :: acts).filterMap takes = (takes act).toList ++ acts.filterMap takes := by
      cases same : takes act <;> simp [same]
    have gives_cons : (act :: acts).filterMap gives = (gives act).toList ++ acts.filterMap gives := by
      cases same : gives act <;> simp [same]
    rw [takes_cons, gives_cons, ← List.append_assoc]
    obtain ⟨lost, passed, rfl | ended⟩ := relay.moves _ _ _ moved
    · obtain ⟨rest, later, final⟩ := ih ran
      refine ⟨rest, ?_, final⟩
      rw [passed, List.append_nil, List.append_assoc, later]
      simp
    · obtain ⟨silent, still⟩ := relay.of_dead ended ran
      refine ⟨lost ++ acts.filterMap takes, ?_, .inr still⟩
      rw [passed, silent, relay.empty _ ended, relay.empty _ still]
      simp

/-- A relay has given out the first of the values that it had and took. -/
theorem Relay.prefix_of_run (relay : Relay next takes gives held dead) (ran : acts.foldlM next loc = some last) :
    acts.filterMap gives <+: held loc ++ acts.filterMap takes := by
  obtain ⟨lost, kept, -⟩ := relay.run ran
  exact ⟨held last ++ lost, by rw [kept, List.append_assoc]⟩

end Relay

end Goroutines

/-- Every run comes to the goal, however it goes on. -/
inductive Inevitable {σ ε : Type} (Step : σ → ε → σ → Prop) (goal : σ → Prop) : σ → Prop where
  | now {state : σ} (reached : goal state) : Inevitable Step goal state
  | later {state : σ} (moves : ∃ label next, Step state label next)
      (rest : ∀ label next, Step state label next → Inevitable Step goal next) : Inevitable Step goal state

/-- A run comes to the goal if it cannot stop before, and each step of it takes something away. -/
theorem Inevitable.of_measure {σ ε : Type} {Step : σ → ε → σ → Prop} {goal : σ → Prop} (invariant : σ → Prop)
    (measure : σ → ℕ)
    (moves : ∀ state, invariant state → ¬ goal state → ∃ label next, Step state label next)
    (decreases : ∀ state label next, invariant state → ¬ goal state → Step state label next →
      invariant next ∧ measure next < measure state)
    {state : σ} (held : invariant state) : Inevitable Step goal state := by
  induction bound : measure state using Nat.strong_induction_on generalizing state with
  | _ bound ih =>
    subst bound
    by_cases reached : goal state
    · exact .now reached
    · refine .later (moves state held reached) fun label next moved => ?_
      obtain ⟨kept, less⟩ := decreases state label next held reached moved
      exact ih _ less kept rfl

end Machine
