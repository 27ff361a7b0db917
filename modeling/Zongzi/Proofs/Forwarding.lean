import Zongzi.Model.Streaming

/-! # Results are forwarded

The forwarder takes each result from the state machine before the state machine can go on, and sends it before it looks
at `done` again. `done` is closed when the state machine has returned. So when the server has waited for the forwarder,
all results have been sent. Once the state machine has returned the server does too, whatever its goroutines do first.
-/

namespace Zongzi

open Machine Goroutines

section Next

variable {act : StreamAct}

inductive ServerStep : ServerLoc → StreamAct → ServerLoc → Prop where
  | connect : ServerStep .connecting (.event (.connect none)) .starting
  | refuse (err : String) : ServerStep .connecting (.event (.connect (some err))) (.refused err)
  | start : ServerStep .starting (.close .started) .reading
  | emit (result : Result) : ServerStep .reading (.send .queryOut (.result result)) .reading
  | take (data : String) : ServerStep .reading (.receive .queryIn (.data data)) .reading
  | finish (err : Option String) : ServerStep .reading (.event (.returned err)) (.closing err)
  | close (err : Option String) : ServerStep (.closing err) (.close .done) (.waiting err)
  | wait (err : Option String) : ServerStep (.waiting err) (.drain .forwarderExited) (.returned err)

theorem serverStep_of_next {loc after : ServerLoc} (moved : serverNext loc act = some after) :
    ServerStep loc act after := by
  unfold serverNext at moved
  split at moved
  all_goals cases moved <;> constructor

inductive ForwarderStep : ForwarderLoc → StreamAct → ForwarderLoc → Prop where
  | start : ForwarderStep .waiting (.drain .started) .selecting
  | take (result : Result) : ForwarderStep .selecting (.receive .queryOut (.result result)) (.sending result)
  | done : ForwarderStep .selecting (.drain .done) .exiting
  | send (result : Result) (err : Option String) :
      ForwarderStep (.sending result) (.event (.srvSend result err)) .selecting
  | exit : ForwarderStep .exiting (.close .forwarderExited) .exited

theorem forwarderStep_of_next {loc after : ForwarderLoc} (moved : forwarderNext loc act = some after) :
    ForwarderStep loc act after := by
  unfold forwarderNext at moved
  split at moved
  · cases moved
    exact .start
  · cases moved
    exact .take _
  · cases moved
    exact .done
  · split at moved
    · next same =>
      subst same
      cases moved
      exact .send ..
    · cases moved
  · cases moved
    exact .exit
  · cases moved

inductive HandlerStep (srvRecv : StreamAct → Option Received) : HandlerLoc → StreamAct → HandlerLoc → Prop where
  | start : HandlerStep srvRecv .waiting (.drain .started) .receiving
  | receive {act : StreamAct} {received : Received} (recv : srvRecv act = some received) :
      HandlerStep srvRecv .receiving act received.next
  | hand (data : String) : HandlerStep srvRecv (.handing data) (.send .queryIn (.data data)) .receiving
  | done (data : String) : HandlerStep srvRecv (.handing data) (.drain .done) .exited

theorem handlerStep_of_next {srvRecv : StreamAct → Option Received} {loc after : HandlerLoc}
    (moved : handlerNext srvRecv loc act = some after) : HandlerStep srvRecv loc act after := by
  unfold handlerNext at moved
  split at moved
  · cases moved
    exact .start
  · obtain ⟨received, recv, rfl⟩ := Option.map_eq_some_iff.mp moved
    exact .receive recv
  · split at moved
    · next same =>
      subst same
      cases moved
      exact .hand _
    · cases moved
  · cases moved
    exact .done _
  · cases moved

end Next

section Relay

/-- The result that the forwarder passes to `srv.Send`. -/
def srvSent : StreamAct → Option Item
  | .event (.srvSend result _) => some (.result result)
  | _ => none

def ForwarderLoc.held : ForwarderLoc → List Item
  | .sending result => [.result result]
  | _ => []

/-- The forwarder drops nothing. -/
theorem forwarder_relay :
    Relay forwarderNext (Act.received .queryOut) srvSent ForwarderLoc.held fun _ => False where
  moves loc act after moved := by
    cases forwarderStep_of_next moved with
    | start => exact ⟨[], rfl, .inl rfl⟩
    | take result => exact ⟨[], rfl, .inl rfl⟩
    | done => exact ⟨[], rfl, .inl rfl⟩
    | send result err => exact ⟨[], rfl, .inl rfl⟩
    | exit => exact ⟨[], rfl, .inl rfl⟩
  rests _ _ _ dead := dead.elim
  empty _ dead := dead.elim

variable {start config : grpcServer.Config} {labels : List (Label ServerRole StreamChannel Item StreamEvent)}

/-- What `srv.Send` has been called with. -/
def srvSends (labels : List (Label ServerRole StreamChannel Item StreamEvent)) : List Item :=
  (acts .forwarder labels).filterMap srvSent

theorem only_forwarder {i : ServerRole} {loc after : grpcServer.Loc i} {item : Item}
    (moved : grpcServer.next i loc (.receive .queryOut item) = some after) : i = .forwarder := by
  cases i with
  | server => cases loc <;> cases moved
  | forwarder => rfl
  | handler => cases loc <;> cases moved

theorem srvSends_append_held (path : Path grpcServer.Steps start labels config)
    (idle : ForwarderLoc.held (start.loc .forwarder) = []) :
    exchanged .queryOut labels = srvSends labels ++ ForwarderLoc.held (config.loc .forwarder) := by
  obtain ⟨lost, kept, rfl | dead⟩ := forwarder_relay.run (foldlM_acts path .forwarder)
  · rw [received_acts path fun _ _ _ _ _ => only_forwarder, idle] at kept
    simpa [srvSends] using kept
  · exact dead.elim

end Relay

section Phases

/-- The state machine has returned and the server has not. -/
def ServerLoc.ending : ServerLoc → Prop
  | .closing _ => True
  | .waiting _ => True
  | _ => False

/-- How far the server and the forwarder are, by the channels that are closed. -/
structure ClosingPhase (server : ServerLoc) (forwarder : ForwarderLoc) (closed : StreamChannel → Bool) : Prop where
  /-- The forwarder waits for nothing that has not happened once the server reads. -/
  started : forwarder = .waiting → server = .reading ∨ server.ending → closed .started
  before : server = .connecting ∨ server = .starting ∨ (∃ err, server = .refused err) →
    forwarder = .waiting ∧ closed .started = false
  done : closed .done ↔ (∃ err, server = .waiting err) ∨ ∃ err, server = .returned err
  exits : forwarder = .exiting ∨ forwarder = .exited → closed .done
  exited : closed .forwarderExited ↔ forwarder = .exited
  awaited : (∃ err, server = .returned err) → forwarder = .exited
  channel : closed .queryOut = false

variable {config next : grpcServer.Config} {label : Label ServerRole StreamChannel Item StreamEvent}

theorem ClosingPhase.server {server after : ServerLoc} {forwarder : ForwarderLoc} {act : StreamAct}
    (phase : ClosingPhase server forwarder config.closed) (moved : ServerStep server act after)
    (permitted : config.permits act) : ClosingPhase after forwarder (config.closedBy act) := by
  obtain ⟨started, before, done, exits, exited, awaited, channel⟩ := phase
  cases moved with
  | emit result => cases permitted
  | take data => cases permitted
  | _ => constructor <;> simp_all [ServerLoc.ending, Config.closedBy, Config.permits]

theorem ClosingPhase.forwarder {server : ServerLoc} {forwarder after : ForwarderLoc} {act : StreamAct}
    (phase : ClosingPhase server forwarder config.closed) (moved : ForwarderStep forwarder act after)
    (permitted : config.permits act) : ClosingPhase server after (config.closedBy act) := by
  obtain ⟨started, before, done, exits, exited, awaited, channel⟩ := phase
  cases moved with
  | take result => cases permitted
  | _ => constructor <;> simp_all [ServerLoc.ending, Config.closedBy, Config.permits]

/-- A result changes hands, or a message does. -/
inductive ExchangeStep (config next : grpcServer.Config) : Prop where
  | result (result : Result) (reads : config.loc .server = ServerLoc.reading)
      (selects : config.loc .forwarder = ForwarderLoc.selecting) (reading : next.loc .server = ServerLoc.reading)
      (sending : next.loc .forwarder = ForwarderLoc.sending result) (handler : next.loc .handler = config.loc .handler)
  | message (data : String) (reads : config.loc .server = ServerLoc.reading)
      (hands : config.loc .handler = HandlerLoc.handing data) (reading : next.loc .server = ServerLoc.reading)
      (forwarder : next.loc .forwarder = config.loc .forwarder) (receiving : next.loc .handler = HandlerLoc.receiving)

theorem exchangeStep_of_steps {sender receiver : ServerRole} {channel : StreamChannel} {item : Item}
    (moved : grpcServer.Steps config (.exchange sender receiver channel item) next) :
    next.closed = config.closed ∧ ExchangeStep config next := by
  obtain ⟨-, different, sent, received, sends, receives, rfl⟩ := steps_exchange_iff.mp moved
  refine ⟨rfl, ?_⟩
  cases sender with
  | server =>
    generalize reads : config.loc .server = loc at sends
    cases serverStep_of_next sends with
    | emit result =>
      cases receiver with
      | server => exact absurd rfl different
      | forwarder =>
        generalize selects : config.loc .forwarder = loc at receives
        cases forwarderStep_of_next receives
        exact .result result reads selects rfl rfl rfl
      | handler =>
        generalize config.loc .handler = loc at receives
        cases handlerStep_of_next receives with
        | receive recv => cases recv
  | forwarder =>
    generalize config.loc .forwarder = loc at sends
    cases forwarderStep_of_next sends
  | handler =>
    generalize hands : config.loc .handler = loc at sends
    generalize gives : Act.send channel item = act at sends
    cases handlerStep_of_next sends with
    | receive recv =>
      subst gives
      cases recv
    | hand data =>
      cases gives
      cases receiver with
      | server =>
        generalize reads : config.loc .server = loc at receives
        cases serverStep_of_next receives
        exact .message data reads hands rfl rfl rfl
      | forwarder =>
        generalize config.loc .forwarder = loc at receives
        cases forwarderStep_of_next receives
      | handler => exact absurd rfl different
    | _ => cases gives

theorem ClosingPhase.step (phase : ClosingPhase (config.loc .server) (config.loc .forwarder) config.closed)
    (moved : grpcServer.Steps config label next) :
    ClosingPhase (next.loc .server) (next.loc .forwarder) next.closed := by
  cases label with
  | exchange sender receiver channel item =>
    obtain ⟨same, exchange⟩ := exchangeStep_of_steps moved
    cases exchange with
    | result result reads selects reading sending =>
      rw [same, reading, sending]
      rw [reads, selects] at phase
      obtain ⟨started, before, done, exits, exited, awaited, channel⟩ := phase
      constructor <;> simp_all
    | message data reads _ reading forwarder =>
      rw [same, reading, forwarder, ← reads]
      exact phase
  | alone i act =>
    obtain ⟨permitted, after, moves, rfl⟩ := steps_alone_iff.mp moved
    cases i with
    | server => exact phase.server (serverStep_of_next moves) permitted
    | forwarder => exact phase.forwarder (forwarderStep_of_next moves) permitted
    | handler =>
      have same : config.closedBy act = config.closed := by
        generalize config.loc .handler = loc at moves
        cases handlerStep_of_next moves with
        | receive recv =>
          cases act with
          | close channel => cases recv
          | _ => rfl
        | _ => rfl
      dsimp only
      rw [same]
      exact phase

/-- A call of the server as it begins. -/
def Begins (start : grpcServer.Config) : Prop := start = grpcServer.watch ∨ start = grpcServer.stream

variable {start : grpcServer.Config} {labels : List (Label ServerRole StreamChannel Item StreamEvent)}

theorem phase_of_path (begins : Begins start) (path : Path grpcServer.Steps start labels config) :
    ClosingPhase (config.loc .server) (config.loc .forwarder) config.closed := by
  induction path with
  | nil =>
    obtain rfl | rfl := begins
    · constructor <;> simp [grpcServer.watch, ServerLoc.ending]
    · constructor <;> simp [grpcServer.stream, ServerLoc.ending]
  | snoc before moved ih => exact ih.step moved

end Phases

section Progress

variable {config next : grpcServer.Config}

/-- The state machine can send every result. -/
def TakesResults (config : grpcServer.Config) : Prop :=
  ∀ result, ∃ next, grpcServer.Steps config (.exchange .server .forwarder .queryOut (.result result)) next

theorem takesResults_of_selecting (reads : config.loc .server = ServerLoc.reading)
    (selects : config.loc .forwarder = ForwarderLoc.selecting) (channel : config.closed .queryOut = false) :
    TakesResults config := by
  refine fun result => ⟨_, steps_exchange_iff.mpr ⟨channel, nofun, .reading, .sending result, ?_, ?_, rfl⟩⟩
  · rw [reads]
    rfl
  · rw [selects]
    rfl

/-- A forwarder that does not select comes to it in one step of its own, unless it has seen `done`. -/
theorem forwarder_selects (phase : ClosingPhase (config.loc .server) (config.loc .forwarder) config.closed)
    (reads : config.loc .server = ServerLoc.reading ∨ ServerLoc.ending (config.loc .server)) :
    (∃ act next, grpcServer.Steps config (.alone .forwarder act) next ∧
      next.loc .forwarder = ForwarderLoc.selecting ∧ next.loc .server = config.loc .server) ∨
    config.loc .forwarder = ForwarderLoc.selecting ∨ config.loc .forwarder = ForwarderLoc.exiting ∨
    config.loc .forwarder = ForwarderLoc.exited := by
  cases here : config.loc .forwarder with
  | waiting =>
    have moves : forwarderNext (config.loc .forwarder) (.drain .started) = some .selecting := by
      rw [here]
      rfl
    exact .inl ⟨.drain .started, _, steps_alone_iff.mpr ⟨phase.started here reads, _, moves, rfl⟩, rfl, rfl⟩
  | sending result =>
    have moves : forwarderNext (config.loc .forwarder) (.event (.srvSend result none)) = some .selecting := by
      rw [here]
      exact if_pos rfl
    exact .inl ⟨.event (.srvSend result none), _, steps_alone_iff.mpr ⟨rfl, _, moves, rfl⟩, rfl, rfl⟩
  | selecting => exact .inr (.inl rfl)
  | exiting => exact .inr (.inr (.inl rfl))
  | exited => exact .inr (.inr (.inr rfl))

/-- A result that the state machine sends is taken at once, or after one step of the forwarder alone. -/
theorem takesResults_or (phase : ClosingPhase (config.loc .server) (config.loc .forwarder) config.closed)
    (reads : config.loc .server = ServerLoc.reading) :
    TakesResults config ∨ ∃ act next, grpcServer.Steps config (.alone .forwarder act) next ∧ TakesResults next := by
  obtain ⟨act, next, moved, selects, same⟩ | selects | exits := forwarder_selects phase (.inl reads)
  · exact .inr ⟨act, next, moved, takesResults_of_selecting (same.trans reads) selects (phase.step moved).channel⟩
  · exact .inl (takesResults_of_selecting reads selects phase.channel)
  · have done := phase.done.mp (phase.exits exits)
    simp [reads] at done

section Left

/-- The steps that a goroutine has left at most, when the state machine has returned. -/
def ServerLoc.left : ServerLoc → ℕ
  | .closing _ => 2
  | .waiting _ => 1
  | _ => 0

def ForwarderLoc.left : ForwarderLoc → ℕ
  | .waiting => 3
  | .sending _ => 3
  | .selecting => 2
  | .exiting => 1
  | .exited => 0

def HandlerLoc.left : HandlerLoc → ℕ
  | .waiting => 3
  | .receiving => 2
  | .handing _ => 1
  | .exited => 0

variable {act : StreamAct}

theorem ServerStep.left {loc after : ServerLoc} (moved : ServerStep loc act after) (ending : loc.ending) :
    after.left < loc.left ∧ (after.ending ∨ ∃ err, after = .returned err) := by
  cases moved with
  | close err => exact ⟨Nat.one_lt_two, .inl trivial⟩
  | wait err => exact ⟨Nat.one_pos, .inr ⟨err, rfl⟩⟩
  | _ => exact ending.elim

theorem ForwarderStep.left {loc after : ForwarderLoc} (moved : ForwarderStep loc act after)
    (permitted : config.permits act) : after.left < loc.left := by
  cases moved with
  | take result => cases permitted
  | _ => simp [ForwarderLoc.left]

theorem HandlerStep.left {loc after : HandlerLoc} (moved : HandlerStep anyRecv loc act after)
    (permitted : config.permits act) : after.left < loc.left := by
  cases moved with
  | hand data => cases permitted
  | @receive _ received recv => cases received <;> simp [HandlerLoc.left, Received.next]
  | _ => simp [HandlerLoc.left]

end Left

def stepsLeft (config : grpcServer.Config) : ℕ :=
  ServerLoc.left (config.loc .server) + ForwarderLoc.left (config.loc .forwarder) +
    HandlerLoc.left (config.loc .handler)

/-- The state machine has returned. -/
def Ending (config : grpcServer.Config) : Prop :=
  ClosingPhase (config.loc .server) (config.loc .forwarder) config.closed ∧
    (ServerLoc.ending (config.loc .server) ∨ ∃ err, config.loc .server = ServerLoc.returned err)

theorem Ending.moves (ending : Ending config) (unfinished : ¬ ∃ err, config.loc .server = ServerLoc.returned err) :
    ∃ label next, grpcServer.Steps config label next := by
  obtain ⟨phase, ending | finished⟩ := ending
  · cases here : config.loc .server with
    | closing err =>
      have undone : config.closed .done = false := by
        rw [Bool.eq_false_iff, ne_eq, phase.done]
        simp [here]
      refine ⟨.alone .server (.close .done), _,
        steps_alone_iff.mpr ⟨by simp [Config.permits, undone], .waiting err, ?_, rfl⟩⟩
      rw [here]
      rfl
    | waiting err =>
      have done : config.closed .done := phase.done.mpr (.inl ⟨err, here⟩)
      obtain ⟨act, next, moved, -⟩ | selects | exits | exited := forwarder_selects phase (.inr ending)
      · exact ⟨_, next, moved⟩
      · refine ⟨.alone .forwarder (.drain .done), _, steps_alone_iff.mpr ⟨done, ForwarderLoc.exiting, ?_, rfl⟩⟩
        rw [selects]
        rfl
      · have unheard : config.closed .forwarderExited = false := by
          rw [Bool.eq_false_iff, ne_eq, phase.exited, exits]
          exact nofun
        refine ⟨.alone .forwarder (.close .forwarderExited), _,
          steps_alone_iff.mpr ⟨by simp [Config.permits, unheard], ForwarderLoc.exited, ?_, rfl⟩⟩
        rw [exits]
        rfl
      · refine ⟨.alone .server (.drain .forwarderExited), _,
          steps_alone_iff.mpr ⟨phase.exited.mpr exited, .returned err, ?_, rfl⟩⟩
        rw [here]
        rfl
    | _ =>
      rw [here] at ending
      exact ending.elim
  · exact absurd finished unfinished

theorem Ending.step {label : Label ServerRole StreamChannel Item StreamEvent} (ending : Ending config)
    (unfinished : ¬ ∃ err, config.loc .server = ServerLoc.returned err) (moved : grpcServer.Steps config label next) :
    Ending next ∧ stepsLeft next < stepsLeft config := by
  obtain ⟨phase, ending | finished⟩ := ending
  · have after := phase.step moved
    cases label with
    | exchange sender receiver channel item =>
      -- The state machine takes part in every exchange.
      obtain ⟨-, exchange⟩ := exchangeStep_of_steps moved
      cases exchange with
      | result result reads =>
        rw [reads] at ending
        exact ending.elim
      | message data reads =>
        rw [reads] at ending
        exact ending.elim
    | alone i act =>
      obtain ⟨permitted, loc, moves, rfl⟩ := steps_alone_iff.mp moved
      cases i with
      | server =>
        obtain ⟨less, onwards⟩ := (serverStep_of_next moves).left ending
        exact ⟨⟨after, onwards⟩, Nat.add_lt_add_right (Nat.add_lt_add_right less _) _⟩
      | forwarder =>
        have less := (forwarderStep_of_next moves).left permitted
        exact ⟨⟨after, .inl ending⟩, Nat.add_lt_add_right (Nat.add_lt_add_left less _) _⟩
      | handler =>
        have less := (handlerStep_of_next moves).left permitted
        exact ⟨⟨after, .inl ending⟩, Nat.add_lt_add_left less _⟩
  · exact absurd finished unfinished

theorem ends_of_ending (ending : Ending config) :
    Inevitable grpcServer.Steps (fun config => ∃ err, config.loc .server = ServerLoc.returned err) config :=
  .of_measure Ending stepsLeft (fun _ => Ending.moves) (fun _ _ _ => Ending.step) ending

end Progress

section Results

variable {start config : grpcServer.Config} {labels : List (Label ServerRole StreamChannel Item StreamEvent)}

/-- What a call of the server has done with the results that the state machine has sent. -/
structure Forwards (labels : List (Label ServerRole StreamChannel Item StreamEvent)) (config : grpcServer.Config) :
    Prop where
  /-- They are sent on in order and once each. -/
  ordered : srvSends labels <+: exchanged .queryOut labels
  /-- All are when the method returns. -/
  complete : ((∃ err, config.loc .server = ServerLoc.returned err) ∨
      ∃ err, config.loc .server = ServerLoc.refused err) →
    srvSends labels = exchanged .queryOut labels
  /-- The state machine is not kept from sending. -/
  taken : config.loc .server = ServerLoc.reading →
    TakesResults config ∨ ∃ act next, grpcServer.Steps config (.alone .forwarder act) next ∧ TakesResults next
  /-- When the state machine has returned, the method comes to return. -/
  returns : ServerLoc.ending (config.loc .server) →
    Inevitable grpcServer.Steps (fun config => ∃ err, config.loc .server = ServerLoc.returned err) config

theorem Begins.idle (begins : Begins start) : ForwarderLoc.held (start.loc .forwarder) = [] := by
  obtain rfl | rfl := begins
  · rfl
  · rfl

/-- In every run of `Watch` or `Stream`, the results of the state machine are passed to `srv.Send` in order and once
each, and all of them before the method returns. -/
theorem results_forwarded (begins : Begins start) (path : Path grpcServer.Steps start labels config) :
    Forwards labels config := by
  have phase := phase_of_path begins path
  have sends := srvSends_append_held path begins.idle
  refine ⟨⟨_, sends.symm⟩, fun finished => ?_, takesResults_or phase, fun ending => ends_of_ending ⟨phase, .inl ending⟩⟩
  have idle : ForwarderLoc.held (config.loc .forwarder) = [] := by
    obtain returned | refused := finished
    · rw [phase.awaited returned]
      rfl
    · rw [(phase.before (.inr (.inr refused))).1]
      rfl
  rw [sends, idle, List.append_nil]

/-- Two results. The second one is sent after the state machine has returned. -/
def twoResults : List (Label ServerRole StreamChannel Item StreamEvent) :=
  [.exchange .server .forwarder .queryOut (.result { value := 1 }),
    .alone .forwarder (.event (.srvSend { value := 1 } (some "broken"))),
    .exchange .server .forwarder .queryOut (.result { value := 2 }),
    .alone .server (.event (.returned none)),
    .alone .server (.close .done),
    .alone .forwarder (.event (.srvSend { value := 2 } none)),
    .alone .forwarder (.drain .done),
    .alone .forwarder (.close .forwarderExited),
    .alone .server (.drain .forwarderExited)]

theorem two_results_forwarded :
    srvSends twoResults = [.result { value := 1 }, .result { value := 2 }] ∧
      ∃ config, Path grpcServer.Steps grpcServer.watch twoResults config ∧ Forwards twoResults config := by
  have ran : (grpcServer.run grpcServer.watch twoResults).isSome := rfl
  obtain ⟨config, ran⟩ := Option.isSome_iff_exists.mp ran
  have path := path_iff_run.mpr ran
  exact ⟨rfl, config, path, results_forwarded (.inl rfl) path⟩

end Results

end Zongzi
