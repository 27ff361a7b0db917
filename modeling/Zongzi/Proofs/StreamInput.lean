import Zongzi.Proofs.Forwarding

/-! # Messages are handed on

A message of the caller passes through goroutines that hold one message at a time, and for another host through a
connection that keeps the order. Each of them is a relay, so the state machine gets the first of the messages that were
written. A closed channel is always ready to be received from: after the caller has closed `in`, empty messages are made
up as fast as the state machine takes them. A handler that an earlier stream has left behind can add a message of that
stream.
-/

namespace Zongzi

open Machine Goroutines

section Relays

/-- The message that a handler receives. -/
def taken (srvRecv : StreamAct → Option Received) (act : StreamAct) : Option Item :=
  match srvRecv act with
  | some (.message data) => some (.data data)
  | _ => none

/-- Receiving is nothing else that a handler does. -/
structure Recvs (srvRecv : StreamAct → Option Received) : Prop where
  sends : ∀ channel item, srvRecv (.send channel item) = none
  started : srvRecv (.drain .started) = none
  done : srvRecv (.drain .done) = none

theorem recvs_streamServer : Recvs streamServerRecv := ⟨fun _ _ => rfl, rfl, rfl⟩

theorem recvs_grpc : Recvs grpcRecv := ⟨fun _ _ => rfl, rfl, rfl⟩

def HandlerLoc.held : HandlerLoc → List Item
  | .handing data => [.data data]
  | _ => []

theorem handler_relay {srvRecv : StreamAct → Option Received} (recvs : Recvs srvRecv) :
    Relay (handlerNext srvRecv) (taken srvRecv) (Act.sent .queryIn) HandlerLoc.held (· = .exited) where
  moves loc act after moved := by
    cases handlerStep_of_next moved with
    | start => exact ⟨[], by simp [taken, recvs.started, Act.sent, HandlerLoc.held], .inl rfl⟩
    | @receive _ received recv =>
      have silent : Act.sent .queryIn act = none := by
        cases act with
        | send channel item => cases (recvs.sends channel item).symm.trans recv
        | _ => rfl
      refine ⟨[], ?_, .inl rfl⟩
      rw [silent, taken, recv]
      cases received with
      | _ => rfl
    | hand data => exact ⟨[], by simp [taken, recvs.sends, Act.sent, HandlerLoc.held], .inl rfl⟩
    | done data => exact ⟨[.data data], by simp [taken, recvs.done, Act.sent, HandlerLoc.held], .inr rfl⟩
  rests loc act after ended moved := by
    subst ended
    cases moved
  empty loc ended := by
    subst ended
    rfl

def WriterLoc.held (loc : WriterLoc) : List Item := loc.rest.map .data

inductive WriterStep : WriterLoc → StreamAct → WriterLoc → Prop where
  | write (data : String) (rest : List String) (closes : Bool) :
      WriterStep ⟨data :: rest, closes⟩ (.send .input (.data data)) ⟨rest, closes⟩
  | close : WriterStep ⟨[], true⟩ (.close .input) ⟨[], false⟩

theorem writerStep_of_next {loc after : WriterLoc} {act : StreamAct} (moved : writerNext loc act = some after) :
    WriterStep loc act after := by
  unfold writerNext at moved
  split at moved
  · split at moved
    · next same =>
      subst same
      cases moved
      exact .write ..
    · cases moved
  · cases moved
    exact .close
  · cases moved

theorem writer_relay :
    Relay writerNext (fun _ => none) (Act.sent .input) WriterLoc.held fun _ => False where
  moves loc act after moved := by
    cases writerStep_of_next moved with
    | write data rest closes => exact ⟨[], by simp [WriterLoc.held, Act.sent], .inl rfl⟩
    | close => exact ⟨[], rfl, .inl rfl⟩
  rests _ _ _ dead := dead.elim
  empty _ dead := dead.elim

/-- A caller that does not close `in` only writes. -/
theorem writer_keeps_open {rest : List String} {last : WriterLoc} {acts : List StreamAct}
    (ran : acts.foldlM writerNext ⟨rest, false⟩ = some last) : .close .input ∉ acts := by
  induction acts generalizing rest with
  | nil => simp
  | cons act acts ih =>
    rw [List.foldlM_cons] at ran
    obtain ⟨after, moved, ran⟩ := Option.bind_eq_some_iff.mp ran
    cases writerStep_of_next moved with
    | write data rest => simpa using ih ran

/-- What the sender takes from `in`, which is nothing that was written if it is closed. -/
def senderTaken : StreamAct → Option Item
  | .receive .input item => some item
  | .drain .input => some (.data "")
  | _ => none

def SenderLoc.held : SenderLoc → List Item
  | .sending data => [.data data]
  | _ => []

def SenderLoc.dead : SenderLoc → Prop
  | .exiting => True
  | .exited => True
  | .panicked => True
  | _ => False

inductive SenderStep : SenderLoc → StreamAct → SenderLoc → Prop where
  | start : SenderStep .waiting (.drain .clientStarted) .selecting
  | take (data : String) : SenderStep .selecting (.receive .input (.data data)) (.sending data)
  | invent : SenderStep .selecting (.drain .input) (.sending "")
  | done : SenderStep .selecting (.drain .clientDone) .exiting
  | send (data : String) : SenderStep (.sending data) (.send .up (.data data)) .selecting
  | stop (data : String) : SenderStep (.sending data) (.event (.clientSendFailed .eof)) .exiting
  | panic (data text : String) : SenderStep (.sending data) (.event (.clientSendFailed (.other text))) .panicked
  | exit : SenderStep .exiting (.close .senderExited) .exited

theorem senderStep_of_next {loc after : SenderLoc} {act : StreamAct} (moved : senderNext loc act = some after) :
    SenderStep loc act after := by
  unfold senderNext at moved
  split at moved
  case h_5 =>
    split at moved
    · next same =>
      subst same
      cases moved
      exact .send _
    · cases moved
  all_goals cases moved <;> constructor

theorem sender_relay : Relay senderNext senderTaken (Act.sent .up) SenderLoc.held SenderLoc.dead where
  moves loc act after moved := by
    cases senderStep_of_next moved with
    | start => exact ⟨[], rfl, .inl rfl⟩
    | take data => exact ⟨[], rfl, .inl rfl⟩
    | invent => exact ⟨[], rfl, .inl rfl⟩
    | done => exact ⟨[], rfl, .inl rfl⟩
    | send data => exact ⟨[], rfl, .inl rfl⟩
    | stop data => exact ⟨[.data data], rfl, .inr trivial⟩
    | panic data text => exact ⟨[.data data], rfl, .inr trivial⟩
    | exit => exact ⟨[], rfl, .inl rfl⟩
  rests loc act after ended moved := by
    cases senderStep_of_next moved with
    | exit => exact ⟨rfl, trivial⟩
    | _ => exact ended.elim
  empty loc ended := by
    cases loc with
    | sending data => exact ended.elim
    | _ => rfl

def wireHeld (queue : List String) : List Item := queue.map .data

theorem wire_relay : Relay wireNext (Act.received .up) (Act.sent .down) wireHeld fun _ => False where
  moves loc act after moved := by
    unfold wireNext at moved
    split at moved
    · cases moved
      exact ⟨[], by simp [wireHeld, Act.received, Act.sent], .inl rfl⟩
    · split at moved
      · next same =>
        subst same
        cases moved
        exact ⟨[], by simp [wireHeld, Act.received, Act.sent], .inl rfl⟩
      · cases moved
    · cases moved
  rests _ _ _ dead := dead.elim
  empty _ dead := dead.elim

/-- Without a handler that was left behind there is nothing that it does. -/
theorem leftover_idle {last : Option String} {acts : List StreamAct}
    (ran : acts.foldlM leftoverNext none = some last) : acts = [] := by
  cases acts with
  | nil => rfl
  | cons act acts =>
    rw [List.foldlM_cons] at ran
    obtain ⟨after, moved, -⟩ := Option.bind_eq_some_iff.mp ran
    cases moved

/-- As long as `in` is not closed, a handler on the agent's own host takes what it receives there. -/
theorem taken_streamServer {loc after : HandlerLoc} {act : StreamAct}
    (moved : handlerNext streamServerRecv loc act = some after) (unclosed : act ≠ .drain .input) :
    taken streamServerRecv act = Act.received .input act := by
  cases handlerStep_of_next moved with
  | receive recv =>
    unfold streamServerRecv at recv
    split at recv
    · rfl
    · exact absurd rfl unclosed
    · rfl
    · cases recv
  | _ => rfl

theorem taken_grpc {loc after : HandlerLoc} {act : StreamAct} (moved : handlerNext grpcRecv loc act = some after) :
    taken grpcRecv act = Act.received .down act := by
  cases handlerStep_of_next moved with
  | receive recv =>
    unfold grpcRecv at recv
    split at recv
    · rfl
    · rfl
    · cases recv
  | _ => rfl

theorem senderTaken_eq {loc after : SenderLoc} {act : StreamAct} (moved : senderNext loc act = some after)
    (unclosed : act ≠ .drain .input) : senderTaken act = Act.received .input act := by
  cases senderStep_of_next moved with
  | invent => exact absurd rfl unclosed
  | _ => rfl

end Relays

section Local

variable {written : List String} {closes : Bool} {leftover : Option String} {config : localStream.Config}
  {labels : List (Label LocalRole StreamChannel Item StreamEvent)}

/-- Who writes and reads the channels that messages pass. -/
theorem local_roles (item : Item) {i : LocalRole} {loc after : localStream.Loc i} :
    (localStream.next i loc (.send .input item) = some after → i = .writer) ∧
    (localStream.next i loc (.close .input) = some after → i = .writer) ∧
    (localStream.next i loc (.receive .input item) = some after → i = .handler) ∧
    (localStream.next i loc (.send .queryIn item) = some after → i = .handler ∨ i = .leftover) := by
  cases i with
  | writer => rcases loc with ⟨_ | ⟨data, rest⟩, _ | _⟩ <;> simp [localStream, writerNext]
  | server => cases loc <;> simp [localStream, serverNext]
  | forwarder => cases loc <;> simp [localStream, forwarderNext]
  | handler => cases loc <;> simp [localStream, handlerNext, streamServerRecv]
  | leftover => cases loc <;> simp [localStream, leftoverNext]

/-- On the agent's own host the state machine gets the first of the messages that were written. -/
theorem local_handed (path : Path localStream.Steps (localStream.start written false none) labels config) :
    exchanged .queryIn labels <+: written.map .data := by
  have wrote := sent_acts path fun i item (_ : .send .input item ∈ acts i labels) _ _ => (local_roles item).1
  have undrained : .drain .input ∉ acts .handler labels := by
    intro drained
    obtain ⟨i, closes⟩ := close_mem_acts_of_drain path rfl drained
    obtain ⟨loc, after, moved⟩ := next_of_mem_acts path closes
    obtain rfl := (local_roles (.data "")).2.1 moved
    exact writer_keeps_open (foldlM_acts path .writer) closes
  have received := received_acts path
    fun i item (_ : .receive .input item ∈ acts i labels) _ _ => (local_roles item).2.2.1
  have took : (acts .handler labels).filterMap (taken streamServerRecv) = exchanged .input labels := by
    rw [← received]
    refine List.filterMap_congr fun act made => ?_
    obtain ⟨loc, after, moved⟩ := next_of_mem_acts path made
    exact taken_streamServer moved fun drains => undrained (drains ▸ made)
  have handed := sent_acts path fun i item (sends : .send .queryIn item ∈ acts i labels) loc after moved => by
    obtain here | gone := (local_roles item).2.2.2 moved
    · exact here
    · subst gone
      rw [leftover_idle (foldlM_acts path .leftover)] at sends
      cases sends
  calc exchanged .queryIn labels
    _ = _ := handed.symm
    _ <+: _ := (handler_relay recvs_streamServer).prefix_of_run (foldlM_acts path .handler)
    _ = _ := took
    _ = _ := wrote.symm
    _ <+: _ := writer_relay.prefix_of_run (foldlM_acts path .writer)
    _ = _ := by simp [WriterLoc.held, localStream.start]

/-- The state machine reads, and `rest` is still to be written. -/
structure localStream.Serving (rest : List String) (closes : Bool) (leftover : Option String)
    (config : localStream.Config) : Prop where
  writer : config.loc .writer = (⟨rest, closes⟩ : WriterLoc)
  server : config.loc .server = ServerLoc.reading
  handler : config.loc .handler = HandlerLoc.receiving
  leftover : config.loc .leftover = leftover
  input : config.closed .input = false
  queryIn : config.closed .queryIn = false

/-- The stream of the agent's own host can be connected before the first message is written. -/
theorem local_serving (written : List String) (closes : Bool) (leftover : Option String) :
    ∃ labels config, Path localStream.Steps (localStream.start written closes leftover) labels config ∧
      localStream.Serving written closes leftover config ∧ exchanged .queryIn labels = [] :=
  ⟨[.alone .server (.event (.connect none)), .alone .server (.close .started), .alone .handler (.drain .started)],
    _, path_iff_run.mpr rfl, ⟨rfl, rfl, rfl, rfl, rfl, rfl⟩, rfl⟩

theorem local_pass {data : String} (serving : localStream.Serving (data :: written) closes leftover config) :
    ∃ labels next, Path localStream.Steps config labels next ∧ localStream.Serving written closes leftover next ∧
      exchanged .queryIn labels = [.data data] := by
  obtain ⟨writer, server, handler, left, input, queryIn⟩ := serving
  have takes : localStream.Steps config (.exchange .writer .handler .input (.data data)) _ :=
    steps_exchange_iff.mpr ⟨input, nofun, (⟨written, closes⟩ : WriterLoc), HandlerLoc.handing data,
      by rw [writer]; exact if_pos rfl, by rw [handler]; rfl, rfl⟩
  refine ⟨[.exchange .writer .handler .input (.data data), .exchange .handler .server .queryIn (.data data)], _,
    Path.cons_iff.mpr ⟨_, takes, Path.singleton_iff.mpr (steps_exchange_iff.mpr
      ⟨queryIn, nofun, HandlerLoc.receiving, ServerLoc.reading, if_pos rfl, ?_, rfl⟩)⟩,
    ⟨rfl, rfl, rfl, left, input, queryIn⟩, rfl⟩
  change serverNext (config.loc .server) _ = _
  rw [server]
  rfl

theorem local_overrun (surplus : ¬(closes = false ∧ leftover = none))
    (serving : localStream.Serving [] closes leftover config) :
    ∃ labels next item, Path localStream.Steps config labels next ∧ exchanged .queryIn labels = [item] := by
  obtain ⟨writer, server, handler, left, input, queryIn⟩ := serving
  cases leftover with
  | some data =>
    exact ⟨[.exchange .leftover .server .queryIn (.data data)], _, .data data,
      Path.singleton_iff.mpr (steps_exchange_iff.mpr ⟨queryIn, by decide, (none : Option String), ServerLoc.reading,
        by rw [left]; exact if_pos rfl, by rw [server]; rfl, rfl⟩), rfl⟩
  | none =>
    cases closes with
    | false => cases surplus ⟨rfl, rfl⟩
    | true =>
      have closed : localStream.Steps config (.alone .writer (.close .input)) _ :=
        steps_alone_iff.mpr ⟨by simp [Config.permits, input], (⟨[], false⟩ : WriterLoc), by rw [writer]; rfl, rfl⟩
      refine ⟨[.alone .writer (.close .input), .alone .handler (.drain .input),
          .exchange .handler .server .queryIn (.data "")], _, .data "",
        Path.cons_iff.mpr ⟨_, closed, Path.cons_iff.mpr
          ⟨_, steps_alone_iff.mpr ⟨rfl, HandlerLoc.handing "", ?_, rfl⟩, Path.singleton_iff.mpr
            (steps_exchange_iff.mpr ⟨queryIn, by decide, HandlerLoc.receiving, ServerLoc.reading, rfl, ?_, rfl⟩)⟩⟩,
        rfl⟩
      · change handlerNext _ (config.loc .handler) _ = _
        rw [handler]
        rfl
      · change serverNext (config.loc .server) _ = _
        rw [server]
        rfl

end Local

section Remote

variable {written : List String} {closes : Bool} {leftover : Option String} {config : remoteStream.Config}
  {labels : List (Label RemoteRole StreamChannel Item StreamEvent)}

theorem remote_roles (item : Item) {i : RemoteRole} {loc after : remoteStream.Loc i} :
    (remoteStream.next i loc (.send .input item) = some after → i = .writer) ∧
    (remoteStream.next i loc (.close .input) = some after → i = .writer) ∧
    (remoteStream.next i loc (.receive .input item) = some after → i = .sender) ∧
    (remoteStream.next i loc (.send .up item) = some after → i = .sender) ∧
    (remoteStream.next i loc (.receive .up item) = some after → i = .wire) ∧
    (remoteStream.next i loc (.send .down item) = some after → i = .wire) ∧
    (remoteStream.next i loc (.receive .down item) = some after → i = .handler) ∧
    (remoteStream.next i loc (.send .queryIn item) = some after → i = .handler ∨ i = .leftover) := by
  cases i with
  | writer => rcases loc with ⟨_ | ⟨data, rest⟩, _ | _⟩ <;> simp [remoteStream, writerNext]
  | reader => simp [remoteStream, readerNext]
  | caller => cases loc <;> simp [remoteStream, callerNext]
  | sender => cases loc <;> simp [remoteStream, senderNext]
  | receiver => cases loc <;> simp [remoteStream, receiverNext]
  | wire => cases loc <;> simp [remoteStream, wireNext]
  | server => cases loc <;> simp [remoteStream, serverNext]
  | forwarder => cases loc <;> simp [remoteStream, forwarderNext]
  | handler => cases loc <;> simp [remoteStream, handlerNext, grpcRecv]
  | leftover => cases loc <;> simp [remoteStream, leftoverNext]

/-- On another host the state machine gets the first of the messages that were written. -/
theorem remote_handed (path : Path remoteStream.Steps (remoteStream.start written false none) labels config) :
    exchanged .queryIn labels <+: written.map .data := by
  have wrote := sent_acts path fun i item (_ : .send .input item ∈ acts i labels) _ _ => (remote_roles item).1
  have undrained : .drain .input ∉ acts .sender labels := by
    intro drained
    obtain ⟨i, closes⟩ := close_mem_acts_of_drain path rfl drained
    obtain ⟨loc, after, moved⟩ := next_of_mem_acts path closes
    obtain rfl := (remote_roles (.data "")).2.1 moved
    exact writer_keeps_open (foldlM_acts path .writer) closes
  have received := received_acts path
    fun i item (_ : .receive .input item ∈ acts i labels) _ _ => (remote_roles item).2.2.1
  have took : (acts .sender labels).filterMap senderTaken = exchanged .input labels := by
    rw [← received]
    refine List.filterMap_congr fun act made => ?_
    obtain ⟨loc, after, moved⟩ := next_of_mem_acts path made
    exact senderTaken_eq moved fun drains => undrained (drains ▸ made)
  have sent := sent_acts path fun i item (_ : .send .up item ∈ acts i labels) _ _ => (remote_roles item).2.2.2.1
  have carried := received_acts path
    fun i item (_ : .receive .up item ∈ acts i labels) _ _ => (remote_roles item).2.2.2.2.1
  have arrived := sent_acts path
    fun i item (_ : .send .down item ∈ acts i labels) _ _ => (remote_roles item).2.2.2.2.2.1
  have recvd := received_acts path
    fun i item (_ : .receive .down item ∈ acts i labels) _ _ => (remote_roles item).2.2.2.2.2.2.1
  have taken_down : (acts .handler labels).filterMap (taken grpcRecv) = exchanged .down labels := by
    rw [← recvd]
    refine List.filterMap_congr fun act made => ?_
    obtain ⟨loc, after, moved⟩ := next_of_mem_acts path made
    exact taken_grpc moved
  have handed := sent_acts path fun i item (sends : .send .queryIn item ∈ acts i labels) loc after moved => by
    obtain here | gone := (remote_roles item).2.2.2.2.2.2.2 moved
    · exact here
    · subst gone
      rw [leftover_idle (foldlM_acts path .leftover)] at sends
      cases sends
  calc exchanged .queryIn labels
    _ = _ := handed.symm
    _ <+: _ := (handler_relay recvs_grpc).prefix_of_run (foldlM_acts path .handler)
    _ = _ := taken_down
    _ = _ := arrived.symm
    _ <+: _ := wire_relay.prefix_of_run (foldlM_acts path .wire)
    _ = _ := carried
    _ = _ := sent.symm
    _ <+: _ := sender_relay.prefix_of_run (foldlM_acts path .sender)
    _ = _ := took
    _ = _ := wrote.symm
    _ <+: _ := writer_relay.prefix_of_run (foldlM_acts path .writer)
    _ = _ := by simp [WriterLoc.held, remoteStream.start]

/-- The state machine reads, and nothing is on the way but what the sender has. -/
structure remoteStream.Serving (sender : SenderLoc) (writer : WriterLoc) (leftover : Option String)
    (config : remoteStream.Config) : Prop where
  writer : config.loc .writer = writer
  sender : config.loc .sender = sender
  wire : config.loc .wire = ([] : List String)
  server : config.loc .server = ServerLoc.reading
  handler : config.loc .handler = HandlerLoc.receiving
  leftover : config.loc .leftover = leftover
  up : config.closed .up = false
  down : config.closed .down = false
  queryIn : config.closed .queryIn = false

theorem remote_serving (written : List String) (closes : Bool) (leftover : Option String) :
    ∃ labels config, Path remoteStream.Steps (remoteStream.start written closes leftover) labels config ∧
      (remoteStream.Serving .selecting ⟨written, closes⟩ leftover config ∧ config.closed .input = false) ∧
      exchanged .queryIn labels = [] :=
  ⟨[.alone .caller (.event (.opened none)), .alone .caller (.event (.connected none)),
      .alone .caller (.close .clientStarted), .alone .sender (.drain .clientStarted),
      .alone .server (.event (.connect none)), .alone .server (.close .started), .alone .handler (.drain .started)],
    _, path_iff_run.mpr rfl, ⟨⟨rfl, rfl, rfl, rfl, rfl, rfl, rfl, rfl, rfl⟩, rfl⟩, rfl⟩

/-- A message that the sender has reaches the state machine. -/
theorem remote_delivered {data : String} {writer : WriterLoc}
    (serving : remoteStream.Serving (.sending data) writer leftover config) :
    ∃ labels next, Path remoteStream.Steps config labels next ∧
      (remoteStream.Serving .selecting writer leftover next ∧ next.closed .input = config.closed .input) ∧
      exchanged .queryIn labels = [.data data] := by
  obtain ⟨writes, holds, wire, server, handler, left, up, down, queryIn⟩ := serving
  refine ⟨[.exchange .sender .wire .up (.data data), .exchange .wire .handler .down (.data data),
      .exchange .handler .server .queryIn (.data data)], _,
    Path.cons_iff.mpr ⟨_, steps_exchange_iff.mpr ⟨up, nofun, SenderLoc.selecting, [data], ?_, ?_, rfl⟩,
      Path.cons_iff.mpr ⟨_,
        steps_exchange_iff.mpr ⟨down, nofun, ([] : List String), HandlerLoc.handing data, ?_, ?_, rfl⟩,
        Path.singleton_iff.mpr (steps_exchange_iff.mpr
          ⟨queryIn, nofun, HandlerLoc.receiving, ServerLoc.reading, ?_, ?_, rfl⟩)⟩⟩,
    ⟨⟨writes, rfl, rfl, rfl, rfl, left, up, down, queryIn⟩, rfl⟩, rfl⟩
  · rw [holds]
    exact if_pos rfl
  · rw [wire]
    rfl
  · exact if_pos rfl
  · change handlerNext _ (config.loc .handler) _ = _
    rw [handler]
    rfl
  · exact if_pos rfl
  · change serverNext (config.loc .server) _ = _
    rw [server]
    rfl

theorem remote_pass {data : String}
    (serving : remoteStream.Serving .selecting ⟨data :: written, closes⟩ leftover config)
    (input : config.closed .input = false) :
    ∃ labels next, Path remoteStream.Steps config labels next ∧
      (remoteStream.Serving .selecting ⟨written, closes⟩ leftover next ∧ next.closed .input = false) ∧
      exchanged .queryIn labels = [.data data] := by
  obtain ⟨writer, sender, wire, server, handler, left, up, down, queryIn⟩ := serving
  obtain ⟨middle, takes, holding, same⟩ : ∃ middle,
      remoteStream.Steps config (.exchange .writer .sender .input (.data data)) middle ∧
      remoteStream.Serving (.sending data) ⟨written, closes⟩ leftover middle ∧
      middle.closed .input = config.closed .input :=
    ⟨_, steps_exchange_iff.mpr ⟨input, nofun, (⟨written, closes⟩ : WriterLoc), SenderLoc.sending data,
      by rw [writer]; exact if_pos rfl, by rw [sender]; rfl, rfl⟩,
      ⟨rfl, rfl, wire, server, handler, left, up, down, queryIn⟩, rfl⟩
  obtain ⟨labels, next, path, ⟨serves, still⟩, handed⟩ := remote_delivered holding
  exact ⟨_ :: labels, next, Path.cons_iff.mpr ⟨middle, takes, path⟩, ⟨serves, by rw [still, same, input]⟩, handed⟩

theorem remote_overrun (surplus : ¬(closes = false ∧ leftover = none))
    (serving : remoteStream.Serving .selecting ⟨[], closes⟩ leftover config) (input : config.closed .input = false) :
    ∃ labels next item, Path remoteStream.Steps config labels next ∧ exchanged .queryIn labels = [item] := by
  obtain ⟨writer, sender, wire, server, handler, left, up, down, queryIn⟩ := serving
  cases leftover with
  | some data =>
    exact ⟨[.exchange .leftover .server .queryIn (.data data)], _, .data data,
      Path.singleton_iff.mpr (steps_exchange_iff.mpr ⟨queryIn, nofun, (none : Option String), ServerLoc.reading,
        by rw [left]; exact if_pos rfl, by rw [server]; rfl, rfl⟩), rfl⟩
  | none =>
    cases closes with
    | false => cases surplus ⟨rfl, rfl⟩
    | true =>
      obtain ⟨middle, path, holding⟩ : ∃ middle,
          Path remoteStream.Steps config [.alone .writer (.close .input), .alone .sender (.drain .input)] middle ∧
          remoteStream.Serving (.sending "") ⟨[], false⟩ none middle := by
        refine ⟨_, Path.cons_iff.mpr ⟨_, steps_alone_iff.mpr ⟨by simp [Config.permits, input],
          (⟨[], false⟩ : WriterLoc), by rw [writer]; rfl, rfl⟩, Path.singleton_iff.mpr (steps_alone_iff.mpr
            ⟨rfl, SenderLoc.sending "", ?_, rfl⟩)⟩, ⟨rfl, rfl, wire, server, handler, left, up, down, queryIn⟩⟩
        change senderNext (config.loc .sender) _ = _
        rw [sender]
        rfl
      obtain ⟨labels, next, onward, -, handed⟩ := remote_delivered holding
      exact ⟨_ ++ labels, next, .data "", Path.append_iff.mpr ⟨middle, path, onward⟩, handed⟩

end Remote

/-- Every message that the state machine gets was written to `in`, once and in order. -/
def HandsWritten {ι : Type} [DecidableEq ι] (system : Goroutines ι StreamChannel Item StreamEvent)
    (start : system.Config) (written : List String) : Prop :=
  ∀ labels config, Path system.Steps start labels config → exchanged .queryIn labels <+: written.map .data

/-- There is a run that hands on everything and then one message more. -/
theorem not_handsWritten {ι : Type} [DecidableEq ι] {system : Goroutines ι StreamChannel Item StreamEvent}
    {start : system.Config} {written : List String} (ready : List String → system.Config → Prop)
    (begins : ∃ labels config, Path system.Steps start labels config ∧ ready written config ∧
      exchanged .queryIn labels = [])
    (once : ∀ data rest config, ready (data :: rest) config → ∃ labels next,
      Path system.Steps config labels next ∧ ready rest next ∧ exchanged .queryIn labels = [.data data])
    (surplus : ∀ config, ready [] config → ∃ labels next item, Path system.Steps config labels next ∧
      exchanged .queryIn labels = [item]) :
    ¬HandsWritten system start written := by
  intro hands
  obtain ⟨front, config, connects, reads, none⟩ := begins
  obtain ⟨labels, next, passes, done, all⟩ := exists_run_exchanged once _ config reads
  obtain ⟨back, last, item, more, one⟩ := surplus next done
  have fits :=
    (hands _ last (Path.append_iff.mpr ⟨next, Path.append_iff.mpr ⟨config, connects, passes⟩, more⟩)).length_le
  simp [exchanged_append, none, all, one] at fits

/-- On both paths exactly what was written is handed on if and only if `in` stays open and no earlier stream has left a
handler behind. -/
theorem written_handed_iff (written : List String) (closes : Bool) (leftover : Option String) :
    (HandsWritten localStream (localStream.start written closes leftover) written ↔
      closes = false ∧ leftover = none) ∧
    (HandsWritten remoteStream (remoteStream.start written closes leftover) written ↔
      closes = false ∧ leftover = none) := by
  refine ⟨⟨fun hands => ?_, ?_⟩, ⟨fun hands => ?_, ?_⟩⟩
  · by_contra surplus
    exact not_handsWritten (localStream.Serving · closes leftover) (local_serving written closes leftover)
      (fun _ _ _ => local_pass) (fun _ => local_overrun surplus) hands
  · rintro ⟨rfl, rfl⟩ labels config path
    exact local_handed path
  · by_contra surplus
    exact not_handsWritten
      (fun rest config => remoteStream.Serving .selecting ⟨rest, closes⟩ leftover config ∧ config.closed .input = false)
      (remote_serving written closes leftover)
      (fun _ _ _ serving => remote_pass serving.1 serving.2)
      (fun _ serving => remote_overrun surplus serving.1 serving.2) hands
  · rintro ⟨rfl, rfl⟩ labels config path
    exact remote_handed path

private def closedInput : List (Label LocalRole StreamChannel Item StreamEvent) :=
  [.alone .server (.event (.connect none)), .alone .server (.close .started), .alone .handler (.drain .started),
    .exchange .writer .handler .input (.data "a"), .exchange .handler .server .queryIn (.data "a"),
    .alone .writer (.close .input), .alone .handler (.drain .input), .exchange .handler .server .queryIn (.data "")]

/-- After one message the caller closes `in`, and the state machine gets a second, empty one. -/
theorem closed_input_handed :
    (∃ config, Path localStream.Steps (localStream.start ["a"] true none) closedInput config) ∧
    exchanged .queryIn closedInput = [.data "a", .data ""] ∧
    ¬HandsWritten localStream (localStream.start ["a"] true none) ["a"] := by
  have ran : (localStream.run (localStream.start ["a"] true none) closedInput).isSome := by decide
  obtain ⟨config, ran⟩ := Option.isSome_iff_exists.mp ran
  have path := path_iff_run.mpr ran
  have handed : exchanged .queryIn closedInput = [.data "a", .data ""] := rfl
  refine ⟨⟨config, path⟩, handed, fun hands => ?_⟩
  have fits := (hands closedInput config path).length_le
  rw [handed] at fits
  simp at fits

end Zongzi
