import Zongzi.Proofs.StreamInput

/-! # The end of a stream

The client of a stream for another host has a goroutine that sends and one that receives. When the stream ends, the
receiver closes `done`, and the sender, which may be waiting for the caller's next message, returns. This is so for the
end of the stream only: after another error the receiver returns and leaves `done` open. The sender then waits for a
message that may never come, and once it has returned `Stream` returns nil.
-/

namespace Zongzi

open Machine Goroutines

section Receiver

inductive ReceiverStep : ReceiverLoc → StreamAct → ReceiverLoc → Prop where
  | start : ReceiverStep .waiting (.drain .clientStarted) .receiving
  | take (result : Result) : ReceiverStep .receiving (.event (.clientRecv (.ok result))) (.delivering result)
  | finish : ReceiverStep .receiving (.event (.clientRecv (.error .eof))) .closing
  | fail (text : String) : ReceiverStep .receiving (.event (.clientRecv (.error (.other text)))) .exiting
  | deliver (result : Result) : ReceiverStep (.delivering result) (.send .output (.result result)) .receiving
  | close : ReceiverStep .closing (.close .clientDone) .exiting
  | exit : ReceiverStep .exiting (.close .receiverExited) .exited

theorem receiverStep_of_next {loc after : ReceiverLoc} {act : StreamAct} (moved : receiverNext loc act = some after) :
    ReceiverStep loc act after := by
  unfold receiverNext at moved
  split at moved
  case h_5 =>
    split at moved
    · next same =>
      subst same
      cases moved
      exact .deliver _
    · cases moved
  all_goals cases moved <;> constructor

/-- The receiver has returned. -/
def ReceiverLoc.ended : ReceiverLoc → Prop
  | .exiting => True
  | .exited => True
  | _ => False

/-- `Recv` of the client fails, and not by the end of the stream. -/
def breaks : StreamAct → Bool
  | .event (.clientRecv (.error (.other _))) => true
  | _ => false

variable {acts : List StreamAct}

/-- What the receiver has done before it is where it is. -/
structure ReceiverHistory (acts : List StreamAct) (loc : ReceiverLoc) : Prop where
  started : loc = .waiting ∨ .drain .clientStarted ∈ acts
  ended : loc.ended → .close .clientDone ∈ acts ∨ acts.any breaks

theorem ReceiverHistory.step {loc after : ReceiverLoc} {act : StreamAct} (history : ReceiverHistory acts loc)
    (moved : ReceiverStep loc act after) : ReceiverHistory (acts ++ [act]) after := by
  obtain ⟨started, ended⟩ := history
  cases moved with
  | start => exact ⟨.inr (by simp), False.elim⟩
  | take result => exact ⟨.inr (by simpa using started), False.elim⟩
  | finish => exact ⟨.inr (by simpa using started), False.elim⟩
  | fail text => exact ⟨.inr (by simpa using started), fun _ => .inr (by simp [breaks])⟩
  | deliver result => exact ⟨.inr (by simpa using started), False.elim⟩
  | close => exact ⟨.inr (by simpa using started), fun _ => .inl (by simp)⟩
  | exit =>
    refine ⟨.inr (by simpa using started), fun _ => ?_⟩
    obtain closed | broke := ended trivial
    · exact .inl (List.mem_append_left _ closed)
    · exact .inr (by simp only [List.any_append, broke, Bool.true_or])

theorem receiverHistory_of_run {loc : ReceiverLoc} (ran : acts.foldlM receiverNext .waiting = some loc) :
    ReceiverHistory acts loc := by
  induction Path.iff_foldlM.mpr ran with
  | nil => exact ⟨.inl rfl, False.elim⟩
  | snoc before moved ih => exact (ih (Path.iff_foldlM.mp before)).step (receiverStep_of_next moved)

/-- The sender has closed `senderExited` only when it has exited. -/
theorem sender_exited {loc : SenderLoc} (ran : acts.foldlM senderNext .waiting = some loc)
    (closes : .close .senderExited ∈ acts) : loc = .exited := by
  induction Path.iff_foldlM.mpr ran with
  | nil => cases closes
  | @snoc acts middle last act before moved ih =>
    obtain earlier | here := List.mem_append.mp closes
    · obtain rfl := ih (Path.iff_foldlM.mp before) earlier
      cases senderStep_of_next moved
    · obtain rfl := List.mem_singleton.mp here
      cases senderStep_of_next moved
      rfl

end Receiver

section Client

variable {written : List String} {closes : Bool} {leftover : Option String} {config : remoteStream.Config}
  {labels : List (Label RemoteRole StreamChannel Item StreamEvent)}

/-- The receive side has ended with an error other than the end of the stream. -/
def broken (labels : List (Label RemoteRole StreamChannel Item StreamEvent)) : Bool :=
  (acts .receiver labels).any breaks

/-- The sender has ended, or it can go on without another message of the caller. -/
def SenderFree (config : remoteStream.Config) : Prop :=
  config.loc .sender = SenderLoc.exited ∨ config.loc .sender = SenderLoc.panicked ∨
    ∃ label next act, remoteStream.Steps config label next ∧ label.act .sender = some act ∧
      ∀ item, act ≠ .receive .input item

/-- What the end of a stream does to the caller. -/
structure Releases (labels : List (Label RemoteRole StreamChannel Item StreamEvent)) (config : remoteStream.Config) :
    Prop where
  frees : ReceiverLoc.ended (config.loc .receiver) → SenderFree config
  reports : broken labels → ∀ err, config.loc .caller = CallerLoc.returned err → err ≠ none

theorem senderFree_of_next (act : StreamAct) {after : SenderLoc}
    (moved : senderNext (config.loc .sender) act = some after) (permitted : config.permits act) :
    SenderFree config := by
  refine .inr (.inr ⟨.alone .sender act, _, act, steps_alone_iff.mpr ⟨permitted, after, moved, rfl⟩, rfl, ?_⟩)
  rintro item rfl
  cases permitted

theorem only_sender_exits {i : RemoteRole} {loc after : remoteStream.Loc i}
    (moved : remoteStream.next i loc (.close .senderExited) = some after) : i = .sender := by
  cases i with
  | writer => rcases loc with ⟨_ | ⟨data, rest⟩, _ | _⟩ <;> cases moved
  | reader => cases moved
  | sender => rfl
  | _ => cases loc <;> cases moved

/-- As long as the sender has not exited, nobody has said that it has. -/
theorem senderExited_unclosed
    (path : Path remoteStream.Steps (remoteStream.start written closes leftover) labels config)
    (exits : config.loc .sender = SenderLoc.exiting) : config.closed .senderExited = false := by
  by_contra closed
  obtain ⟨i, closing⟩ := close_mem_acts path rfl ((Bool.not_eq_false _).mp closed)
  obtain ⟨loc, after, moved⟩ := next_of_mem_acts path closing
  obtain rfl := only_sender_exits moved
  have exited := sender_exited (foldlM_acts path .sender) closing
  rw [exits] at exited
  cases exited

/-- When the stream has not broken, a receiver that has returned has closed `done`. -/
theorem clientDone_closed (path : Path remoteStream.Steps (remoteStream.start written closes leftover) labels config)
    (unbroken : broken labels = false) (ended : ReceiverLoc.ended (config.loc .receiver)) :
    config.closed .clientDone = true ∧ config.closed .clientStarted = true := by
  obtain ⟨started, why⟩ := receiverHistory_of_run (foldlM_acts path .receiver)
  constructor
  · obtain closed | broke := why ended
    · exact closed_of_close_mem_acts path closed
    · cases unbroken.symm.trans broke
  · obtain waits | drained := started
    · rw [waits] at ended
      exact ended.elim
    · obtain ⟨i, closing⟩ := close_mem_acts_of_drain path rfl drained
      exact closed_of_close_mem_acts path closing

/-- In every run in which the receive side ends with the end of the stream, a sender is released when the receiver has
returned. -/
theorem stream_releases (written : List String) (closes : Bool) (leftover : Option String)
    (path : Path remoteStream.Steps (remoteStream.start written closes leftover) labels config)
    (unbroken : broken labels = false) : Releases labels config := by
  refine ⟨fun ended => ?_, fun broke => nomatch unbroken.symm.trans broke⟩
  obtain ⟨done, started⟩ := clientDone_closed path unbroken ended
  cases here : config.loc .sender with
  | waiting => exact senderFree_of_next (.drain .clientStarted) (by rw [here]; rfl) started
  | selecting => exact senderFree_of_next (.drain .clientDone) (by rw [here]; rfl) done
  | sending data => exact senderFree_of_next (.event (.clientSendFailed .eof)) (by rw [here]; rfl) rfl
  | exiting =>
    have unclosed := senderExited_unclosed path here
    exact senderFree_of_next (.close .senderExited) (by rw [here]; rfl) (by simp [Config.permits, unclosed])
  | exited => exact .inl here
  | panicked => exact .inr (.inl here)

/-- Both goroutines of the client run. -/
private def connected : List (Label RemoteRole StreamChannel Item StreamEvent) :=
  [.alone .caller (.event (.opened none)), .alone .caller (.event (.connected none)),
    .alone .caller (.close .clientStarted), .alone .sender (.drain .clientStarted),
    .alone .receiver (.drain .clientStarted)]

private def endOfStream : List (Label RemoteRole StreamChannel Item StreamEvent) :=
  connected ++ [.alone .receiver (.event (.clientRecv (.error .eof))), .alone .receiver (.close .clientDone)]

theorem end_of_stream_releases : ∃ config,
    Path remoteStream.Steps (remoteStream.start [] false none) endOfStream config ∧ broken endOfStream = false ∧
      ReceiverLoc.ended (config.loc .receiver) ∧ Releases endOfStream config := by
  obtain ⟨config, ran, ended⟩ : ∃ config,
      remoteStream.run (remoteStream.start [] false none) endOfStream = some config ∧
      ReceiverLoc.ended (config.loc .receiver) := ⟨_, rfl, trivial⟩
  have path := path_iff_run.mpr ran
  exact ⟨config, path, rfl, ended, stream_releases [] false none path rfl⟩

private def unavailable : List (Label RemoteRole StreamChannel Item StreamEvent) :=
  connected ++ [.alone .receiver (.event (.clientRecv (.error (.other "unavailable"))))]

/-- The sender, which finds the stream ended with its next message, is the last to return. -/
private def returning : List (Label RemoteRole StreamChannel Item StreamEvent) :=
  unavailable ++ [.exchange .writer .sender .input (.data "a"), .alone .sender (.event (.clientSendFailed .eof)),
    .alone .sender (.close .senderExited), .alone .receiver (.close .receiverExited),
    .alone .caller (.drain .senderExited), .alone .caller (.drain .receiverExited)]

/-- A sender at its `select` needs a message if `in` and `done` are open. -/
theorem not_senderFree (selects : config.loc .sender = SenderLoc.selecting) (input : config.closed .input = false)
    (done : config.closed .clientDone = false) : ¬SenderFree config := by
  rintro (exited | panicked | ⟨label, next, act, moved, acts, other⟩)
  · rw [selects] at exited
    cases exited
  · rw [selects] at panicked
    cases panicked
  · have moves := next_of_act moved acts
    rw [selects] at moves
    generalize next.loc .sender = after at moves
    cases senderStep_of_next moves with
    | take data => exact other _ rfl
    | invent => cases input.symm.trans (closed_of_drain moved acts)
    | done => cases done.symm.trans (closed_of_drain moved acts)

/-- The connection is lost. Without another message the sender waits for good. With one it returns, and `Stream` returns
nil. -/
theorem broken_stream_strands :
    (∃ config, Path remoteStream.Steps (remoteStream.start [] false none) unavailable config ∧
      ReceiverLoc.ended (config.loc .receiver) ∧ ¬SenderFree config) ∧
    ∃ config, Path remoteStream.Steps (remoteStream.start ["a"] false none) returning config ∧
      broken returning ∧ config.loc .caller = CallerLoc.returned none ∧ ¬Releases returning config := by
  constructor
  · exact ⟨_, path_iff_run.mpr rfl, trivial, not_senderFree rfl rfl rfl⟩
  · exact ⟨_, path_iff_run.mpr rfl, rfl, rfl, fun releases => releases.reports rfl none rfl rfl⟩

end Client

end Zongzi
