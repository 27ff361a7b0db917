import Zongzi.Machine.Path
import Zongzi.Model.StreamQueries

/-! # Whose messages and whose results

A query that is lent belongs to one stream, and its channels are those of that stream until it is given back. The
forwarder has exited by then, so a caller is sent the results of its own state machine only. The handler may still be
at its loop, so a state machine takes the messages of its own caller exactly as long as no handler hands on a message
once its method has returned.
-/

namespace Zongzi

open Machine

namespace StreamServer

variable {κ : Type} [DecidableEq κ] {server next : StreamServer κ} {move : StreamMove κ} {moves : List (StreamMove κ)}

def Moves (server : StreamServer κ) (move : StreamMove κ) (next : StreamServer κ) : Prop := server.step move = some next

theorem moves_determined : Determined (@Moves κ _) :=
  fun _ _ _ _ left right => Option.some.inj (left.symm.trans right)

/-- What holds of one stream, its lease and the queries. -/
structure Keeps (stream : κ) (lease : Option ℕ) (queries : ℕ → StreamQuery κ) (state : StreamState κ) : Prop where
  leased : state.phase.isActive → lease = some state.query ∧ queries state.query = ⟨some stream, some stream⟩
  machine : ∀ machine, state.machine = some machine → state.phase = .reading ∧ machine = ⟨some stream, some stream⟩
  offering : ∀ data channel, state.handler = .offering data channel → state.phase.isActive → channel = some stream
  selecting : ∀ channel, state.forwarder = .selecting channel → state.phase.isActive ∧ channel = some stream
  sending : ∀ origin result, state.forwarder = .sending origin result → state.phase.isActive ∧ origin = stream
  idle : state.phase = .idle → state.handler = .receiving ∧ state.forwarder = .looping
  returned : state.phase = .returned → state.forwarder = .exited
  forwarded : ∀ sent ∈ state.forwarded, sent.1 = stream

structure Sane (server : StreamServer κ) : Prop where
  exclusive : server.leases.Exclusive
  keeps : ∀ stream, Keeps stream (server.leases.lease stream) server.queries (server.streams stream)

omit [DecidableEq κ] in
theorem sane_fresh : ({} : StreamServer κ).Sane where
  exclusive := Leases.exclusive_empty
  keeps stream := by constructor <;> simp [StreamPhase.isActive]

theorem Sane.set {stream : κ} {state : StreamState κ} (sane : server.Sane)
    (keeps : Keeps stream (server.leases.lease stream) server.queries state) : (server.set stream state).Sane where
  exclusive := sane.exclusive
  keeps other := by
    by_cases same : other = stream
    · subst same
      rw [streams_set_self]
      exact keeps
    · rw [streams_set_of_ne _ _ same]
      exact sane.keeps other

omit [DecidableEq κ] in
theorem Keeps.stopped {stream : κ} {lease : Option ℕ} {queries : ℕ → StreamQuery κ} {state : StreamState κ}
    (keeps : Keeps stream lease queries state) (over_ : state.phase ≠ .reading) : state.machine = none := by
  cases running : state.machine with
  | none => rfl
  | some machine => exact absurd (keeps.machine machine running).1 over_

omit [DecidableEq κ] in
/-- The query of another stream is not touched. -/
theorem Keeps.update {stream : κ} {lease : Option ℕ} {queries : ℕ → StreamQuery κ} {state : StreamState κ}
    (keeps : Keeps stream lease queries state) {query : ℕ} (fields : StreamQuery κ)
    (apart : state.phase.isActive → state.query ≠ query) :
    Keeps stream lease (Function.update queries query fields) state where
  leased active := by
    rw [Function.update_of_ne (apart active)]
    exact keeps.leased active
  machine := keeps.machine
  offering := keeps.offering
  selecting := keeps.selecting
  sending := keeps.sending
  idle := keeps.idle
  returned := keeps.returned
  forwarded := keeps.forwarded

theorem Sane.connect {stream : κ} {choice : Option ℕ} (sane : server.Sane)
    (moved : server.Moves (.connect stream choice) next) : next.Sane := by
  obtain ⟨idle, lent⟩ := Option.ite_none_right_eq_some.mp moved
  obtain ⟨⟨query, leases⟩, acquired, rfl⟩ := Option.map_eq_some_iff.mp lent
  have unlent := sane.exclusive.unlent acquired
  have lease := Leases.lease_acquire acquired
  refine ⟨sane.exclusive.acquire acquired, fun other => ?_⟩
  by_cases same : other = stream
  · subst same
    have keeps := sane.keeps other
    obtain ⟨receiving, looping⟩ := keeps.idle idle
    have stopped := keeps.stopped (by simp [idle])
    rw [streams_set_self]
    exact
      { leased := fun _ => ⟨(congrFun lease other).trans (Function.update_self ..), Function.update_self ..⟩
        machine := by simp [stopped]
        offering := by simp [receiving]
        selecting := by simp [looping]
        sending := by simp [looping]
        idle := by simp
        returned := by simp
        forwarded := keeps.forwarded }
  · rw [streams_set_of_ne _ _ same]
    change Keeps other (leases.lease other) _ (server.streams other)
    rw [lease, Function.update_of_ne same]
    refine (sane.keeps other).update _ fun active again => unlent other ?_
    rw [← again]
    exact ((sane.keeps other).leased active).1

theorem Sane.release {stream : κ} (sane : server.Sane) (moved : server.Moves (.release stream) next) : next.Sane := by
  simp only [Moves, step] at moved
  split at moved
  · next phase exited =>
    cases moved
    have keeps := sane.keeps stream
    have held := (keeps.leased (by rw [phase]; rfl)).1
    refine ⟨sane.exclusive.release held, fun other => ?_⟩
    by_cases same : other = stream
    · subst same
      rw [streams_set_self]
      exact
        { leased := by simp [StreamPhase.isActive]
          machine := by simp [keeps.stopped (by simp [phase])]
          offering := by simp [StreamPhase.isActive]
          selecting := by simp [exited]
          sending := by simp [exited]
          idle := by simp
          returned := fun _ => exited
          forwarded := keeps.forwarded }
    · rw [streams_set_of_ne _ _ same]
      change Keeps other (Function.update server.leases.lease stream none other) _ (server.streams other)
      rw [Function.update_of_ne same]
      refine (sane.keeps other).update _ fun active again => same ?_
      refine sane.exclusive.single other stream _ ((sane.keeps other).leased active).1 ?_
      rw [again]
      exact held
  · cases moved

section Goroutines

variable {stream : κ} {lease : Option ℕ} {queries : ℕ → StreamQuery κ} {state : StreamState κ}

omit [DecidableEq κ] in
theorem Keeps.handle (keeps : Keeps stream lease queries state) (started : state.phase ≠ .idle)
    (handler : StreamHandler κ)
    (offers : ∀ data channel, handler = .offering data channel → state.phase.isActive → channel = some stream) :
    Keeps stream lease queries { state with handler } :=
  { keeps with
    offering := offers
    idle := fun idle => absurd idle started }

omit [DecidableEq κ] in
theorem Keeps.forward (keeps : Keeps stream lease queries state) (active : state.phase.isActive)
    (forwarder : StreamForwarder κ) (selects : ∀ channel, forwarder = .selecting channel → channel = some stream)
    (sends : ∀ origin result, forwarder = .sending origin result → origin = stream) :
    Keeps stream lease queries { state with forwarder } :=
  { keeps with
    selecting := fun channel is => ⟨active, selects channel is⟩
    sending := fun origin result is => ⟨active, sends origin result is⟩
    idle := fun idle => by
      rw [idle] at active
      cases active
    returned := fun returned => by
      rw [returned] at active
      cases active }

omit [DecidableEq κ] in
/-- The method goes on while its state machine does not run. -/
theorem Keeps.proceed (keeps : Keeps stream lease queries state) (active : state.phase.isActive) {phase : StreamPhase}
    (later : phase.isActive) : Keeps stream lease queries { state with phase, machine := none } where
  leased _ := keeps.leased active
  machine := by simp
  offering data channel is _ := keeps.offering data channel is active
  selecting channel is := ⟨later, (keeps.selecting channel is).2⟩
  sending origin result is := ⟨later, (keeps.sending origin result is).2⟩
  idle idle := by
    rw [show phase = .idle from idle] at later
    cases later
  returned returned := by
    rw [show phase = .returned from returned] at later
    cases later
  forwarded := keeps.forwarded

omit [DecidableEq κ] in
theorem Keeps.started (keeps : Keeps stream lease queries state) (moved : state.handler ≠ .receiving) :
    state.phase ≠ .idle :=
  fun idle => moved (keeps.idle idle).1

theorem Sane.lookup (sane : server.Sane) (moved : server.Moves (.lookup stream) next) : next.Sane := by
  simp only [Moves, step] at moved
  split at moved
  · next phase _ =>
    cases moved
    have keeps := sane.keeps stream
    have fields := (keeps.leased (by rw [phase]; rfl)).2
    refine sane.set { keeps with machine := fun machine running => ?_ }
    cases running
    exact ⟨phase, fields⟩
  · cases moved

theorem Sane.recv {data : Option String} (sane : server.Sane) (moved : server.Moves (.recv stream data) next) :
    next.Sane := by
  simp only [Moves, step] at moved
  split at moved
  · cases moved
  · next receiving started =>
    cases moved
    exact sane.set ((sane.keeps stream).handle started _ (by simp))
  · next receiving started =>
    cases moved
    exact sane.set ((sane.keeps stream).handle started _ (by simp))
  · cases moved

theorem Sane.offer (sane : server.Sane) (moved : server.Moves (.offer stream) next) : next.Sane := by
  simp only [Moves, step] at moved
  split at moved
  · next data holding =>
    cases moved
    have keeps := sane.keeps stream
    refine sane.set (keeps.handle (keeps.started (by simp [holding])) _ fun _ channel offering active => ?_)
    cases offering
    rw [fields, (keeps.leased active).2]
  · cases moved

theorem Sane.hand {source target : κ} (sane : server.Sane) (moved : server.Moves (.hand source target) next) :
    next.Sane := by
  simp only [Moves, step] at moved
  split at moved
  · next data channel machine offering running =>
    obtain ⟨-, same⟩ := Option.ite_none_right_eq_some.mp moved
    cases same
    have keeps := sane.keeps source
    have handed := sane.set (keeps.handle (keeps.started (by simp [offering])) .receiving (by simp))
    exact handed.set { handed.keeps target with }
  · cases moved

theorem Sane.quit (sane : server.Sane) (moved : server.Moves (.quit stream) next) : next.Sane := by
  simp only [Moves, step] at moved
  split at moved
  · next data channel offering =>
    obtain ⟨-, same⟩ := Option.ite_none_right_eq_some.mp moved
    cases same
    have keeps := sane.keeps stream
    exact sane.set (keeps.handle (keeps.started (by simp [offering])) _ (by simp))
  · cases moved

theorem Sane.select (sane : server.Sane) (moved : server.Moves (.select stream) next) : next.Sane := by
  simp only [Moves, step] at moved
  split at moved
  · cases moved
  · next looping started =>
    cases moved
    have keeps := sane.keeps stream
    have active : (server.streams stream).phase.isActive := by
      have running : (server.streams stream).phase ≠ .returned := fun returned => by
        rw [keeps.returned returned] at looping
        cases looping
      cases phase : (server.streams stream).phase <;> simp_all [StreamPhase.isActive]
    refine sane.set (keeps.forward active _ (fun channel selecting => ?_) (by simp))
    cases selecting
    rw [fields, (keeps.leased active).2]
  · cases moved

theorem Sane.emit {source target : κ} {result : Result} (sane : server.Sane)
    (moved : server.Moves (.emit source target result) next) : next.Sane := by
  simp only [Moves, step] at moved
  split at moved
  · next machine channel running selecting =>
    obtain ⟨sent, same⟩ := Option.ite_none_right_eq_some.mp moved
    cases same
    obtain ⟨active, own⟩ := (sane.keeps target).selecting _ selecting
    rw [((sane.keeps source).machine machine running).2] at sent
    refine sane.set ((sane.keeps target).forward active _ (by simp) fun origin value sending => ?_)
    cases sending
    exact Option.some.inj (sent.trans own)
  · cases moved

theorem Sane.srvSend (sane : server.Sane) (moved : server.Moves (.srvSend stream) next) : next.Sane := by
  simp only [Moves, step] at moved
  split at moved
  · next origin result sending =>
    cases moved
    have keeps := sane.keeps stream
    obtain ⟨active, own⟩ := keeps.sending origin result sending
    refine sane.set { keeps.forward active .looping (by simp) (by simp) with forwarded := fun sent listed => ?_ }
    rcases List.mem_append.mp listed with before | last
    · exact keeps.forwarded sent before
    · cases List.mem_singleton.mp last
      exact own
  · cases moved

theorem Sane.stop (sane : server.Sane) (moved : server.Moves (.stop stream) next) : next.Sane := by
  simp only [Moves, step] at moved
  split at moved
  · next channel selecting =>
    obtain ⟨-, same⟩ := Option.ite_none_right_eq_some.mp moved
    cases same
    have keeps := sane.keeps stream
    exact sane.set (keeps.forward (keeps.selecting channel selecting).1 _ (by simp) (by simp))
  · cases moved

theorem Sane.readReturns (sane : server.Sane) (moved : server.Moves (.readReturns stream) next) : next.Sane := by
  obtain ⟨phase, same⟩ := Option.ite_none_right_eq_some.mp moved
  cases same
  exact sane.set ((sane.keeps stream).proceed (by rw [phase]; rfl) rfl)

theorem Sane.closeDone (sane : server.Sane) (moved : server.Moves (.closeDone stream) next) : next.Sane := by
  obtain ⟨phase, same⟩ := Option.ite_none_right_eq_some.mp moved
  cases same
  have later : StreamPhase.draining.isActive := rfl
  have keeps := (sane.keeps stream).proceed (by rw [phase]; rfl) later
  rw [← (sane.keeps stream).stopped (by simp [phase])] at keeps
  exact sane.set keeps

end Goroutines

theorem Sane.step (sane : server.Sane) (moved : server.Moves move next) : next.Sane := by
  cases move with
  | connect _ _ => exact sane.connect moved
  | release _ => exact sane.release moved
  | lookup _ => exact sane.lookup moved
  | recv _ _ => exact sane.recv moved
  | offer _ => exact sane.offer moved
  | hand _ _ => exact sane.hand moved
  | quit _ => exact sane.quit moved
  | select _ => exact sane.select moved
  | emit _ _ _ => exact sane.emit moved
  | srvSend _ => exact sane.srvSend moved
  | stop _ => exact sane.stop moved
  | readReturns _ => exact sane.readReturns moved
  | closeDone _ => exact sane.closeDone moved

theorem sane_of_path (path : Path Moves {} moves server) : server.Sane :=
  path.invariant sane_fresh fun _ _ _ _ sane moved => sane.step moved

/-- A caller is sent the results of its own state machine, whatever the streams before and beside it do. -/
theorem results_stay (path : Path Moves {} moves server) (stream : κ) :
    ∀ sent ∈ (server.streams stream).forwarded, sent.1 = stream :=
  ((sane_of_path path).keeps stream).forwarded

/-- A query is used by two streams, one after the other, and the second sends a result. -/
def reusedQuery : List (StreamMove Bool) :=
  [.connect false none, .lookup false, .select false, .readReturns false, .closeDone false, .stop false,
    .release false, .connect true (some 0), .lookup true, .select true, .emit true true { value := 7 }, .srvSend true]

theorem reused_query_forwards :
    ∃ server : StreamServer Bool, Path Moves {} reusedQuery server ∧ (server.streams true).forwarded.length = 1 ∧
      ∀ sent ∈ (server.streams true).forwarded, sent.1 = true := by
  have path : Path Moves ({} : StreamServer Bool) reusedQuery _ := Path.iff_foldlM.mpr rfl
  exact ⟨_, path, rfl, results_stay path true⟩

/-- Every state machine has taken messages of its own caller only. -/
def Own (server : StreamServer κ) : Prop := ∀ stream, ∀ message ∈ (server.streams stream).taken, message.1 = stream

/-- A message is handed on before its method has returned. -/
def InTime (server : StreamServer κ) (move : StreamMove κ) : Prop :=
  ∀ source target, move = .hand source target → (server.streams source).phase ≠ .returned

theorem taken_set {stream : κ} {state : StreamState κ} (same : state.taken = (server.streams stream).taken)
    (other : κ) : ((server.set stream state).streams other).taken = (server.streams other).taken := by
  by_cases is : other = stream
  · subst is
    rw [streams_set_self, same]
  · rw [streams_set_of_ne _ _ is]

/-- Only a handler brings a message to a state machine. -/
theorem taken_step (moved : server.Moves move next) (other : ∀ source target, move ≠ .hand source target) (stream : κ) :
    (next.streams stream).taken = (server.streams stream).taken := by
  cases move with
  | hand source target => exact absurd rfl (other source target)
  | connect opened choice =>
    obtain ⟨-, lent⟩ := Option.ite_none_right_eq_some.mp moved
    obtain ⟨⟨query, leases⟩, -, rfl⟩ := Option.map_eq_some_iff.mp lent
    exact taken_set (by rfl) stream
  | _ =>
    simp only [Moves, step] at moved
    split at moved
    all_goals first
      | cases moved
        exact taken_set (by rfl) stream
      | cases moved
      | cases (Option.ite_none_right_eq_some.mp moved).2
        exact taken_set (by rfl) stream

/-- A handler hands its message to its own state machine exactly if its method has not returned. -/
theorem Sane.hand_iff {source target : κ} (sane : server.Sane) (moved : server.Moves (.hand source target) next) :
    ((server.streams source).phase ≠ .returned ↔ source = target) ∧
      ∃ data, (next.streams target).taken = (server.streams target).taken ++ [(source, data)] ∧
        ∀ other ≠ target, (next.streams other).taken = (server.streams other).taken := by
  simp only [Moves, StreamServer.step] at moved
  split at moved
  · next data channel machine offering running =>
    obtain ⟨meets, same⟩ := Option.ite_none_right_eq_some.mp moved
    cases same
    obtain ⟨reading, own⟩ := (sane.keeps target).machine machine running
    rw [own] at meets
    obtain rfl := Option.some.inj meets
    refine ⟨⟨fun running => ?_, ?_⟩, data, ?_, fun other different => ?_⟩
    · have started := (sane.keeps source).started (by simp [offering])
      have active : (server.streams source).phase.isActive := by
        cases phase : (server.streams source).phase <;> simp_all [StreamPhase.isActive]
      exact (Option.some.inj ((sane.keeps source).offering _ _ offering active)).symm
    · rintro rfl
      simp [reading]
    · rw [streams_set_self]
      exact congrArg (· ++ _) (taken_set (by rfl) target)
    · rw [streams_set_of_ne _ _ different]
      exact taken_set (by rfl) other
  · cases moved

theorem own_step_iff (sane : server.Sane) (own : server.Own) (moved : server.Moves move next) :
    next.Own ↔ server.InTime move := by
  by_cases hands : ∃ source target, move = .hand source target
  · obtain ⟨source, target, rfl⟩ := hands
    obtain ⟨exact_, data, taken, others⟩ := sane.hand_iff moved
    have intime : server.InTime (.hand source target) ↔ source = target := by
      rw [← exact_]
      constructor
      · exact fun intime => intime source target rfl
      · rintro running _ _ is
        cases is
        exact running
    rw [intime]
    constructor
    · intro after
      exact after target (source, data) (by simp [taken])
    · rintro rfl stream message listed
      by_cases same : stream = source
      · subst same
        rw [taken] at listed
        rcases List.mem_append.mp listed with before | last
        · exact own stream message before
        · cases List.mem_singleton.mp last
          rfl
      · rw [others stream same] at listed
        exact own stream message listed
  · have silent : ∀ source target, move ≠ .hand source target := fun source target is => hands ⟨source, target, is⟩
    refine iff_of_true (fun stream message listed => ?_) fun source target is => absurd is (silent source target)
    rw [taken_step moved silent stream] at listed
    exact own stream message listed

/-- Along any run of streams that share pooled queries, state machines take messages of their own callers exactly as
long as no handler hands on a message after its method has returned. -/
theorem messages_stay_iff (path : Path Moves {} moves server) :
    Always Moves ({} : StreamServer κ) moves Own ↔ AlwaysStep Moves ({} : StreamServer κ) moves InTime := by
  refine always_iff moves_determined path (by simp [Own]) ?_
  intro _ _ _ before after _ reached own moved
  exact own_step_iff (sane_of_path reached) own moved

/-- The first stream has returned and its query is lent to the second when the handler of the first comes to its
`select` with a message. -/
def lateMessage : List (StreamMove Bool) :=
  [.connect false none, .recv false (some "a"), .lookup false, .select false, .readReturns false, .closeDone false,
    .stop false, .release false, .connect true (some 0), .lookup true, .offer false, .hand false true]

/-- The state machine of the second stream takes a message of the first. -/
theorem late_message_strays :
    (∃ server, Path Moves {} lateMessage server ∧ (server.streams true).taken = [(false, "a")]) ∧
      ¬ Always Moves ({} : StreamServer Bool) lateMessage Own := by
  have path : Path Moves ({} : StreamServer Bool) lateMessage _ := Path.iff_foldlM.mpr rfl
  refine ⟨⟨_, path, rfl⟩, ?_⟩
  rw [messages_stay_iff path]
  intro intime
  exact intime (lateMessage.take 11) (.hand false true) [] _ rfl (Path.iff_foldlM.mpr rfl) false true rfl rfl

end StreamServer

end Zongzi
