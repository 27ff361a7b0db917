import Zongzi.Model.Records
import Zongzi.ToStd.Leases

/-! # Streams that share pooled queries

`grpcServer.Stream` borrows a query from a pool, puts its own channels into it and gives it back when it returns. The
state machine is called with the channels that it finds in the query. Two goroutines of a stream read the query as
well, each time they come to their `select`: one forwards results, and the method waits for it before it returns. The
other one hands on messages, and nothing waits for it: it may come to its `select` when the query was given back and
has become the query of another stream.

What the state machine and the callers do is open. A channel is named by the stream that has made it, and a message or
a result is kept with the stream it comes from.
-/

namespace Zongzi

/-- The channels of a pooled query. -/
structure StreamQuery (κ : Type) where
  input : Option κ := none
  output : Option κ := none

/-- Where the method is. -/
inductive StreamPhase where
  | idle
  | reading
  | closing
  /-- `done` is closed. -/
  | draining
  /-- The query is given back. -/
  | returned
deriving DecidableEq

/-- Where the goroutine is that hands on messages. -/
inductive StreamHandler (κ : Type) where
  | receiving
  | holding (data : String)
  /-- At the `select`, with the channel that it has read from the query. -/
  | offering (data : String) (channel : Option κ)
  | exited

/-- Where the goroutine is that forwards results. -/
inductive StreamForwarder (κ : Type) where
  | looping
  /-- At the `select`, with the channel that it has read from the query. -/
  | selecting (channel : Option κ)
  | sending (origin : κ) (result : Result)
  | exited

structure StreamState (κ : Type) where
  phase : StreamPhase := .idle
  /-- The query that the goroutines have a pointer to. -/
  query : ℕ := 0
  handler : StreamHandler κ := .receiving
  forwarder : StreamForwarder κ := .looping
  /-- The channels with which the state machine runs. -/
  machine : Option (StreamQuery κ) := none
  /-- What the state machine has taken from its input. -/
  taken : List (κ × String) := []
  /-- What the caller was sent. -/
  forwarded : List (κ × Result) := []

structure StreamServer (κ : Type) where
  leases : Leases κ := {}
  queries : ℕ → StreamQuery κ := fun _ => {}
  streams : κ → StreamState κ := fun _ => {}

inductive StreamMove (κ : Type) where
  /-- The connect message has arrived, and the pool lends a query. -/
  | connect (stream : κ) (choice : Option ℕ)
  | lookup (stream : κ)
  /-- A message, or an end of the messages. -/
  | recv (stream : κ) (data : Option String)
  | offer (stream : κ)
  /-- The goroutine of the first stream hands its message to the state machine of the second. -/
  | hand (source target : κ)
  | quit (stream : κ)
  | select (stream : κ)
  /-- The state machine of the first stream sends a result, and the goroutine of the second takes it. -/
  | emit (source target : κ) (result : Result)
  | srvSend (stream : κ)
  | stop (stream : κ)
  | readReturns (stream : κ)
  | closeDone (stream : κ)
  | release (stream : κ)

/-- The method has a query. -/
def StreamPhase.isActive : StreamPhase → Bool
  | .idle | .returned => false
  | _ => true

def StreamPhase.isDone : StreamPhase → Bool
  | .draining | .returned => true
  | _ => false

namespace StreamServer

variable {κ : Type} [DecidableEq κ]

def set (server : StreamServer κ) (stream : κ) (state : StreamState κ) : StreamServer κ :=
  { server with streams := Function.update server.streams stream state }

@[simp] theorem streams_set_self (server : StreamServer κ) (stream : κ) (state : StreamState κ) :
    (server.set stream state).streams stream = state := Function.update_self ..

@[simp] theorem streams_set_of_ne (server : StreamServer κ) {stream other : κ} (state : StreamState κ)
    (different : other ≠ stream) : (server.set stream state).streams other = server.streams other :=
  Function.update_of_ne different ..

/-- The channels that a stream's query has now. -/
def fields (server : StreamServer κ) (stream : κ) : StreamQuery κ := server.queries (server.streams stream).query

def step (server : StreamServer κ) : StreamMove κ → Option (StreamServer κ)
  | .connect stream choice =>
    if (server.streams stream).phase = .idle then
      (server.leases.acquire stream choice).map fun (query, leases) =>
        { server with
          leases
          queries := Function.update server.queries query { input := some stream, output := some stream } }.set stream
            { server.streams stream with phase := .reading, query }
    else none
  | .lookup stream =>
    match (server.streams stream).phase, (server.streams stream).machine with
    | .reading, none => some (server.set stream { server.streams stream with machine := some (server.fields stream) })
    | _, _ => none
  | .recv stream data =>
    match (server.streams stream).phase, (server.streams stream).handler, data with
    | .idle, _, _ => none
    | _, .receiving, some data => some (server.set stream { server.streams stream with handler := .holding data })
    | _, .receiving, none => some (server.set stream { server.streams stream with handler := .exited })
    | _, _, _ => none
  | .offer stream =>
    match (server.streams stream).handler with
    | .holding data =>
      let handler := .offering data (server.fields stream).input
      some (server.set stream { server.streams stream with handler })
    | _ => none
  | .hand source target =>
    match (server.streams source).handler, (server.streams target).machine with
    | .offering data (some channel), some machine =>
      if machine.input = some channel then
        let handed := server.set source { server.streams source with handler := .receiving }
        some (handed.set target
          { handed.streams target with taken := (handed.streams target).taken ++ [(source, data)] })
      else none
    | _, _ => none
  | .quit stream =>
    match (server.streams stream).handler with
    | .offering _ _ =>
      if (server.streams stream).phase.isDone then
        some (server.set stream { server.streams stream with handler := .exited })
      else none
    | _ => none
  | .select stream =>
    match (server.streams stream).phase, (server.streams stream).forwarder with
    | .idle, _ => none
    | _, .looping =>
      some (server.set stream { server.streams stream with forwarder := .selecting (server.fields stream).output })
    | _, _ => none
  | .emit source target result =>
    match (server.streams source).machine, (server.streams target).forwarder with
    | some machine, .selecting (some channel) =>
      if machine.output = some channel then
        some (server.set target { server.streams target with forwarder := .sending source result })
      else none
    | _, _ => none
  | .srvSend stream =>
    match (server.streams stream).forwarder with
    | .sending origin result =>
      let forwarded := (server.streams stream).forwarded ++ [(origin, result)]
      some (server.set stream { server.streams stream with forwarder := .looping, forwarded })
    | _ => none
  | .stop stream =>
    match (server.streams stream).forwarder with
    | .selecting _ =>
      if (server.streams stream).phase.isDone then
        some (server.set stream { server.streams stream with forwarder := .exited })
      else none
    | _ => none
  | .readReturns stream =>
    if (server.streams stream).phase = .reading then
      some (server.set stream { server.streams stream with phase := .closing, machine := none })
    else none
  | .closeDone stream =>
    if (server.streams stream).phase = .closing then
      some (server.set stream { server.streams stream with phase := .draining })
    else none
  | .release stream =>
    match (server.streams stream).phase, (server.streams stream).forwarder with
    | .draining, .exited =>
      let query := (server.streams stream).query
      some ({ server with
        leases := server.leases.release stream query
        queries := Function.update server.queries query {} }.set stream
          { server.streams stream with phase := .returned })
    | _, _ => none

end StreamServer

end Zongzi
