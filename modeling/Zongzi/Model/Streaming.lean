import Zongzi.Machine.Channels
import Zongzi.Model.Records

/-! # Watching and streaming

`Watch` and `Stream` of the server run a method of the state machine, which sends its results to a channel of the query.
A goroutine forwards them to the caller. `Stream` has another one, which hands the caller's messages to the state
machine. On the agent's own host both read and write the caller's channels. For another host `Stream` of the client has
one goroutine for each direction.

What the state machine does, how the network answers and when a context ends is open. Bytes are strings, and nil is the
empty one.
-/

namespace Zongzi

open Machine Goroutines

inductive StreamChannel where
  /-- `in` and `out` of the caller. -/
  | input
  | output
  /-- `query.in`, and `query.out` or `query.result`. -/
  | queryIn
  | queryOut
  /-- `done` of the server. -/
  | done
  /-- `done` of the client. -/
  | clientDone
  /-- Closed when the goroutines of the server, or of the client, are started. -/
  | started
  | clientStarted
  /-- Closed when a goroutine exits that a wait group counts. -/
  | forwarderExited
  | senderExited
  | receiverExited
  /-- The two ends of the connection from the client to the server. -/
  | up
  | down
deriving DecidableEq

inductive Item where
  | data (data : String)
  | result (result : Result)
deriving DecidableEq

inductive StreamErr where
  | eof
  | other (text : String)
deriving DecidableEq

/-- What the server receives. -/
inductive Received where
  | message (data : String)
  | connect
  | failed (err : StreamErr)

inductive StreamEvent where
  /-- The first `srv.Recv`, with the error of the method if it is not a connect message. -/
  | connect (err : Option String)
  /-- `StaleRead` or `SyncRead` returns. -/
  | returned (err : Option String)
  | srvSend (result : Result) (err : Option String)
  | srvRecv (received : Received)
  | contextDone
  /-- The client opens a stream. -/
  | opened (err : Option StreamErr)
  /-- The client sends the connect message. -/
  | connected (err : Option StreamErr)
  | clientSendFailed (err : StreamErr)
  | clientRecv (answer : Except StreamErr Result)
  /-- A handler of an earlier stream takes its own `done`. -/
  | dropped

abbrev StreamAct : Type := Act StreamChannel Item StreamEvent

section Server

/-- Where `grpcServer.Watch` or `grpcServer.Stream` is. -/
inductive ServerLoc where
  | connecting
  | starting
  | reading
  | closing (err : Option String)
  | waiting (err : Option String)
  | returned (err : Option String)
  /-- Returned without a stream. -/
  | refused (err : String)

def serverNext : ServerLoc → StreamAct → Option ServerLoc
  | .connecting, .event (.connect none) => some .starting
  | .connecting, .event (.connect (some err)) => some (.refused err)
  | .starting, .close .started => some .reading
  -- The state machine runs until the read returns.
  | .reading, .send .queryOut (.result _) => some .reading
  | .reading, .receive .queryIn (.data _) => some .reading
  | .reading, .event (.returned err) => some (.closing err)
  | .closing err, .close .done => some (.waiting err)
  | .waiting err, .drain .forwarderExited => some (.returned err)
  | _, _ => none

/-- The goroutine that forwards results. -/
inductive ForwarderLoc where
  | waiting
  | selecting
  | sending (result : Result)
  | exiting
  | exited

def forwarderNext : ForwarderLoc → StreamAct → Option ForwarderLoc
  | .waiting, .drain .started => some .selecting
  | .selecting, .receive .queryOut (.result result) => some (.sending result)
  | .selecting, .drain .done => some .exiting
  -- An error is only logged.
  | .sending result, .event (.srvSend sent _) => if sent = result then some .selecting else none
  | .exiting, .close .forwarderExited => some .exited
  | _, _ => none

/-- The goroutine that hands on messages. Nothing waits for it. -/
inductive HandlerLoc where
  | waiting
  | receiving
  | handing (data : String)
  | exited

/-- A second connect message ends it like an error. -/
def Received.next : Received → HandlerLoc
  | .message data => .handing data
  | .connect => .exited
  | .failed _ => .exited

/-- What `srv.Recv` is depends on the server's stream. -/
def handlerNext (srvRecv : StreamAct → Option Received) : HandlerLoc → StreamAct → Option HandlerLoc
  | .waiting, .drain .started => some .receiving
  | .receiving, act => (srvRecv act).map Received.next
  | .handing data, .send .queryIn (.data handed) => if handed = data then some .receiving else none
  | .handing _, .drain .done => some .exited
  | _, _ => none

inductive ServerRole where
  | server
  | forwarder
  | handler
deriving DecidableEq

/-- Any stream of requests. -/
def anyRecv : StreamAct → Option Received
  | .event (.srvRecv received) => some received
  | _ => none

/-- The goroutines of one call of the server. -/
def grpcServer : Goroutines ServerRole StreamChannel Item StreamEvent where
  Loc
    | .server => ServerLoc
    | .forwarder => ForwarderLoc
    | .handler => HandlerLoc
  next
    | .server => serverNext
    | .forwarder => forwarderNext
    | .handler => handlerNext anyRecv

/-- `Watch` has no messages to hand on. -/
def grpcServer.watch : grpcServer.Config where
  loc
    | .server => ServerLoc.reading
    | .forwarder => ForwarderLoc.selecting
    | .handler => HandlerLoc.exited

def grpcServer.stream : grpcServer.Config where
  loc
    | .server => ServerLoc.connecting
    | .forwarder => ForwarderLoc.waiting
    | .handler => HandlerLoc.waiting

end Server

section Caller

/-- What the caller still writes to `in`, and whether the channel is closed after it. -/
structure WriterLoc where
  rest : List String
  closes : Bool

def writerNext : WriterLoc → StreamAct → Option WriterLoc
  | ⟨data :: rest, closes⟩, .send .input (.data written) => if written = data then some ⟨rest, closes⟩ else none
  | ⟨[], true⟩, .close .input => some ⟨[], false⟩
  | _, _ => none

/-- The caller takes all results. -/
def readerNext : Unit → StreamAct → Option Unit
  | _, .receive .output (.result _) => some ()
  | _, _ => none

/-- A handler of an earlier stream with the same pooled query. It is at the `select` with a message of that stream and
finds `query.in` to be the channel of this one. -/
def leftoverNext : Option String → StreamAct → Option (Option String)
  | some data, .send .queryIn (.data handed) => if handed = data then some none else none
  | some _, .event .dropped => some none
  | _, _ => none

/-- `streamServer.Recv` after its first call. A closed channel is always ready. -/
def streamServerRecv : StreamAct → Option Received
  | .receive .input (.data data) => some (.message data)
  | .drain .input => some (.message "")
  | .event .contextDone => some (.failed .eof)
  | _ => none

inductive LocalRole where
  | writer
  | server
  | forwarder
  | handler
  | leftover
deriving DecidableEq

/-- `Stream` on the agent's own host. -/
def localStream : Goroutines LocalRole StreamChannel Item StreamEvent where
  Loc
    | .writer => WriterLoc
    | .server => ServerLoc
    | .forwarder => ForwarderLoc
    | .handler => HandlerLoc
    | .leftover => Option String
  next
    | .writer => writerNext
    | .server => serverNext
    | .forwarder => forwarderNext
    | .handler => handlerNext streamServerRecv
    | .leftover => leftoverNext

def localStream.start (written : List String) (closes : Bool) (leftover : Option String) : localStream.Config where
  loc
    | .writer => (⟨written, closes⟩ : WriterLoc)
    | .server => ServerLoc.connecting
    | .forwarder => ForwarderLoc.waiting
    | .handler => HandlerLoc.waiting
    | .leftover => leftover

end Caller

section Remote

/-- Where `hostClient.Stream` is. -/
inductive CallerLoc where
  | opening
  | connecting
  | starting
  | waitingSender
  | waitingReceiver
  | returned (err : Option StreamErr)

/-- The goroutines have error variables of their own, so what is returned after them is nil. -/
def callerNext : CallerLoc → StreamAct → Option CallerLoc
  | .opening, .event (.opened none) => some .connecting
  | .opening, .event (.opened (some err)) => some (.returned (some err))
  | .connecting, .event (.connected none) => some .starting
  | .connecting, .event (.connected (some err)) => some (.returned (some err))
  | .starting, .close .clientStarted => some .waitingSender
  | .waitingSender, .drain .senderExited => some .waitingReceiver
  | .waitingReceiver, .drain .receiverExited => some (.returned none)
  | _, _ => none

inductive SenderLoc where
  | waiting
  | selecting
  | sending (data : String)
  | exiting
  | exited
  /-- The process stops. -/
  | panicked
deriving DecidableEq

def senderNext : SenderLoc → StreamAct → Option SenderLoc
  | .waiting, .drain .clientStarted => some .selecting
  | .selecting, .receive .input (.data data) => some (.sending data)
  | .selecting, .drain .input => some (.sending "")
  | .selecting, .drain .clientDone => some .exiting
  | .sending data, .send .up (.data sent) => if sent = data then some .selecting else none
  | .sending _, .event (.clientSendFailed .eof) => some .exiting
  | .sending _, .event (.clientSendFailed (.other _)) => some .panicked
  | .exiting, .close .senderExited => some .exited
  | _, _ => none

inductive ReceiverLoc where
  | waiting
  | receiving
  | delivering (result : Result)
  | closing
  | exiting
  | exited
deriving DecidableEq

def receiverNext : ReceiverLoc → StreamAct → Option ReceiverLoc
  | .waiting, .drain .clientStarted => some .receiving
  | .receiving, .event (.clientRecv (.ok result)) => some (.delivering result)
  | .receiving, .event (.clientRecv (.error .eof)) => some .closing
  -- Only the end of the stream releases the sender.
  | .receiving, .event (.clientRecv (.error (.other _))) => some .exiting
  | .delivering result, .send .output (.result delivered) => if delivered = result then some .receiving else none
  | .closing, .close .clientDone => some .exiting
  | .exiting, .close .receiverExited => some .exited
  | _, _ => none

/-- A connection delivers in order. -/
def wireNext : List String → StreamAct → Option (List String)
  | queue, .receive .up (.data data) => some (queue ++ [data])
  | data :: queue, .send .down (.data delivered) => if delivered = data then some queue else none
  | _, _ => none

/-- `Recv` of a server behind a connection. -/
def grpcRecv : StreamAct → Option Received
  | .receive .down (.data data) => some (.message data)
  | .event (.srvRecv (.failed err)) => some (.failed err)
  | _ => none

inductive RemoteRole where
  | writer
  | reader
  | caller
  | sender
  | receiver
  | wire
  | server
  | forwarder
  | handler
  | leftover
deriving DecidableEq

/-- `Stream` for another host, with the server there. -/
def remoteStream : Goroutines RemoteRole StreamChannel Item StreamEvent where
  Loc
    | .writer => WriterLoc
    | .reader => Unit
    | .caller => CallerLoc
    | .sender => SenderLoc
    | .receiver => ReceiverLoc
    | .wire => List String
    | .server => ServerLoc
    | .forwarder => ForwarderLoc
    | .handler => HandlerLoc
    | .leftover => Option String
  next
    | .writer => writerNext
    | .reader => readerNext
    | .caller => callerNext
    | .sender => senderNext
    | .receiver => receiverNext
    | .wire => wireNext
    | .server => serverNext
    | .forwarder => forwarderNext
    | .handler => handlerNext grpcRecv
    | .leftover => leftoverNext

def remoteStream.start (written : List String) (closes : Bool) (leftover : Option String) : remoteStream.Config where
  loc
    | .writer => (⟨written, closes⟩ : WriterLoc)
    | .reader => ()
    | .caller => CallerLoc.opening
    | .sender => SenderLoc.waiting
    | .receiver => ReceiverLoc.waiting
    | .wire => ([] : List String)
    | .server => ServerLoc.connecting
    | .forwarder => ForwarderLoc.waiting
    | .handler => HandlerLoc.waiting
    | .leftover => leftover

end Remote

end Zongzi
