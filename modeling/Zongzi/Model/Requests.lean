import Zongzi.Model.Agent

/-! # Requests to a shard

A request is served at a host: by the agent's own server, or by the server of another agent behind an address. The
server hands it to raft and waits for what raft reports, or for the end of the caller's context. What raft, the
network and the context do is answered from outside the model.

The loops of the source end only with an answer or with the context. Here they take fuel, and a request whose fuel
ends is still waiting.
-/

namespace Zongzi

open Std Machine

inductive RequestErr where
  | aborted
  | canceled
  | rejected
  | shardClosed
  | shardNotReady
  | timeout
  | agentNotReady
  | other (text : String)
deriving DecidableEq

/-- Where a request is served. -/
inductive Site where
  | own
  | peer (apiAddress : String)
deriving DecidableEq

/-- What is heard of a proposal: a result from raft, or the end of the context. -/
inductive RequestEvent where
  | completed (result : Result)
  | committed
  | aborted
  | dropped
  | rejected
  | terminated
  | timeout
  | canceled
  | deadlineExceeded
deriving DecidableEq

def RequestEvent.err : RequestEvent → Option RequestErr
  | .completed _ => none
  | .committed => none
  | .aborted => some .aborted
  | .dropped => some .shardNotReady
  | .rejected => some .rejected
  | .terminated => some .shardClosed
  | .timeout => some .timeout
  | .canceled => some .canceled
  | .deadlineExceeded => some .timeout

inductive RequestOp where
  | status (site : Site)
  /-- Ask raft for a read index and wait for its result. -/
  | readIndex (site : Site) (shardID : ℕ)
  /-- Wait before the next attempt. -/
  | wait (site : Site)
  | propose (site : Site) (shardID : ℕ) (data : String)
  | event (site : Site)
  /-- `StaleRead` or `SyncRead`. -/
  | read (site : Site) (shardID : ℕ) (query : String) (stale : Bool)
  | watch (site : Site) (shardID : ℕ) (query : String) (stale : Bool)
  | stream (site : Site) (shardID : ℕ) (stale : Bool)
  /-- Send a request to another agent. -/
  | dial (apiAddress : String)
  /-- Receive its response. -/
  | reply (apiAddress : String)
  /-- Receive the next result of a watch. -/
  | recv (apiAddress : String)
  /-- Hand a result to the caller of a watch. -/
  | deliver (result : Result)
  /-- Send the first message of a stream. -/
  | connect (apiAddress : String) (shardID : ℕ) (stale : Bool)
  /-- Wait for the goroutines of a stream. -/
  | streamed (apiAddress : String)
  /-- Run the callback of a read transaction. -/
  | callback
deriving DecidableEq

abbrev RequestRes : RequestOp → Type
  | .status _ => AgentStatus
  -- There may be no request, and a request may not complete.
  | .readIndex .. => Except RequestErr (Option Bool)
  -- Has the context ended?
  | .wait _ => Bool
  | .propose .. => Except RequestErr Unit
  | .event _ => RequestEvent
  -- What is looked up may not be a result.
  | .read .. => Except RequestErr (Option Result)
  -- The results that are sent, and the error at the end.
  | .watch .. => List Result × Option RequestErr
  | .stream .. => Except RequestErr Unit
  | .dial _ => Except RequestErr Unit
  | .reply _ => Except RequestErr Unit
  -- There may be no more results, because the server has returned without an error or for another reason.
  | .recv _ => Except (Option RequestErr) Result
  -- Does the caller take it? Otherwise the context has ended, or they never will.
  | .deliver _ => Bool
  | .connect .. => Except RequestErr Unit
  -- Do they come to an end?
  | .streamed _ => Bool
  | .callback => Unit

abbrev RequestM : Type → Type := Program RequestOp RequestRes

/-- A request that has not come to an answer is still waiting. -/
abbrev Answer (α : Type) : Type := Option (Except RequestErr α)

section Index

/-- Ask for a read index until a request completes. The context is only looked at between two attempts, and the
error that is returned then is the one of the last attempt, if it had one. -/
def index (site : Site) (shardID : ℕ) : ℕ → RequestM (Answer Unit)
  | 0 => return none
  | fuel + 1 => do
    match ← Program.perform (RequestOp.readIndex site shardID) with
    | .ok (some true) => return some (.ok ())
    | .ok _ =>
      if ← Program.perform (RequestOp.wait site) then return some (.ok ())
      else index site shardID fuel
    | .error err =>
      if ← Program.perform (RequestOp.wait site) then return some (.error err)
      else index site shardID fuel

/-- A read transaction of the prime shard. -/
def agentState (fuel : ℕ) : RequestM (Answer Unit) := do
  match ← index .own ShardID fuel with
  | some (.ok _) =>
    let _ ← Program.perform RequestOp.callback
    return some (.ok ())
  | answer => return answer

end Index

section Server

variable {α : Type}

/-- Wait until raft reports what is accepted. -/
def awaitEvent (accepts : RequestEvent → Option α) (site : Site) : ℕ → RequestM (Answer α)
  | 0 => return none
  | fuel + 1 => do
    let event ← Program.perform (RequestOp.event site)
    match accepts event with
    | some value => return some (.ok value)
    | none =>
      match event.err with
      | some err => return some (.error err)
      | none => awaitEvent accepts site fuel

/-- Propose on an agent that is ready. -/
def grpcPropose (accepts : RequestEvent → Option α) (site : Site) (shardID : ℕ) (data : String) (fuel : ℕ) :
    RequestM (Answer α) := do
  if (← Program.perform (RequestOp.status site)) = .ready then
    match ← Program.perform (RequestOp.propose site shardID data) with
    | .error err => return some (.error err)
    | .ok _ => awaitEvent accepts site fuel
  else return some (.error .agentNotReady)

/-- What was applied has been committed, whether or not raft has reported that before. -/
def acceptsCommitted : RequestEvent → Option Unit
  | .completed _ => some ()
  | .committed => some ()
  | _ => none

def acceptsCompleted : RequestEvent → Option Result
  | .completed result => some result
  | _ => none

def grpcCommit (site : Site) (shardID : ℕ) (data : String) (fuel : ℕ) : RequestM (Answer Unit) :=
  grpcPropose acceptsCommitted site shardID data fuel

def grpcApply (site : Site) (shardID : ℕ) (data : String) (fuel : ℕ) : RequestM (Answer Result) :=
  grpcPropose acceptsCompleted site shardID data fuel

def grpcIndex (site : Site) (shardID fuel : ℕ) : RequestM (Answer Unit) := index site shardID fuel

def grpcRead (site : Site) (shardID : ℕ) (query : String) (stale : Bool) : RequestM (Answer Result) := do
  match ← Program.perform (RequestOp.read site shardID query stale) with
  | .error err => return some (.error err)
  | .ok result => return some (.ok (result.getD {}))

/-- Send results to a channel of the caller. A result that is not taken is dropped. -/
def sendResults : List Result → RequestM Unit
  | [] => return ()
  | result :: results => do
    let _ ← Program.perform (RequestOp.deliver result)
    sendResults results

def grpcWatch (shardID : ℕ) (query : String) (stale : Bool) : RequestM (Answer Unit) := do
  let (results, err) ← Program.perform (RequestOp.watch .own shardID query stale)
  sendResults results
  match err with
  | some err => return some (.error err)
  | none => return some (.ok ())

def grpcStream (site : Site) (shardID : ℕ) (stale : Bool) : RequestM (Answer Unit) :=
  some <$> Program.perform (RequestOp.stream site shardID stale)

/-- A request to another agent fails on its way, there, or on its way back. -/
def viaGrpc (apiAddress : String) (serve : Site → RequestM (Answer α)) : RequestM (Answer α) := do
  match ← Program.perform (RequestOp.dial apiAddress) with
  | .error err => return some (.error err)
  | .ok _ =>
    match ← serve (.peer apiAddress) with
    | none => return none
    | some answer =>
      match ← Program.perform (RequestOp.reply apiAddress) with
      | .error err => return some (.error err)
      | .ok _ => return some answer

end Server

/-- Receive results until there are no more. The error of the loop is a variable of its own, so why it has ended is
lost. -/
def recvResults (apiAddress : String) : ℕ → RequestM (Answer Unit)
  | 0 => return none
  | fuel + 1 => do
    match ← Program.perform (RequestOp.recv apiAddress) with
    | .error _ => return some (.ok ())
    | .ok result =>
      if ← Program.perform (RequestOp.deliver result) then recvResults apiAddress fuel else return none

/-- A client of one host. -/
structure HostClient where
  host : Host
deriving DecidableEq

namespace HostClient

variable {α : Type} (client : HostClient) (self : String)

/-- The agent with this host serves its own requests. -/
def request (serve : Site → RequestM (Answer α)) : RequestM (Answer α) :=
  if client.host.id = self then serve .own else viaGrpc client.host.apiAddress serve

/-- Nothing is asked on the agent's own host. -/
def readIndex (shardID fuel : ℕ) : RequestM (Answer Unit) :=
  if client.host.id = self then return some (.ok ())
  else viaGrpc client.host.apiAddress fun site => grpcIndex site shardID fuel

def apply (shardID : ℕ) (cmd : String) (fuel : ℕ) : RequestM (Answer Result) :=
  client.request self fun site => grpcApply site shardID cmd fuel

def commit (shardID : ℕ) (cmd : String) (fuel : ℕ) : RequestM (Answer Unit) :=
  client.request self fun site => grpcCommit site shardID cmd fuel

def read (shardID : ℕ) (query : String) (stale : Bool) : RequestM (Answer Result) :=
  client.request self fun site => grpcRead site shardID query stale

/-- Where no stream can be opened its client is nil, and the process stops with the first receive. -/
def watch (shardID : ℕ) (query : String) (stale : Bool) (fuel : ℕ) : RequestM (Answer Unit) :=
  if client.host.id = self then grpcWatch shardID query stale
  else do
    match ← Program.perform (RequestOp.dial client.host.apiAddress) with
    | .error _ => return none
    | .ok _ => recvResults client.host.apiAddress fuel

/-- The errors of the goroutines are their own, so nothing is returned after them. -/
def stream (shardID : ℕ) (stale : Bool) : RequestM (Answer Unit) :=
  if client.host.id = self then grpcStream .own shardID stale
  else do
    match ← Program.perform (RequestOp.dial client.host.apiAddress) with
    | .error err => return some (.error err)
    | .ok _ =>
      match ← Program.perform (RequestOp.connect client.host.apiAddress shardID stale) with
      | .error err => return some (.error err)
      | .ok _ =>
        if ← Program.perform (RequestOp.streamed client.host.apiAddress) then return some (.ok ()) else return none

end HostClient

end Zongzi
