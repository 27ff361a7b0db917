import Zongzi.Machine.Program
import Zongzi.Model.State

/-! # Waiting for a replica

`ReplicaAwait` reads the registry again and again until the replica of a shard on its own host is active, until its
timer fires or until the context ends. What the signals and the reads are is answered from outside the model. The loop
of the source has no other end; here it takes fuel.
-/

namespace Zongzi

open Machine

/-- What a look at the signals finds. Where both are ready, either is found. -/
inductive Signal where
  | cancelled
  | fired
  | none
deriving DecidableEq

inductive AwaitOp where
  | select
  /-- A read transaction of the registry, whose callback has not run after an error. -/
  | read
deriving DecidableEq

abbrev AwaitRes : AwaitOp → Type
  | .select => Signal
  | .read => Except String State

inductive AwaitErr where
  | read (err : String)
  /-- The timer has fired, with the replica as it was last seen. -/
  | replicaNotActive (replica : Replica)
deriving DecidableEq

abbrev AwaitM : Type → Type := Program AwaitOp AwaitRes

/-- The replica of a shard that a poll finds on a host. -/
def State.localReplica (state : State) (hostID : String) (shardID : ℕ) : Option Replica :=
  (state.replicaIterateByShardID shardID).find? (·.hostID = hostID)

/-- The replica and the error after a poll. Without a replica on the host the one that was seen before is kept. -/
def pollReplica (hostID : String) (shardID : ℕ) (replica : Replica) : Except String State → Replica × Option AwaitErr
  | .error err => (replica, some (.read err))
  | .ok state => ((state.localReplica hostID shardID).getD replica, none)

/-- Poll until the replica is active. When the context ends the error is the one of the last poll. -/
def awaitActive (hostID : String) (shardID : ℕ) : (fuel : ℕ) → (replica : Replica) → (err : Option AwaitErr) →
    AwaitM (Option (Option AwaitErr))
  | 0, _, _ => return none
  | fuel + 1, replica, err => do
    match ← Program.perform AwaitOp.select with
    | .cancelled => return some err
    | .fired => return some (some (.replicaNotActive replica))
    | .none =>
      let (replica, err) := pollReplica hostID shardID replica (← Program.perform AwaitOp.read)
      if replica.status = .active then return some err
      else awaitActive hostID shardID fuel replica err

def replicaAwait (hostID : String) (shardID fuel : ℕ) : AwaitM (Option (Option AwaitErr)) :=
  awaitActive hostID shardID fuel {} none

end Zongzi
