import Zongzi.Model.State

/-! # The registry state machine

`Fsm.update` applies one log entry to the registry. Each command is a function of the state before
the entry and either panics or returns the state after it with the entry's result. A rejected
command (a missing record, a taken shard name, an unknown action) is not an error of the state
machine: it leaves the result as it came in, apart from the message of a rejected post, and the
index still moves. Only an entry that does not decode leaves the index alone.

`Fsm.run` applies a whole log. A panic ends the run without a state, as it ends the process.
-/

namespace Zongzi

open Std

def ErrShardExists : String := "Shard already exists"

namespace Fsm

/-- Assign one entry of a Go map. -/
def assign (tags : Tags) (key value : String) : Except Panic Tags :=
  match tags with
  | none => .error .nilMap
  | some tagMap => .ok (some (tagMap.insert key value))

/-- The entries a range loop visits. The loops below do not depend on their order. -/
def entries (tags : Tags) : List (String × String) := tags.elim [] fun tagMap => tagMap.toList

/-- A tag function merges the second map into the first and reports whether it wrote. -/
abbrev TagFn : Type := Tags → Tags → Except Panic (Tags × Bool)

def tagsSet : TagFn := fun new old =>
  (entries old).foldlM (fun (tags, _) (key, value) => do return (← assign tags key value, true))
    (new, false)

def tagsSetNX : TagFn := fun new old =>
  (entries old).foldlM
    (fun (tags, written) (key, value) =>
      if (tags.bind (·[key]?)).isSome then return (tags, written)
      else do return (← assign tags key value, true))
    (new, false)

/-- Deleting from a nil map is allowed, so this one never panics. -/
def tagsRemove : TagFn := fun new old =>
  .ok ((entries old).foldl (fun (tags, _) (key, _) => (tags.map (·.erase key), true)) (new, false))

/-- The callback loop that announces a change of a host to the shards of its replicas. -/
def touchShards (state : State) (replicas : List Replica) (index : ℕ) : State :=
  replicas.foldl (fun state replica => state.shardTouch replica.shardID index) state

/-- The callback loop that announces a change of a shard to the hosts of its replicas. -/
def touchHosts (state : State) (replicas : List Replica) (index : ℕ) : Except Panic State :=
  replicas.foldlM (fun state replica => state.hostTouch replica.hostID index) state

/-- The outcome of a command: the state after it and the entry's result. -/
abbrev Outcome : Type := Except Panic (State × Result)

/-- A command that found nothing to do. -/
def reject (state : State) (entry : Entry) : Outcome := .ok (state, entry.result)

def accept (state : State) (entry : Entry) (value : ℕ) : Outcome :=
  .ok (state, { entry.result with value })

section Host

def hostCmdPut (state : State) (entry : Entry) (host : Host) (merge : TagFn := tagsSetNX) : Outcome := do
  let (host, state) ← match ← state.host host.id with
    | some old => do
      let (tags, _) ← merge host.tags old.tags
      pure ({ host with created := old.created, tags }, state)
    | none => pure ({ host with created := entry.index }, state.setHostID host.id)
  let replicas ← state.replicaIterateByHostID host.id
  let state := touchShards state replicas entry.index
  accept (← state.hostPut { host with updated := entry.index }) entry 1

def hostCmdDel (state : State) (entry : Entry) (host : Host) : Outcome := do
  match ← state.host host.id with
  | none => reject state entry
  | some host => do
    let replicas ← state.replicaIterateByHostID host.id
    let state := replicas.foldl
      (fun state replica => (state.replicaDelete replica).shardTouch replica.shardID entry.index) state
    accept (← state.hostDelete host) entry 1

/-- A tag action stores its own verdict as the result value, also when the host is missing. -/
def hostTagAction (fn : TagFn) (state : State) (entry : Entry) (cmd : Host) : Outcome := do
  match ← state.host cmd.id with
  | none => accept state entry 0
  | some host => do
    let (tags, written) ← fn host.tags cmd.tags
    if written then
      let replicas ← state.replicaIterateByHostID cmd.id
      let state := touchShards state replicas entry.index
      accept (← state.hostPut { host with tags }) entry 1
    else accept state entry 0

def hostUpdate (state : State) (entry : Entry) (action : Action) (host : Host) : Outcome :=
  match action with
  | .put => hostCmdPut state entry host
  | .del => hostCmdDel state entry host
  | .tagsSet => hostTagAction tagsSet state entry host
  | .tagsSetNX => hostTagAction tagsSetNX state entry host
  | .tagsRemove => hostTagAction tagsRemove state entry host
  | _ => reject state entry

end Host

section Shard

/-- A post with a name that is taken is rejected with a message and a zero value. -/
def shardCmdPost (state : State) (entry : Entry) (shard : Shard) : Outcome :=
  if shard.name ≠ "" ∧ (state.shardFindByName shard.name).isSome then
    .ok (state, { entry.result with data := ErrShardExists ++ ": " ++ shard.name })
  else
    let (id, state) := state.shardIncr
    accept (state.shardPut { shard with id, created := entry.index, updated := entry.index }) entry id

def shardCmdTouch (state : State) (entry : Entry) (shard : Shard) : Outcome := do
  let state := state.shardTouch shard.id entry.index
  accept (← touchHosts state (state.replicaIterateByShardID shard.id) entry.index) entry shard.id

/-- A put keeps the creation index and the tags it does not mention. It does not look at the name.
Only the prime shard can be created this way, and only before any post. -/
def shardCmdPut (state : State) (entry : Entry) (shard : Shard) (merge : TagFn := tagsSetNX) : Outcome := do
  let write (shard : Shard) : Outcome := do
    let state := state.shardPut { shard with updated := entry.index }
    accept (← touchHosts state (state.replicaIterateByShardID shard.id) entry.index) entry shard.id
  match state.shard shard.id with
  | some old => do
    let (tags, _) ← merge shard.tags old.tags
    write { shard with created := old.created, tags }
  | none =>
    if shard.id = 0 ∧ state.shardID = 0 then write { shard with created := entry.index }
    else reject state entry

def shardCmdStatusUpdate (state : State) (entry : Entry) (cmd : Shard) : Outcome := do
  match state.shard cmd.id with
  | none => reject state entry
  | some shard => do
    let state := state.shardPut { shard with status := cmd.status, updated := entry.index }
    accept (← touchHosts state (state.replicaIterateByShardID shard.id) entry.index) entry 1

/-- Setting the leader announces nothing to the hosts. -/
def shardCmdLeaderSet (state : State) (entry : Entry) (cmd : Shard) : Outcome :=
  match state.shard cmd.id with
  | none => reject state entry
  | some shard =>
    accept (state.shardPut
      { shard with leader := cmd.leader, term := cmd.term, updated := entry.index }) entry 1

def shardCmdDel (state : State) (entry : Entry) (cmd : Shard) : Outcome := do
  match state.shard cmd.id with
  | none => reject state entry
  | some shard => do
    let state ← (state.replicaIterateByShardID shard.id).foldlM
      (fun state replica => (state.replicaDelete replica).hostTouch replica.hostID entry.index) state
    accept (state.shardDelete shard) entry 1

def shardTagAction (fn : TagFn) (state : State) (entry : Entry) (cmd : Shard) : Outcome := do
  match state.shard cmd.id with
  | none => accept state entry 0
  | some shard => do
    let (tags, written) ← fn shard.tags cmd.tags
    if written then
      let state ← touchHosts state (state.replicaIterateByShardID cmd.id) entry.index
      accept (state.shardPut { shard with tags }) entry 1
    else accept state entry 0

def shardUpdate (state : State) (entry : Entry) (action : Action) (shard : Shard) : Outcome :=
  match action with
  | .post => shardCmdPost state entry shard
  | .touch => shardCmdTouch state entry shard
  | .put => shardCmdPut state entry shard
  | .statusUpdate => shardCmdStatusUpdate state entry shard
  | .leaderSet => shardCmdLeaderSet state entry shard
  | .del => shardCmdDel state entry shard
  | .tagsSet => shardTagAction tagsSet state entry shard
  | .tagsSetNX => shardTagAction tagsSetNX state entry shard
  | .tagsRemove => shardTagAction tagsRemove state entry shard
  | _ => reject state entry

end Shard

section Replica

/-- Announce a change of a replica to its host, which must exist, and to its shard, which need not. -/
def touchOwners (state : State) (replica : Replica) (index : ℕ) : Except Panic State := do
  return (← state.hostTouch replica.hostID index).shardTouch replica.shardID index

/-- A post does not check its shard; the first three voting replicas of a shard bootstrap it. -/
def replicaCmdPost (state : State) (entry : Entry) (replica : Replica) : Outcome := do
  let (id, state) := state.replicaIncr
  let bootstraps := !replica.isNonVoting && (state.shardMembers replica.shardID).size < 3
  let status : ReplicaStatus := if bootstraps then .bootstrapping else .joining
  let state ← state.replicaPut
    { replica with id, created := entry.index, updated := entry.index, status }
  accept (← touchOwners state replica entry.index) entry id

def replicaCmdStatusUpdate (state : State) (entry : Entry) (cmd : Replica) : Outcome := do
  match state.replica cmd.id with
  | none => reject state entry
  | some replica => do
    let state ← state.replicaPut { replica with status := cmd.status }
    accept (← touchOwners state replica entry.index) entry 1

def replicaCmdPut (state : State) (entry : Entry) (replica : Replica) (merge : TagFn := tagsSetNX) : Outcome := do
  match state.replica replica.id with
  | none => reject state entry
  | some old => do
    let (tags, _) ← merge replica.tags old.tags
    let state ← state.replicaPut
      { replica with created := old.created, tags, updated := entry.index }
    accept (← touchOwners state replica entry.index) entry 1

def replicaCmdDel (state : State) (entry : Entry) (cmd : Replica) : Outcome := do
  match state.replica cmd.id with
  | none => reject state entry
  | some replica => do
    let state ← touchOwners state replica entry.index
    accept (state.replicaDelete replica) entry 1

def replicaTagAction (fn : TagFn) (state : State) (entry : Entry) (cmd : Replica) : Outcome := do
  match state.replica cmd.id with
  | none => accept state entry 0
  | some replica => do
    let (tags, written) ← fn replica.tags cmd.tags
    if written then
      let state ← touchOwners state replica entry.index
      accept (← state.replicaPut { replica with tags }) entry 1
    else accept state entry 0

def replicaUpdate (state : State) (entry : Entry) (action : Action) (replica : Replica) : Outcome :=
  match action with
  | .post => replicaCmdPost state entry replica
  | .statusUpdate => replicaCmdStatusUpdate state entry replica
  | .put => replicaCmdPut state entry replica
  | .del => replicaCmdDel state entry replica
  | .tagsSet => replicaTagAction tagsSet state entry replica
  | .tagsSetNX => replicaTagAction tagsSetNX state entry replica
  | .tagsRemove => replicaTagAction tagsRemove state entry replica
  | _ => reject state entry

end Replica

/-- The command part of an entry, before the index moves. -/
def apply (state : State) (entry : Entry) : Outcome :=
  match entry.cmd with
  | .invalid | .unrecognized => reject state entry
  | .host action host => hostUpdate state entry action host
  | .shard action shard => shardUpdate state entry action shard
  | .replica action replica => replicaUpdate state entry action replica

def update (state : State) (entry : Entry) : Outcome :=
  if entry.cmd = .invalid then reject state entry
  else do
    let (state, result) ← apply state entry
    return (state.metaSetIndex entry.index, result)

/-- Apply a log and collect the results. -/
def run (state : State) : List Entry → Except Panic (State × List Result)
  | [] => .ok (state, [])
  | entry :: log => do
    let (next, result) ← update state entry
    let (last, results) ← run next log
    return (last, result :: results)

end Fsm

end Zongzi
