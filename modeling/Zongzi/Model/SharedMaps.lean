import Zongzi.ToStd.Pointers
import Zongzi.Model.ShardUpdate

/-! # Tag maps behind pointers

A record of the registry holds a pointer to its tag map. A post and a put store the map that their command was
decoded to; a touch, a status update and a new leader copy the record with its pointer; a tag action changes the
map where it is. Versions of a record that come after one put therefore share one map, and so does a snapshot of
the registry, and so does the record that `ShardUpdate` hands to its options, which write to that map.

`SharedRegistry` keeps the records and the maps apart. What anybody reads in it is its `view`. A range loop visits
the entries of a map in any order. A `Fleet` is the registries of all agents behind one log, with the calls of
`ShardUpdate` that write to them.
-/

namespace Zongzi

open Std Pointers

/-- The order in which the range loops of one command visit the maps. -/
structure Ranging where
  order : Tags → List (String × String)
  visits : ∀ tags, (order tags).Perm (Fsm.entries tags)

/-- Loops in the order of the keys. -/
def Ranging.sorted : Ranging := ⟨Fsm.entries, fun tags => .refl (Fsm.entries tags)⟩

namespace Fsm

/-- A tag function as a loop over the entries of its second map. -/
abbrev TagLoop : Type := Tags → List (String × String) → Except Panic (Tags × Bool)

def setLoop : TagLoop := fun new order =>
  order.foldlM (fun (tags, _) (key, value) => do return (← assign tags key value, true)) (new, false)

def setNXLoop : TagLoop := fun new order =>
  order.foldlM
    (fun (tags, written) (key, value) =>
      if (tags.bind (·[key]?)).isSome then return (tags, written)
      else do return (← assign tags key value, true))
    (new, false)

def removeLoop : TagLoop := fun new order =>
  .ok (order.foldl (fun (tags, _) (key, _) => (tags.map (·.erase key), true)) (new, false))

/-- The loop of a tag action. -/
def tagLoop : Action → Option TagLoop
  | .tagsSet => some setLoop
  | .tagsSetNX => some setNXLoop
  | .tagsRemove => some removeLoop
  | _ => none

section Ranged

variable (ranging : Ranging) (state : State) (entry : Entry)

/-- The tag function of a loop. -/
def rangedFn (loop : TagLoop) : TagFn := fun new old => loop new (ranging.order old)

/-- A put and the tag actions, with their loops in the given order. -/
def ranged (action : Action) (put tag : TagFn → Outcome) (other : Outcome) : Outcome :=
  match action, tagLoop action with
  | .put, _ => put (rangedFn ranging setNXLoop)
  | _, some loop => tag (rangedFn ranging loop)
  | _, none => other

def hostUpdateIn (action : Action) (host : Host) : Outcome :=
  ranged ranging action (hostCmdPut state entry host ·) (hostTagAction · state entry host)
    (hostUpdate state entry action host)

def shardUpdateIn (action : Action) (shard : Shard) : Outcome :=
  ranged ranging action (shardCmdPut state entry shard ·) (shardTagAction · state entry shard)
    (shardUpdate state entry action shard)

def replicaUpdateIn (action : Action) (replica : Replica) : Outcome :=
  ranged ranging action (replicaCmdPut state entry replica ·) (replicaTagAction · state entry replica)
    (replicaUpdate state entry action replica)

/-- The command part of an entry, with the loops in the given order. -/
def applyIn : Outcome :=
  match entry.cmd with
  | .invalid | .unrecognized => reject state entry
  | .host action host => hostUpdateIn ranging state entry action host
  | .shard action shard => shardUpdateIn ranging state entry action shard
  | .replica action replica => replicaUpdateIn ranging state entry action replica

def updateIn : Outcome :=
  if entry.cmd = .invalid then reject state entry
  else do
    let (state, result) ← applyIn ranging state entry
    return (state.metaSetIndex entry.index, result)

end Ranged

end Fsm

/-- Whom a tag map belongs to. Hosts go by their parsed identifiers. -/
inductive RecordName where
  | host (key : String)
  | shard (id : ℕ)
  | replica (id : ℕ)
deriving DecidableEq

/-- What a command does to the map of a record. -/
inductive MapOp where
  /-- Store the map of the command. -/
  | store (tags : Tags)
  /-- Store the map of the command with the stored tags that it lacks. -/
  | merge (tags : Tags)
  /-- Change the stored map. -/
  | change (action : Action) (tags : Tags)

namespace Fsm

/-- A tag action changes the map of a record that exists. -/
def tagMapOp (name : RecordName) (present : Bool) (action : Action) (tags : Tags) : Option (RecordName × MapOp) :=
  if present && (tagLoop action).isSome then some (name, .change action tags) else none

def hostMapOp (state : State) (action : Action) (host : Host) : Option (RecordName × MapOp) :=
  (uuidKey host.id).bind fun key =>
    let present := (state.hosts.id[key]?).isSome
    match action with
    | .put => some (.host key, if present then .merge host.tags else .store host.tags)
    | action => tagMapOp (.host key) present action host.tags

def shardMapOp (state : State) (action : Action) (shard : Shard) : Option (RecordName × MapOp) :=
  let present := (state.shard shard.id).isSome
  match action with
  | .post =>
    if shard.name ≠ "" ∧ (state.shardFindByName shard.name).isSome then none
    else some (.shard state.shardIncr.1, .store shard.tags)
  | .put =>
    if present then some (.shard shard.id, .merge shard.tags)
    else if shard.id = 0 ∧ state.shardID = 0 then some (.shard shard.id, .store shard.tags)
    else none
  | action => tagMapOp (.shard shard.id) present action shard.tags

def replicaMapOp (state : State) (action : Action) (replica : Replica) : Option (RecordName × MapOp) :=
  let present := (state.replica replica.id).isSome
  match action with
  | .post => some (.replica state.replicaIncr.1, .store replica.tags)
  | .put => if present then some (.replica replica.id, .merge replica.tags) else none
  | action => tagMapOp (.replica replica.id) present action replica.tags

/-- The tag map that an entry is about. Copies of a record and deletions leave every map alone. -/
def mapOp (state : State) (entry : Entry) : Option (RecordName × MapOp) :=
  match entry.cmd with
  | .invalid | .unrecognized => none
  | .host action host => hostMapOp state action host
  | .shard action shard => shardMapOp state action shard
  | .replica action replica => replicaMapOp state action replica

end Fsm

/-- The maps, and who points to which. -/
abbrev TagMaps : Type := Heap RecordName TagMap

def TagMaps.perform (maps : TagMaps) (ranging : Ranging) (name : RecordName) : MapOp → Except Panic TagMaps
  | .store tags => .ok (maps.store name tags)
  | .merge tags => do
    let (merged, _) ← Fsm.setNXLoop tags (ranging.order (maps.read name))
    return maps.store name merged
  | .change action tags =>
    match Fsm.tagLoop action with
    | none => .ok maps
    | some loop => do
      let (changed, _) ← loop (maps.read name) (ranging.order tags)
      return maps.mutate name changed

section View

def HostTable.withTags (table : HostTable) (read : String → Tags) : HostTable where
  id := table.id.map fun key host => { host with tags := read key }
  keyed := by
    intro key host present
    rw [ExtTreeMap.getElem?_map, Option.map_eq_some_iff] at present
    obtain ⟨stored, found, rfl⟩ := present
    exact table.keyed key stored found

def Shard.withTags (read : ℕ → Tags) (shard : Shard) : Shard := { shard with tags := read shard.id }

def ShardTable.withTags (table : ShardTable) (read : ℕ → Tags) : ShardTable where
  id := table.id.map fun _ => Shard.withTags read
  name := table.name.map fun _ => Shard.withTags read
  updated := table.updated.map fun _ => Shard.withTags read
  keyed := table.keyed.map (by intro shard; rfl)
  name_sound := table.name_sound.map (by intro shard; rfl) (by intro shard; rfl)
  updated_mirrors := table.updated_mirrors.map (by intro shard; rfl) (by intro shard; rfl)

def Replica.withTags (read : ℕ → Tags) (replica : Replica) : Replica := { replica with tags := read replica.id }

def ReplicaTable.withTags (table : ReplicaTable) (read : ℕ → Tags) : ReplicaTable where
  id := table.id.map fun _ => Replica.withTags read
  hostID := table.hostID.map fun _ => Replica.withTags read
  shardID := table.shardID.map fun _ => Replica.withTags read
  keyed := table.keyed.map (by intro replica; rfl)
  hosted := by
    intro i replica present
    rw [ExtTreeMap.getElem?_map, Option.map_eq_some_iff] at present
    obtain ⟨stored, found, rfl⟩ := present
    exact table.hosted i stored found
  hostID_mirrors := table.hostID_mirrors.map (by intro replica; rfl) (by intro replica; rfl)
  shardID_mirrors := table.shardID_mirrors.map (by intro replica; rfl) (by intro replica; rfl)

/-- The records with the tags that are read through their pointers. -/
def State.withTags (state : State) (read : RecordName → Tags) : State :=
  { state with
    hosts := state.hosts.withTags fun key => read (.host key)
    shards := state.shards.withTags fun id => read (.shard id)
    replicas := state.replicas.withTags fun id => read (.replica id) }

end View

/-- A registry with its records and its maps. The tags in the records themselves are not looked at. -/
structure SharedRegistry where
  state : State := {}
  maps : TagMaps := .empty ∅

namespace SharedRegistry

/-- What a reader of the registry finds. -/
def view (registry : SharedRegistry) : State := registry.state.withTags registry.maps.read

/-- What an earlier snapshot shows by now. -/
def shows (snapshot now : SharedRegistry) : State :=
  snapshot.state.withTags (now.maps.seen snapshot.maps.held)

def update (registry : SharedRegistry) (ranging : Ranging) (entry : Entry) :
    Except Panic (SharedRegistry × Result) := do
  let (state, result) ← Fsm.updateIn ranging registry.view entry
  let maps ← match Fsm.mapOp registry.view entry with
    | none => .ok registry.maps
    | some (name, op) => registry.maps.perform ranging name op
  return ({ state, maps }, result)

def run (registry : SharedRegistry) : List (Entry × Ranging) → Except Panic (SharedRegistry × List Result)
  | [] => .ok (registry, [])
  | (entry, ranging) :: log => do
    let (next, result) ← registry.update ranging entry
    let (last, results) ← next.run log
    return (last, result :: results)

end SharedRegistry

section Fleet

/-- An option of `ShardUpdate`. All of them but the name write the tag map of the record. -/
inductive EditOption where
  | name (text : String)
  | tag (key value : String)
deriving DecidableEq

def EditOption.edit : EditOption → ShardEdit
  | .name text => (WithName text).edit
  | .tag key value => WithTag key value

/-- A call of `ShardUpdate` on one of the agents. -/
structure UpdateCall (ι : Type) where
  agent : ι
  id : ℕ
  opts : List EditOption

/-- How far a call is. -/
inductive UpdatePhase where
  | reading
  /-- The record that was found, the pointer to its map, and the options that have not run. -/
  | editing (found : Shard) (pointer : Option ℕ) (opts : List EditOption)
  | sending (cmd : Cmd)
  | ended

structure Fleet (ι κ : Type) where
  log : List Entry
  /-- How many entries of the log an agent has applied. -/
  applied : ι → ℕ
  registries : ι → SharedRegistry
  phases : κ → UpdatePhase

inductive FleetMove (ι κ : Type) where
  /-- The log takes an entry of anybody else. -/
  | append (entry : Entry)
  | apply (agent : ι) (ranging : Ranging)
  | read (call : κ)
  | edit (call : κ)
  | marshal (call : κ)
  | commit (call : κ) (index : ℕ)
  | fail (call : κ)

namespace Fleet

variable {ι κ : Type} [DecidableEq ι] [DecidableEq κ]

/-- New agents, and calls that have not begun. -/
def start : Fleet ι κ := ⟨[], fun _ => 0, fun _ => {}, fun _ => .reading⟩

def setPhase (fleet : Fleet ι κ) (call : κ) (phase : UpdatePhase) : Fleet ι κ :=
  { fleet with phases := Function.update fleet.phases call phase }

def setRegistry (fleet : Fleet ι κ) (agent : ι) (registry : SharedRegistry) : Fleet ι κ :=
  { fleet with registries := Function.update fleet.registries agent registry }

/-- The next option of a call writes to the record of the call, or through its pointer to the map. A write without
a map panics. -/
def editNext (fleet : Fleet ι κ) (agent : ι) (call : κ) : Option (Fleet ι κ) :=
  match fleet.phases call with
  | .editing found pointer (.name text :: opts) =>
    fleet.setPhase call (.editing { found with name := text } pointer opts)
  | .editing found (some address) (.tag key value :: opts) =>
    let registry := fleet.registries agent
    let maps := registry.maps.write address ((registry.maps.objects address).insert key value)
    (fleet.setRegistry agent { registry with maps }).setPhase call (.editing found (some address) opts)
  | _ => none

def step (calls : κ → UpdateCall ι) (fleet : Fleet ι κ) : FleetMove ι κ → Option (Fleet ι κ)
  | .append entry => some { fleet with log := fleet.log ++ [entry] }
  | .apply agent ranging => do
    let entry ← fleet.log[fleet.applied agent]?
    let (registry, _) ← ((fleet.registries agent).update ranging entry).toOption
    some { fleet.setRegistry agent registry with
      applied := Function.update fleet.applied agent (fleet.applied agent + 1) }
  | .read call =>
    let registry := fleet.registries (calls call).agent
    match fleet.phases call, registry.view.shard (calls call).id with
    | .reading, none => fleet.setPhase call .ended
    | .reading, some found =>
      fleet.setPhase call (.editing found (registry.maps.held (.shard (calls call).id)) (calls call).opts)
    | _, _ => none
  | .edit call => fleet.editNext (calls call).agent call
  | .marshal call =>
    match fleet.phases call with
    | .editing found pointer [] =>
      let tags := pointer.map (fleet.registries (calls call).agent).maps.objects
      fleet.setPhase call (.sending (newCmdShardPut { found with tags }))
    | _ => none
  | .commit call index =>
    match fleet.phases call with
    | .sending cmd => some { fleet.setPhase call .ended with log := fleet.log ++ [{ index, cmd }] }
    | _ => none
  | .fail call =>
    match fleet.phases call with
    | .sending _ => fleet.setPhase call .ended
    | _ => none

end Fleet

end Fleet

end Zongzi
