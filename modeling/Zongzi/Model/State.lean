import Zongzi.Model.Records
import Zongzi.ToStd.SecondaryIndex
import Zongzi.ToStd.ExceptFold

/-! # The registry store

The in-memory database behind the state machine: one table for each record type and the four meta
values. A table is its identifier map together with its maintained secondary indexes. The host and
shard indexes of the replica table and the update index of the shard table carry the identifier, so
they mirror the identifier map in every table that can be built. The name index of the shard table
does not: it is declared unique, but an insert overwrites whatever the name points to. Its field
therefore only says that no entry is stale.

Only the indexes that some modelled function reads are kept. Host identifiers are indexed through
their parsed UUID; a text that does not parse is an index error, which every caller turns into a
panic. The host index of the replica table is scanned by prefix. Parsed identifiers differ in length,
so a scan for one host may find the replicas of another.
-/

namespace Zongzi

open Std SecondaryIndex

/-- What stops the state machine. -/
inductive Panic where
  /-- `hostTouch` found no host. -/
  | hostNotFound (id : String)
  /-- The UUID index rejected a host identifier. -/
  | invalidUUID (id : String)
  /-- A tag was written to a nil map. -/
  | nilMap
deriving DecidableEq

def isHexDigit (c : Char) : Bool :=
  c.isDigit || ('a' ≤ c && c ≤ 'f') || ('A' ≤ c && c ≤ 'F')

/-- The UUID index key: 36 characters, at most four hyphens, an even number of hex digits. The
digits stand for the bytes they decode to, so their case does not matter. -/
def uuidKey (text : String) : Option String :=
  let digits := text.toList.filter (· ≠ '-')
  if text.toList.length = 36 ∧ text.toList.count '-' ≤ 4 ∧ digits.length % 2 = 0 ∧
      digits.all isHexDigit then
    some (String.ofList (digits.map Char.toLower))
  else none

/-- The eight bytes of a number, as digits. -/
def idDigits (id : ℕ) : List Char :=
  (List.range 16).reverse.map fun place => Nat.digitChar (id / 16 ^ place % 16)

/-- An entry of the host index is spelt with the bytes of the host, then those of the replica. -/
def hostEntry (entry : String × ℕ) : List Char := entry.1.toList ++ idDigits entry.2

/-- A scan for the key of a host finds a replica. A key has sixteen, seventeen or eighteen bytes: it may be
the start of a longer one, or reach into the bytes of the replica. -/
def Scans (key hostID : String) (id : ℕ) : Prop :=
  ∃ own ∈ uuidKey hostID, key.toList <+: hostEntry (own, id)

instance (key hostID : String) (id : ℕ) : Decidable (Scans key hostID id) :=
  inferInstanceAs (Decidable (∃ own ∈ uuidKey hostID, key.toList <+: hostEntry (own, id)))

theorem scans_of_parsed {key hostID : String} (parsed : uuidKey hostID = some key) (id : ℕ) :
    Scans key hostID id :=
  ⟨key, parsed, List.prefix_append ..⟩

/-- Among keys of one length a scan finds only the replicas of its host. -/
theorem scans_iff_of_length {key own hostID : String} (parsed : uuidKey hostID = some own)
    (length : key.toList.length = own.toList.length) {id : ℕ} : Scans key hostID id ↔ own = key := by
  constructor
  · rintro ⟨other, found, start⟩
    cases parsed.symm.trans found
    have whole := List.prefix_of_prefix_length_le start (List.prefix_append _ (idDigits id)) length.le
    exact String.toList_injective (whole.eq_of_length length).symm
  · rintro rfl
    exact scans_of_parsed parsed id

/-- The host table, keyed by parsed identifier. -/
structure HostTable where
  id : ExtTreeMap String Host
  keyed : ∀ (key : String) (host : Host), id[key]? = some host → uuidKey host.id = some key

namespace HostTable

def empty : HostTable := ⟨∅, by intro key host present; simp at present⟩

def insert (table : HostTable) (host : Host) (key : String) (valid : uuidKey host.id = some key) :
    HostTable where
  id := table.id.insert key host
  keyed := by
    intro other stored present
    simp only [ExtTreeMap.getElem?_insert, LawfulEqCmp.compare_eq_iff_eq] at present
    split at present
    · next same => cases present; rw [← same]; exact valid
    · exact table.keyed other stored present

def delete (table : HostTable) (key : String) : HostTable where
  id := table.id.erase key
  keyed := by
    intro other stored present
    simp only [ExtTreeMap.getElem?_erase] at present
    split at present
    · contradiction
    · exact table.keyed other stored present

theorem ext {left right : HostTable} (id : left.id = right.id) : left = right := by
  cases left
  cases right
  cases id
  rfl

end HostTable

/-- The unnamed shard has no entry in the name index. -/
def Shard.nameKeys (shard : Shard) : List String := if shard.name = "" then [] else [shard.name]

def Shard.updatedKeys : Shard → List (ℕ × ℕ) := groupKeys (fun shard => some shard.updated) Shard.id

/-- The shard table. Nothing makes the name index complete. -/
structure ShardTable where
  id : ExtTreeMap ℕ Shard
  name : ExtTreeMap String Shard
  updated : Grouped ℕ ℕ Shard
  keyed : Keyed Shard.id id
  name_sound : Sound Shard.id Shard.nameKeys id name
  updated_mirrors : Mirrors Shard.id Shard.updatedKeys id updated

namespace ShardTable

def empty : ShardTable := ⟨∅, ∅, ∅, keyed_empty, mirrors_empty.sound, mirrors_empty⟩

def insert (table : ShardTable) (shard : Shard) : ShardTable where
  id := table.id.insert shard.id shard
  name := refile Shard.nameKeys table.name table.id[shard.id]? shard
  updated := refile Shard.updatedKeys table.updated table.id[shard.id]? shard
  keyed := table.keyed.insert shard
  name_sound := table.name_sound.refile shard
  updated_mirrors := table.updated_mirrors.refile table.keyed shard
    (fun _ _ different => groupKeys_free different)

/-- Deleting goes by identifier and drops the entries of the stored version. -/
def delete (table : ShardTable) (shard : Shard) : ShardTable :=
  match stored : table.id[shard.id]? with
  | none => table
  | some existing => {
      id := table.id.erase shard.id
      name := unfile Shard.nameKeys table.name existing
      updated := unfile Shard.updatedKeys table.updated existing
      keyed := table.keyed.erase shard.id
      name_sound := table.name_sound.unfile stored
      updated_mirrors := table.updated_mirrors.unfile table.keyed stored }

/-- Only the name index is not a function of the identifier map. -/
theorem ext {left right : ShardTable} (id : left.id = right.id) (name : left.name = right.name) :
    left = right := by
  have updated : left.updated = right.updated :=
    left.updated_mirrors.unique (by rw [id]; exact right.updated_mirrors)
  cases left
  cases right
  cases id
  cases name
  cases updated
  rfl

end ShardTable

def Replica.hostKeys : Replica → List (String × ℕ) :=
  groupKeys (fun replica => uuidKey replica.hostID) Replica.id

def Replica.shardKeys : Replica → List (ℕ × ℕ) :=
  groupKeys (fun replica => some replica.shardID) Replica.id

/-- The replica table. The host index admits no missing value. -/
structure ReplicaTable where
  id : ExtTreeMap ℕ Replica
  hostID : Grouped String ℕ Replica
  shardID : Grouped ℕ ℕ Replica
  keyed : Keyed Replica.id id
  hosted : ∀ (i : ℕ) (replica : Replica), id[i]? = some replica → (uuidKey replica.hostID).isSome
  hostID_mirrors : Mirrors Replica.id Replica.hostKeys id hostID
  shardID_mirrors : Mirrors Replica.id Replica.shardKeys id shardID

namespace ReplicaTable

def empty : ReplicaTable where
  id := ∅
  hostID := ∅
  shardID := ∅
  keyed := keyed_empty
  hosted := by intro i replica present; simp at present
  hostID_mirrors := mirrors_empty
  shardID_mirrors := mirrors_empty

def insert (table : ReplicaTable) (replica : Replica) (valid : (uuidKey replica.hostID).isSome) :
    ReplicaTable where
  id := table.id.insert replica.id replica
  hostID := refile Replica.hostKeys table.hostID table.id[replica.id]? replica
  shardID := refile Replica.shardKeys table.shardID table.id[replica.id]? replica
  keyed := table.keyed.insert replica
  hosted := by
    intro i other present
    simp only [ExtTreeMap.getElem?_insert, LawfulEqCmp.compare_eq_iff_eq] at present
    split at present
    · cases present; exact valid
    · exact table.hosted i other present
  hostID_mirrors := table.hostID_mirrors.refile table.keyed replica
    (fun _ _ different => groupKeys_free different)
  shardID_mirrors := table.shardID_mirrors.refile table.keyed replica
    (fun _ _ different => groupKeys_free different)

def delete (table : ReplicaTable) (replica : Replica) : ReplicaTable :=
  match stored : table.id[replica.id]? with
  | none => table
  | some existing => {
      id := table.id.erase replica.id
      hostID := unfile Replica.hostKeys table.hostID existing
      shardID := unfile Replica.shardKeys table.shardID existing
      keyed := table.keyed.erase replica.id
      hosted := by
        intro i other present
        simp only [ExtTreeMap.getElem?_erase] at present
        split at present
        · contradiction
        · exact table.hosted i other present
      hostID_mirrors := table.hostID_mirrors.unfile table.keyed stored
      shardID_mirrors := table.shardID_mirrors.unfile table.keyed stored }

/-- A replica table is determined by its identifier map. -/
theorem ext {left right : ReplicaTable} (id : left.id = right.id) : left = right := by
  have hostID : left.hostID = right.hostID :=
    left.hostID_mirrors.unique (by rw [id]; exact right.hostID_mirrors)
  have shardID : left.shardID = right.shardID :=
    left.shardID_mirrors.unique (by rw [id]; exact right.shardID_mirrors)
  cases left
  cases right
  cases id
  cases hostID
  cases shardID
  rfl

end ReplicaTable

/-- The registry: the meta values, zero until they are set, and the three tables. The default value
is the store `newFsmStateRadix` creates. -/
structure State where
  index : ℕ := 0
  /-- The identifier of the last created host. -/
  hostID : String := ""
  /-- The identifier of the last created shard. -/
  shardID : ℕ := 0
  /-- The identifier of the last created replica. -/
  replicaID : ℕ := 0
  hosts : HostTable := .empty
  shards : ShardTable := .empty
  replicas : ReplicaTable := .empty

namespace State

/-- A registry is determined by its meta values, its three identifier maps and its name index. -/
theorem ext_maps {left right : State} (index : left.index = right.index)
    (hostID : left.hostID = right.hostID) (shardID : left.shardID = right.shardID)
    (replicaID : left.replicaID = right.replicaID) (hosts : left.hosts.id = right.hosts.id)
    (shards : left.shards.id = right.shards.id) (names : left.shards.name = right.shards.name)
    (replicas : left.replicas.id = right.replicas.id) : left = right := by
  cases left
  cases right
  cases index
  cases hostID
  cases shardID
  cases replicaID
  cases HostTable.ext hosts
  cases ShardTable.ext shards names
  cases ReplicaTable.ext replicas
  rfl

def metaSetIndex (state : State) (val : ℕ) : State := { state with index := val }

def setHostID (state : State) (id : String) : State := { state with hostID := id }

/-- The next shard identifier, from a wrapping 64-bit counter. -/
def shardIncr (state : State) : ℕ × State :=
  let id := (state.shardID + 1) % 2 ^ 64
  (id, { state with shardID := id })

def replicaIncr (state : State) : ℕ × State :=
  let id := (state.replicaID + 1) % 2 ^ 64
  (id, { state with replicaID := id })

def host (state : State) (id : String) : Except Panic (Option Host) :=
  match uuidKey id with
  | none => .error (.invalidUUID id)
  | some key => .ok state.hosts.id[key]?

/-- Iterators walk a snapshot of their index, so a fold over the list models the callback loop. -/
def hostIterate (state : State) : List Host := state.hosts.id.toList.map Prod.snd

def hostPut (state : State) (host : Host) : Except Panic State :=
  match valid : uuidKey host.id with
  | none => .error (.invalidUUID host.id)
  | some key => .ok { state with hosts := state.hosts.insert host key valid }

def hostDelete (state : State) (host : Host) : Except Panic State :=
  match uuidKey host.id with
  | none => .error (.invalidUUID host.id)
  | some key => .ok { state with hosts := state.hosts.delete key }

def hostTouch (state : State) (id : String) (index : ℕ) : Except Panic State := do
  match ← state.host id with
  | none => throw (.hostNotFound id)
  | some host => state.hostPut { host with updated := index }

def shard (state : State) (id : ℕ) : Option Shard := state.shards.id[id]?

def shardFindByName (state : State) (name : String) : Option Shard := state.shards.name[name]?

def shardPut (state : State) (shard : Shard) : State :=
  { state with shards := state.shards.insert shard }

def shardDelete (state : State) (shard : Shard) : State :=
  { state with shards := state.shards.delete shard }

/-- Touching a missing shard does nothing. -/
def shardTouch (state : State) (id index : ℕ) : State :=
  match state.shard id with
  | some shard => state.shardPut { shard with updated := index }
  | none => state

def shardIterate (state : State) : List Shard := state.shards.id.toList.map Prod.snd

/-- Shards in the order of the update index, from the wrapped successor of `index` on. -/
def shardIterateUpdatedAfter (state : State) (index : ℕ) : List Shard :=
  (state.shards.updated.toList.filter fun entry => (index + 1) % 2 ^ 64 ≤ entry.1.1).map Prod.snd

def replica (state : State) (id : ℕ) : Option Replica := state.replicas.id[id]?

def replicaPut (state : State) (replica : Replica) : Except Panic State :=
  if valid : (uuidKey replica.hostID).isSome then
    .ok { state with replicas := state.replicas.insert replica valid }
  else .error (.invalidUUID replica.hostID)

def replicaDelete (state : State) (replica : Replica) : State :=
  { state with replicas := state.replicas.delete replica }

def replicaIterate (state : State) : List Replica := state.replicas.id.toList.map Prod.snd

def replicaIterateByShardID (state : State) (shardID : ℕ) : List Replica :=
  select state.replicas.shardID shardID

/-- The replicas that a scan for the key of a host finds. -/
def scanHost (state : State) (key : String) : List Replica :=
  scan hostEntry state.replicas.hostID key.toList

def replicaIterateByHostID (state : State) (hostID : String) : Except Panic (List Replica) :=
  match uuidKey hostID with
  | none => .error (.invalidUUID hostID)
  | some key => .ok (state.scanHost key)

/-- The voting replicas of a shard, as replica identifier to host identifier. -/
def shardMembers (state : State) (id : ℕ) : ExtTreeMap ℕ String :=
  (state.replicaIterateByShardID id).foldl
    (fun members replica =>
      if replica.isNonVoting then members else members.insert replica.id replica.hostID) ∅

section Lookups

variable {state next : State}

theorem shard_id {id : ℕ} {shard : Shard} (found : state.shard id = some shard) : shard.id = id :=
  state.shards.keyed id shard found

theorem replica_id {id : ℕ} {replica : Replica} (found : state.replica id = some replica) :
    replica.id = id :=
  state.replicas.keyed id replica found

/-- The name index points to the current version of a shard with that name. -/
theorem shardFindByName_sound {name : String} {shard : Shard}
    (found : state.shardFindByName name = some shard) :
    shard.name = name ∧ name ≠ "" ∧ state.shard shard.id = some shard := by
  obtain ⟨filed, stored⟩ := state.shards.name_sound name shard found
  simp only [Shard.nameKeys] at filed
  split at filed
  · contradiction
  · next named =>
    obtain rfl := List.mem_singleton.mp filed
    exact ⟨rfl, named, stored⟩

@[simp] theorem shard_shardPut (shard : Shard) (id : ℕ) :
    (state.shardPut shard).shard id = if shard.id = id then some shard else state.shard id := by
  simp [State.shard, shardPut, ShardTable.insert, ExtTreeMap.getElem?_insert]

@[simp] theorem shard_shardDelete (shard : Shard) (id : ℕ) :
    (state.shardDelete shard).shard id = if shard.id = id then none else state.shard id := by
  simp only [State.shard, shardDelete, ShardTable.delete]
  split
  · next absent =>
    split
    · next same => rw [← same]; exact absent
    · rfl
  · simp [ExtTreeMap.getElem?_erase]

@[simp] theorem replica_replicaDelete (replica : Replica) (id : ℕ) :
    (state.replicaDelete replica).replica id =
      if replica.id = id then none else state.replica id := by
  simp only [State.replica, replicaDelete, ReplicaTable.delete]
  split
  · next absent =>
    split
    · next same => rw [← same]; exact absent
    · rfl
  · simp [ExtTreeMap.getElem?_erase]

theorem host_eq_ok_iff {id : String} {found : Option Host} :
    state.host id = .ok found ↔ ∃ key, uuidKey id = some key ∧ state.hosts.id[key]? = found := by
  unfold State.host
  cases parsed : uuidKey id with
  | none => simp
  | some key => simp

theorem hostPut_eq_ok_iff {host : Host} :
    state.hostPut host = .ok next ↔ ∃ key, ∃ valid : uuidKey host.id = some key,
      next = { state with hosts := state.hosts.insert host key valid } := by
  unfold hostPut
  split
  · next invalid => simp [invalid]
  · next key valid =>
    constructor
    · intro stored
      cases stored
      exact ⟨key, valid, rfl⟩
    · rintro ⟨other, parsed, rfl⟩
      cases valid.symm.trans parsed
      rfl

theorem hostDelete_eq_ok_iff {host : Host} :
    state.hostDelete host = .ok next ↔ ∃ key, uuidKey host.id = some key ∧
      next = { state with hosts := state.hosts.delete key } := by
  unfold hostDelete
  cases parsed : uuidKey host.id with
  | none => simp
  | some key => simp [eq_comm]

theorem hostTouch_eq_ok_iff {id : String} {index : ℕ} :
    state.hostTouch id index = .ok next ↔ ∃ key host, uuidKey id = some key ∧
      state.hosts.id[key]? = some host ∧ state.hostPut { host with updated := index } = .ok next := by
  unfold hostTouch
  simp only [ExceptFold.bind_eq_ok_iff, host_eq_ok_iff]
  constructor
  · rintro ⟨found, ⟨key, parsed, looked⟩, touched⟩
    cases found with
    | none => cases touched
    | some host => exact ⟨key, host, parsed, looked, touched⟩
  · rintro ⟨key, host, parsed, looked, touched⟩
    exact ⟨some host, ⟨key, parsed, looked⟩, touched⟩

theorem replicaPut_eq_ok_iff {replica : Replica} :
    state.replicaPut replica = .ok next ↔ ∃ valid : (uuidKey replica.hostID).isSome,
      next = { state with replicas := state.replicas.insert replica valid } := by
  unfold replicaPut
  split
  · next valid => simp [valid, eq_comm]
  · next invalid => simp [invalid]

theorem mem_replicaIterate {replica : Replica} :
    replica ∈ state.replicaIterate ↔ state.replica replica.id = some replica :=
  state.replicas.keyed.mem_values

theorem mem_shardIterate {shard : Shard} :
    shard ∈ state.shardIterate ↔ state.shard shard.id = some shard :=
  state.shards.keyed.mem_values

theorem mem_shardIterateUpdatedAfter {index : ℕ} {shard : Shard} :
    shard ∈ state.shardIterateUpdatedAfter index ↔
      state.shard shard.id = some shard ∧ (index + 1) % 2 ^ 64 ≤ shard.updated := by
  simp only [shardIterateUpdatedAfter, List.mem_map, List.mem_filter, decide_eq_true_eq, Prod.exists,
    ExtTreeMap.mem_toList_iff_getElem?_eq_some]
  constructor
  · rintro ⟨updated, id, stored, ⟨filed, late⟩, rfl⟩
    obtain ⟨member, found⟩ := state.shards.updated_mirrors.sound (updated, id) stored filed
    obtain ⟨same, -⟩ := mem_groupKeys.mp member
    exact ⟨found, Option.some.inj same ▸ late⟩
  · rintro ⟨found, late⟩
    have filed : (shard.updated, shard.id) ∈ shard.updatedKeys := mem_groupKeys.mpr ⟨rfl, rfl⟩
    exact ⟨shard.updated, shard.id, shard,
      ⟨state.shards.updated_mirrors.complete shard found _ filed, late⟩, rfl⟩

/-- The replicas of a shard are those of the table with its identifier, in identifier order. -/
theorem replicaIterateByShardID_eq (state : State) (shardID : ℕ) :
    state.replicaIterateByShardID shardID =
      state.replicaIterate.filter fun replica => replica.shardID = shardID := by
  rw [replicaIterateByShardID, select_eq_filter state.replicas.keyed state.replicas.shardID_mirrors]
  simp [replicaIterate]

theorem mem_replicaIterateByShardID {shardID : ℕ} {replica : Replica} :
    replica ∈ state.replicaIterateByShardID shardID ↔
      state.replica replica.id = some replica ∧ replica.shardID = shardID := by
  simp [replicaIterateByShardID_eq, mem_replicaIterate]

theorem replicaIterateByHostID_eq_ok_iff {hostID : String} {replicas : List Replica} :
    state.replicaIterateByHostID hostID = .ok replicas ↔
      ∃ key, uuidKey hostID = some key ∧ replicas = state.scanHost key := by
  unfold replicaIterateByHostID
  cases parsed : uuidKey hostID with
  | none => simp
  | some key => simp [eq_comm]

theorem mem_scanHost {key : String} {replica : Replica} :
    replica ∈ state.scanHost key ↔
      state.replica replica.id = some replica ∧ Scans key replica.hostID replica.id :=
  mem_scan hostEntry state.replicas.hostID_mirrors

end Lookups

end State

end Zongzi
