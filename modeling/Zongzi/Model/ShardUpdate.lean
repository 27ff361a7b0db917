import Zongzi.Model.Agent

/-! # Updating a shard

`ShardUpdate` reads the record of a shard, lets its options change it and puts the whole record back.
`LeaderUpdated` proposes the leader of a shard when the agent leads the prime shard.

An option that writes a tag to a record without a tag map panics. The record that a caller reads is its own
here; in the code it shares its tag map with the registry of the caller's host.
-/

namespace Zongzi

open Std Machine

section Options

/-- An option that runs on a record of the registry, and may panic. -/
abbrev ShardEdit : Type := Shard → Except Panic (Shard × Option String)

def ShardOption.edit (option : ShardOption) : ShardEdit := fun shard => .ok (option shard)

def WithTag (key value : String) : ShardEdit := fun shard =>
  match shard.tags with
  | none => .error .nilMap
  | some tags => .ok ({ shard with tags := some (tags.insert key value) }, none)

def WithPlacementMembers (n : ℤ) (tags : List String) : ShardEdit :=
  WithTag "placement:member" (toString n ++ ";" ++ ";".intercalate tags)

def WithPlacementReplicas (group : String) (n : ℤ) (tags : List String) : ShardEdit :=
  WithTag ("placement:replica:" ++ group) (toString n ++ ";" ++ ";".intercalate tags)

def WithPlacementVary (tagKeys : List String) : ShardEdit := WithTag "placement:vary" (";".intercalate tagKeys)

def WithPlacementCover (tagKeys : List String) : ShardEdit := WithTag "placement:cover" (";".intercalate tagKeys)

/-- Apply every option. Their errors are not looked at. -/
def editAll : List ShardEdit → Shard → Except Panic Shard
  | [], shard => .ok shard
  | option :: options, shard => do
    let (shard, _) ← option shard
    editAll options shard

end Options

def ErrShardNotFound : String := "Shard not found"

/-- Read the shard, change it and put it back. A read that fails finds no shard. -/
def shardUpdate (id : ℕ) (opts : List ShardEdit) : AgentM (Except Panic (Shard × Option String)) := do
  let found := match ← readState with
    | .error _ => none
    | .ok snapshot => snapshot.state.shard id
  match found with
  | none => return .ok ({}, some ErrShardNotFound)
  | some found =>
    match editAll opts found with
    | .error panic => return .error panic
    | .ok shard =>
      match ← primePropose (newCmdShardPut shard) with
      | .error err => return .ok (shard, some err)
      | .ok result => return .ok ({ shard with id := result.value }, none)

def shardLeaderSet (shardID replicaID term : ℕ) : AgentM (Option String) := do
  match ← primePropose (newCmdShardLeaderSet shardID replicaID term) with
  | .error err => return some err
  | .ok _ => return none

/-- What raft reports about the leader of a shard. -/
structure LeaderInfo where
  shardID : ℕ
  replicaID : ℕ
  term : ℕ
  leaderID : ℕ

/-- An agent that leads the prime shard proposes the leader. Whether it leads is what it returns. -/
def leaderUpdated (self : String) (isLeader : Bool) (info : LeaderInfo) : AgentM Bool := do
  let isLeader := if info.shardID = 0 then decide (info.leaderID = info.replicaID) else isLeader
  if isLeader then
    match ← Program.perform (AgentOp.status self) with
    | .ok .ready =>
      if info.leaderID ≠ 0 then
        let _ ← shardLeaderSet info.shardID info.leaderID info.term
    | _ => pure ()
  return isLeader

/-- The operations on shards that agents run side by side. -/
inductive ShardCall where
  | create (uri : String) (opts : List ShardOption)
  | delete (id : ℕ)
  | update (id : ℕ) (opts : List ShardEdit)

inductive ShardReply where
  | created (creation : Creation)
  | deleted (err : Option String)
  | updated (outcome : Except Panic (Shard × Option String))

def ShardCall.program : ShardCall → AgentM ShardReply
  | .create uri opts => .created <$> shardCreate uri opts
  | .delete id => .deleted <$> shardDelete id
  | .update id opts => .updated <$> shardUpdate id opts

abbrev ShardPool (ι : Type) : Type := Pool Cluster ι AgentOp AgentRes ShardReply

def shardPool {ι : Type} (cluster : Cluster) (calls : ι → ShardCall) : ShardPool ι where
  shared := cluster
  threads i := (calls i).program

end Zongzi
