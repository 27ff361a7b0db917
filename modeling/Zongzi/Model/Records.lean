import Mathlib

/-! # Registry records, commands and log entries

The three record types of the registry and the commands that write them, as the state machine
sees them after decoding. A Go map that may be nil is an `Option`: writing to `none` is a runtime
panic, reading it is not. Statuses are open string types in the source, so every enumeration keeps
a constructor for an unlisted text. Log entries carry the decoded command; an entry whose envelope
does not decode and an entry whose type is unknown are told apart because the state machine treats
them differently.
-/

namespace Zongzi

open Std

/-- A non-nil Go `map[string]string`. -/
abbrev TagMap : Type := ExtTreeMap String String

/-- A Go tag map; `none` is the nil map. -/
abbrev Tags : Type := Option TagMap

inductive HostStatus where
  | active
  | gone
  | missing
  | new
  | recovering
  | other (text : String)
deriving DecidableEq

inductive ShardStatus where
  | active
  | closed
  | closing
  | new
  | unavailable
  | other (text : String)
deriving DecidableEq

inductive ReplicaStatus where
  | active
  | closed
  | closing
  | bootstrapping
  | joining
  | new
  | other (text : String)
deriving DecidableEq

structure Host where
  id : String := ""
  created : ℕ := 0
  updated : ℕ := 0
  status : HostStatus := .other ""
  tags : Tags := none
  apiAddress : String := ""
  raftAddress : String := ""
  shardTypes : Option (List String) := none
deriving DecidableEq

structure Shard where
  id : ℕ := 0
  created : ℕ := 0
  updated : ℕ := 0
  status : ShardStatus := .other ""
  tags : Tags := none
  leader : ℕ := 0
  name : String := ""
  term : ℕ := 0
  type : String := ""
deriving DecidableEq

structure Replica where
  id : ℕ := 0
  created : ℕ := 0
  updated : ℕ := 0
  status : ReplicaStatus := .other ""
  tags : Tags := none
  hostID : String := ""
  isNonVoting : Bool := false
  isWitness : Bool := false
  shardID : ℕ := 0
deriving DecidableEq

/-- The action of a command; `unrecognized` is every text no constant names. -/
inductive Action where
  | touch
  | del
  | put
  | post
  | statusUpdate
  | tagsSet
  | tagsSetNX
  | tagsRemove
  | leaderSet
  | unrecognized (text : String)
deriving DecidableEq

/-- A proposal as the state machine decodes it. -/
inductive Cmd where
  /-- The bytes are not a command envelope. -/
  | invalid
  /-- The envelope names no known type, or its body does not decode. -/
  | unrecognized
  | host (action : Action) (host : Host)
  | shard (action : Action) (shard : Shard)
  | replica (action : Action) (replica : Replica)
deriving DecidableEq

/-- The answer of the state machine to one entry. -/
structure Result where
  value : ℕ := 0
  data : String := ""
deriving DecidableEq

structure Entry where
  index : ℕ
  cmd : Cmd
  result : Result := {}
deriving DecidableEq

/-- Split a tag at its first equals sign; a tag without one has an empty value. -/
def splitTag (tag : String) : String × String :=
  if '=' ∈ tag.toList then
    (String.ofList (tag.toList.takeWhile (· ≠ '=')),
      String.ofList ((tag.toList.dropWhile (· ≠ '=')).drop 1))
  else (tag, "")

/-- Convert a list of tags to a map; later tags overwrite earlier ones. -/
def tagMapFromList (tagList : List String) : TagMap :=
  tagList.foldl (fun tags tag => tags.insert (splitTag tag).1 (splitTag tag).2) ∅

def newCmdHostPut (nhid apiAddr raftAddr : String) (tagList : List String) (status : HostStatus)
    (shardTypes : Option (List String)) : Cmd :=
  .host .put {
    apiAddress := apiAddr
    id := nhid
    tags := some (tagMapFromList tagList)
    raftAddress := raftAddr
    shardTypes
    status }

def newCmdHostDel (nhid : String) : Cmd := .host .del { id := nhid }

def newCmdShardPost (shard : Shard) : Cmd := .shard .post shard

def newCmdShardPut (shard : Shard) : Cmd := .shard .put shard

def newCmdShardStatusUpdate (id : ℕ) (status : ShardStatus) : Cmd :=
  .shard .statusUpdate { id, status }

def newCmdShardLeaderSet (shardID replicaID term : ℕ) : Cmd :=
  .shard .leaderSet { id := shardID, leader := replicaID, term }

def newCmdShardDel (shardID : ℕ) : Cmd := .shard .del { id := shardID }

def newCmdShardTouch (shardID : ℕ) : Cmd := .shard .touch { id := shardID }

def newCmdReplicaPost (nhid : String) (shardID : ℕ) (isNonVoting : Bool) : Cmd :=
  .replica .post { hostID := nhid, isNonVoting, shardID, status := .new }

def newCmdReplicaPut (nhid : String) (shardID replicaID : ℕ) (isNonVoting : Bool) : Cmd :=
  .replica .put { hostID := nhid, id := replicaID, shardID, isNonVoting }

def newCmdReplicaDelete (replicaID : ℕ) : Cmd := .replica .del { id := replicaID }

def newCmdReplicaUpdateStatus (replicaID : ℕ) (status : ReplicaStatus) : Cmd :=
  .replica .statusUpdate { id := replicaID, status }

/-- A tag command addresses a host, a shard or a replica by its identifier only. -/
inductive Subject where
  | host (host : Host)
  | shard (shard : Shard)
  | replica (replica : Replica)
deriving DecidableEq

def newCmdTags (action : Action) (subject : Subject) (tagList : List String) : Cmd :=
  match subject with
  | .host host => .host action { id := host.id, tags := some (tagMapFromList tagList) }
  | .shard shard => .shard action { id := shard.id, tags := some (tagMapFromList tagList) }
  | .replica replica => .replica action { id := replica.id, tags := some (tagMapFromList tagList) }

def newCmdTagsSetNX (subject : Subject) (tagList : List String) : Cmd :=
  newCmdTags .tagsSetNX subject tagList

def newCmdTagsSet (subject : Subject) (tagList : List String) : Cmd :=
  newCmdTags .tagsSet subject tagList

def newCmdTagsRemove (subject : Subject) (tagList : List String) : Cmd :=
  newCmdTags .tagsRemove subject tagList

end Zongzi
