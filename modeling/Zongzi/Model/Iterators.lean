import Zongzi.Model.TagIndex

/-! # Iterators over secondary indexes

A lookup names an index of a table and gets the entries of the index in their order. A name that the schema of the
table does not have is an error, which every iterator turns into a panic.
-/

namespace Zongzi

open Std

/-- The names of the indexes of a table. -/
def hostSchema : List String := ["id", "RaftAddress", "Tags", "Updated"]

def shardSchema : List String := ["id", "Name", "Tags", "Updated"]

/-- What an index of this name answers. -/
def get {α : Type} (schema : List String) (index : String) (entries : List α) : Except String (List α) :=
  if index ∈ schema then .ok entries else .error ("invalid index '" ++ index ++ "'")

/-- The records that a callback gets. It returns true to continue. -/
def iterate {α : Type} (fn : α → Bool) : List α → List α
  | [] => []
  | record :: records => if fn record then record :: iterate fn records else [record]

/-- The iterators, by what they look up. -/
inductive Lookup where
  | hostShardType (shardType : String)
  | hostTag (tag : String)
  | shardTag (tag : String)
deriving DecidableEq

namespace Lookup

abbrev Record : Lookup → Type
  | .hostShardType _ => Host
  | .hostTag _ => Host
  | .shardTag _ => Shard

/-- `HostIterateByShardType`. Nothing is filed under a name that is not in the schema. -/
def hostIterateByShardType (_store : Store) (_shardType : String) (fn : Host → Bool) : Except String (List Host) := do
  return iterate fn (← get hostSchema "ShardTypes" [])

def hostIterateByTag (store : Store) (tag : String) (fn : Host → Bool) : Except String (List Host) := do
  return iterate fn (← get hostSchema "Tags"
    ((MultiIndex.scan store.hostTags tag).filterMap fun key => store.state.hosts.id[key]?))

def shardIterateByTag (store : Store) (tag : String) (fn : Shard → Bool) : Except String (List Shard) := do
  return iterate fn (← get shardSchema "Tags" ((MultiIndex.scan store.shardTags tag).filterMap store.state.shard))

/-- The records that the callback gets, or the panic. -/
def run (store : Store) : (lookup : Lookup) → (lookup.Record → Bool) → Except String (List lookup.Record)
  | .hostShardType shardType, fn => hostIterateByShardType store shardType fn
  | .hostTag tag, fn => hostIterateByTag store tag fn
  | .shardTag tag, fn => shardIterateByTag store tag fn

end Lookup

end Zongzi
