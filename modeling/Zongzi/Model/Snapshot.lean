import Zongzi.Model.Fsm

/-! # Snapshots of the registry

A snapshot is a stream of encoded values: a header with the meta values and the record counts, then
every host, shard and replica in identifier order, each followed by a newline. Recovery decodes the
header, sets the meta values and inserts as many records of each kind as the header counts. It
inserts into the tables it finds and commits whatever it has inserted, also when decoding fails.

The encoding itself is a parameter: `Codec` holds the encoder and the streaming decoder of
`encoding/json` for the four structs, with the one law the snapshot format relies on.
-/

namespace Zongzi

open Std

structure Header where
  index : ℕ
  hostID : String
  hosts : ℕ
  replicaID : ℕ
  replicas : ℕ
  shardID : ℕ
  shards : ℕ
deriving DecidableEq

/-- Encoding and stream decoding of one type. Decoding a value that was written with its newline
returns the value and leaves the rest of the stream. -/
structure Coder (σ α : Type) (newline : σ) where
  marshal : α → List σ
  decode : List σ → Except String (α × List σ)
  decode_marshal : ∀ value rest, decode (marshal value ++ newline :: rest) = .ok (value, rest)

/-- The encoding of the snapshot's structs over streams of symbols. -/
structure Codec (σ : Type) where
  newline : σ
  header : Coder σ Header newline
  host : Coder σ Host newline
  shard : Coder σ Shard newline
  replica : Coder σ Replica newline

/-- One symbol for each encoded value. -/
inductive Token where
  | newline
  | header (value : Header)
  | host (value : Host)
  | shard (value : Shard)
  | replica (value : Replica)

/-- The encoding by whole values. -/
def Codec.tokens : Codec Token where
  newline := .newline
  header := {
    marshal := fun value => [.header value]
    decode
      | .header value :: .newline :: rest => .ok (value, rest)
      | _ => .error "unexpected token"
    decode_marshal := fun _ _ => rfl }
  host := {
    marshal := fun value => [.host value]
    decode
      | .host value :: .newline :: rest => .ok (value, rest)
      | _ => .error "unexpected token"
    decode_marshal := fun _ _ => rfl }
  shard := {
    marshal := fun value => [.shard value]
    decode
      | .shard value :: .newline :: rest => .ok (value, rest)
      | _ => .error "unexpected token"
    decode_marshal := fun _ _ => rfl }
  replica := {
    marshal := fun value => [.replica value]
    decode
      | .replica value :: .newline :: rest => .ok (value, rest)
      | _ => .error "unexpected token"
    decode_marshal := fun _ _ => rfl }

namespace Coder

variable {σ α : Type} {newline : σ}

/-- Write the values of one kind, each on a line of its own. -/
def writeAll (coder : Coder σ α newline) (values : List α) : List σ :=
  values.flatMap fun value => coder.marshal value ++ [newline]

/-- Decode `count` values and insert each into the state; what was inserted before a decoding error
stays. -/
def readAll (coder : Coder σ α newline) (insert : State → α → Except Panic State) (label : String) :
    ℕ → State → List σ → Except Panic (State × Except String (List σ))
  | 0, state, stream => .ok (state, .ok stream)
  | count + 1, state, stream =>
    match coder.decode stream with
    | .error message => .ok (state, .error (label ++ message))
    | .ok (value, rest) => do readAll coder insert label count (← insert state value) rest

end Coder

namespace State

variable {σ : Type}

def header (state : State) : Header where
  index := state.index
  hostID := state.hostID
  hosts := state.hostIterate.length
  replicaID := state.replicaID
  replicas := state.replicaIterate.length
  shardID := state.shardID
  shards := state.shardIterate.length

/-- Write the snapshot. -/
def save (codec : Codec σ) (state : State) : List σ :=
  codec.header.marshal state.header ++ codec.newline ::
    (codec.host.writeAll state.hostIterate ++ (codec.shard.writeAll state.shardIterate ++
      codec.replica.writeAll state.replicaIterate))

/-- The meta values of a header replace those of the state. -/
def setMeta (state : State) (header : Header) : State :=
  { state with
    index := header.index
    hostID := header.hostID
    shardID := header.shardID
    replicaID := header.replicaID }

/-- Recover a snapshot into a state. The second component is the error, if there is one, or the
unread rest of the stream. -/
def recover (codec : Codec σ) (state : State) (stream : List σ) :
    Except Panic (State × Except String (List σ)) :=
  match codec.header.decode stream with
  | .error message => .ok (state, .error message)
  | .ok (header, stream) => do
    let (state, read) ← codec.host.readAll hostPut "parse host: " header.hosts
      (state.setMeta header) stream
    match read with
    | .error message => return (state, .error message)
    | .ok stream => do
      let (state, read) ← codec.shard.readAll (fun state shard => .ok (state.shardPut shard))
        "parse shard: " header.shards state stream
      match read with
      | .error message => return (state, .error message)
      | .ok stream => codec.replica.readAll replicaPut "parse replica: " header.replicas state stream

end State

end Zongzi
