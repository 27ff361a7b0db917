import Zongzi.ToStd.EvictingCache

/-! # The pool of gRPC clients

A pool keeps clients, each with its connection, in a cache of the addresses in use. `get` looks an address up, dials
it where it is missing and adds the connection. Only the first and the last of these take the lock of the cache, each
for itself, so calls of `get` interleave between them. The cache hands what it evicts to the evict function once it has
released its lock, which closes the connection. The cache is from a library, and it is a parameter here.

Dialing does not wait for the address to answer; whether it fails is chosen by the run.
-/

namespace Zongzi

inductive PoolCall where
  | get (addr : String)
  | remove (addr : String)
  | close

/-- How far a call is. -/
inductive PoolPhase where
  | ready (call : PoolCall)
  | dialing (addr : String)
  | adding (addr : String) (conn : ℕ)
  /-- The evict function still has these connections to close. -/
  | closing (conns : List ℕ)

/-- The pool, with the connections that were dialed and not closed, and the calls that run on it. -/
structure ClientPool (κ : Type) (cache : EvictingCache String ℕ) where
  clients : cache.State
  /-- Connections are numbered in the order in which they are dialed. -/
  dialed : ℕ
  live : Multiset ℕ
  phases : κ → PoolPhase

namespace ClientPool

variable {κ : Type} [DecidableEq κ] {cache : EvictingCache String ℕ}

def newGrpcClientPool (calls : κ → PoolCall) : ClientPool κ cache where
  clients := cache.empty
  dialed := 0
  live := 0
  phases call := .ready (calls call)

def setPhase (pool : ClientPool κ cache) (call : κ) (phase : PoolPhase) : ClientPool κ cache :=
  { pool with phases := Function.update pool.phases call phase }

/-- A call moves on. Whether it dials with success is the second part of the move. -/
def step (pool : ClientPool κ cache) (move : κ × Bool) : Option (ClientPool κ cache) :=
  match pool.phases move.1 with
  | .ready (.get addr) =>
    match cache.get pool.clients addr with
    | (some _, clients) => some ({ pool with clients }.setPhase move.1 (.closing []))
    | (none, clients) => some ({ pool with clients }.setPhase move.1 (.dialing addr))
  | .ready (.remove addr) =>
    let (clients, evicted) := cache.remove pool.clients addr
    some ({ pool with clients }.setPhase move.1 (.closing (evicted.map Prod.snd)))
  | .ready .close =>
    let (clients, evicted) := cache.purge pool.clients
    some ({ pool with clients }.setPhase move.1 (.closing (evicted.map Prod.snd)))
  | .dialing addr =>
    if move.2 then
      some ({ pool with dialed := pool.dialed + 1, live := pool.dialed ::ₘ pool.live }.setPhase move.1
        (.adding addr pool.dialed))
    else some (pool.setPhase move.1 (.closing []))
  | .adding addr conn =>
    let (clients, evicted) := cache.add pool.clients addr conn
    some ({ pool with clients }.setPhase move.1 (.closing (evicted.map Prod.snd)))
  | .closing (conn :: conns) => some ({ pool with live := pool.live.erase conn }.setPhase move.1 (.closing conns))
  | .closing [] => none

end ClientPool

end Zongzi
