import Zongzi.Machine.Path
import Zongzi.Model.ClientPool

/-! # What becomes of the connections

Between its lookup and its add a `get` owns the connection that it has dialed; afterwards the cache does, and at last
the call whose evict function closes it. Counted this way nothing is lost until a `get` adds an address that another
one has added since its own lookup: the connection that was there is neither cached nor closed.
-/

namespace Zongzi

open Machine

/-- The connections that a call has to add or to close. -/
def PoolPhase.conns : PoolPhase → Multiset ℕ
  | .adding _ conn => {conn}
  | .closing conns => conns
  | _ => 0

namespace ClientPool

variable {κ : Type} [DecidableEq κ] {cache : EvictingCache String ℕ} {pool next : ClientPool κ cache}
  {move : κ × Bool} {moves : List (κ × Bool)}

def Moves (pool : ClientPool κ cache) (move : κ × Bool) (next : ClientPool κ cache) : Prop :=
  pool.step move = some next

theorem moves_determined : Determined (@Moves κ _ cache) :=
  fun _ _ _ _ left right => Option.some.inj (left.symm.trans right)

section Accounting

variable [Fintype κ]

/-- The connections of the cache and of the calls. -/
def held (pool : ClientPool κ cache) : Multiset ℕ := cache.values pool.clients + ∑ call, (pool.phases call).conns

/-- Every connection that is live has an owner, and every owned one is live. -/
def Accounted (pool : ClientPool κ cache) : Prop := pool.live = pool.held

/-- A call that adds an address adds a missing one. -/
def AddsMissing (pool : ClientPool κ cache) (move : κ × Bool) : Prop :=
  ∀ addr conn, pool.phases move.1 = .adding addr conn → addr ∉ cache.keys pool.clients

theorem sum_update (phases : κ → PoolPhase) (call : κ) (phase : PoolPhase) :
    ∑ other, (Function.update phases call phase other).conns + (phases call).conns =
      ∑ other, (phases other).conns + phase.conns := by
  have split (phases : κ → PoolPhase) : ∑ other, (phases other).conns =
      (phases call).conns + ∑ other ∈ Finset.univ.erase call, (phases other).conns :=
    (Finset.add_sum_erase _ _ (Finset.mem_univ call)).symm
  have others : ∑ other ∈ Finset.univ.erase call, (Function.update phases call phase other).conns =
      ∑ other ∈ Finset.univ.erase call, (phases other).conns := by
    refine Finset.sum_congr rfl fun other member => ?_
    rw [Function.update_of_ne (Finset.ne_of_mem_erase member)]
  rw [split, split phases, others, Function.update_self]
  abel

/-- A move keeps the account exactly when the connections that are live change by what the cache and the call
gain and lose. -/
theorem accounted_setPhase {clients : cache.State} {dialed : ℕ} {live : Multiset ℕ} {call : κ}
    {phase : PoolPhase} (accounted : pool.Accounted) (plus minus : Multiset ℕ)
    (balance : cache.values clients + phase.conns + minus =
      cache.values pool.clients + (pool.phases call).conns + plus) :
    ({ pool with clients, dialed, live }.setPhase call phase).Accounted ↔ live + minus = pool.live + plus := by
  have after : ({ pool with clients, dialed, live }.setPhase call phase).held + minus = pool.live + plus := by
    refine add_right_cancel (b := (pool.phases call).conns) ?_
    calc ({ pool with clients, dialed, live }.setPhase call phase).held + minus + (pool.phases call).conns
        = cache.values clients + minus +
            (∑ other, (Function.update pool.phases call phase other).conns + (pool.phases call).conns) := by
          rw [held, setPhase]
          abel
      _ = (cache.values clients + phase.conns + minus) + ∑ other, (pool.phases other).conns := by
          rw [sum_update]
          abel
      _ = pool.live + plus + (pool.phases call).conns := by
          rw [balance, accounted, held]
          abel
  rw [← after, add_left_inj]
  rfl

omit [DecidableEq κ] in
theorem conns_le_live (accounted : pool.Accounted) (call : κ) : (pool.phases call).conns ≤ pool.live := by
  rw [accounted, held]
  exact (Finset.single_le_sum (fun _ _ => Multiset.zero_le _) (Finset.mem_univ call)).trans (Multiset.le_add_left _ _)

/-- A move that adds nothing keeps the account. -/
theorem accounted_of_balance {clients : cache.State} {call : κ} {phase : PoolPhase} (accounted : pool.Accounted)
    (balance : cache.values clients + phase.conns = cache.values pool.clients + (pool.phases call).conns) :
    ({ pool with clients }.setPhase call phase).Accounted :=
  (accounted_setPhase accounted 0 0 (by rw [add_zero, add_zero, balance])).mpr rfl

/-- The connection that is added is cached, or the one that it replaces stays live without an owner. -/
theorem accounted_add_iff {call : κ} {addr : String} {conn : ℕ} (accounted : pool.Accounted)
    (adding : pool.phases call = .adding addr conn) :
    ({ pool with clients := (cache.add pool.clients addr conn).1 }.setPhase call
      (.closing ((cache.add pool.clients addr conn).2.map Prod.snd))).Accounted ↔ addr ∉ cache.keys pool.clients := by
  by_cases present : addr ∈ cache.keys pool.clients
  · obtain ⟨kept, old, replaced⟩ := cache.values_add_of_mem conn present
    refine iff_of_false ?_ (not_not_intro present)
    rw [accounted_setPhase accounted 0 {old}]
    · intro same
      simp at same
    · rw [kept, adding]
      simp only [PoolPhase.conns, List.map_nil, Multiset.coe_nil, add_zero]
      rw [add_comm, Multiset.singleton_add, replaced, add_comm, Multiset.singleton_add]
  · refine iff_of_true (accounted_of_balance accounted ?_) present
    rw [adding]
    simp only [PoolPhase.conns]
    rw [cache.values_add_of_notMem conn present, add_comm, Multiset.singleton_add]

theorem accounted_close {call : κ} {conn : ℕ} {conns : List ℕ} (accounted : pool.Accounted)
    (closing : pool.phases call = .closing (conn :: conns)) :
    ({ pool with live := pool.live.erase conn }.setPhase call (.closing conns)).Accounted := by
  have owned : conn ∈ pool.live := by
    refine Multiset.mem_of_le (conns_le_live accounted call) ?_
    simp [closing, PoolPhase.conns]
  refine (accounted_setPhase accounted 0 {conn} ?_).mpr ?_
  · simp only [closing, PoolPhase.conns, add_zero]
    rw [← Multiset.cons_coe, ← Multiset.singleton_add]
    abel
  · rw [add_comm, Multiset.singleton_add, Multiset.cons_erase owned, add_zero]

theorem accounted_step_iff (accounted : pool.Accounted) (moved : pool.Moves move next) :
    next.Accounted ↔ pool.AddsMissing move := by
  by_cases adds : ∃ addr conn, pool.phases move.1 = .adding addr conn
  · obtain ⟨addr, conn, adding⟩ := adds
    simp only [Moves, step, adding, Option.some.injEq] at moved
    subst moved
    rw [accounted_add_iff accounted adding]
    refine ⟨fun absent other _ again => ?_, fun missing => missing addr conn adding⟩
    rw [adding] at again
    cases again
    exact absent
  -- Nothing else takes an owner from a connection.
  · refine iff_of_true ?_ fun addr conn adding => absurd ⟨addr, conn, adding⟩ adds
    unfold Moves step at moved
    split at moved
    · next addr ready =>
      have same := cache.values_get pool.clients addr
      split at moved
      all_goals
        next clients got =>
        rw [got] at same
        cases moved
        refine accounted_of_balance accounted ?_
        simp [ready, PoolPhase.conns, same]
    · next addr ready =>
      cases moved
      refine accounted_of_balance accounted ?_
      simp [ready, PoolPhase.conns, cache.values_remove]
    · next ready =>
      cases moved
      refine accounted_of_balance accounted ?_
      simp [ready, PoolPhase.conns, cache.values_purge]
    · next addr dialing =>
      split at moved
      · cases moved
        refine (accounted_setPhase accounted {pool.dialed} 0 ?_).mpr ?_
        · simp [dialing, PoolPhase.conns]
        · rw [add_zero, ← Multiset.singleton_add, add_comm]
      · cases moved
        refine accounted_of_balance accounted ?_
        simp [dialing, PoolPhase.conns]
    · next addr conn adding => exact absurd ⟨addr, conn, adding⟩ adds
    · next conn conns closing =>
      cases moved
      exact accounted_close accounted closing
    · cases moved

/-- Along any interleaving of calls, every connection that was dialed and not closed is in the cache or with a call
until a `get` adds an address that is in the cache by then. -/
theorem connections_accounted_iff (calls : κ → PoolCall) (path : Path Moves (newGrpcClientPool calls) moves pool) :
    Always Moves (newGrpcClientPool calls : ClientPool κ cache) moves Accounted ↔
      AlwaysStep Moves (newGrpcClientPool calls : ClientPool κ cache) moves AddsMissing := by
  refine always_iff moves_determined path ?_ fun _ _ _ _ _ _ _ accounted moved => accounted_step_iff accounted moved
  simp [Accounted, held, newGrpcClientPool, PoolPhase.conns, cache.values_empty]

/-- Two calls of `get`, each of which looks up, dials and adds, in turns. -/
def racingGets : List (Bool × Bool) :=
  [(false, true), (true, true), (false, true), (true, true), (false, true), (true, true)]

/-- Where two calls of `get` miss the same address, a connection stays live without an owner. -/
theorem racing_gets_leak :
    (∃ pool : ClientPool Bool (.single String ℕ),
      Path Moves (newGrpcClientPool fun _ => .get "host:80") racingGets pool) ∧
      ¬ Always Moves (newGrpcClientPool fun _ => .get "host:80" : ClientPool Bool (.single String ℕ)) racingGets
        Accounted := by
  have path : Path Moves (newGrpcClientPool fun _ => .get "host:80" : ClientPool Bool (.single String ℕ)) racingGets
      _ :=
    Path.iff_foldlM.mpr rfl
  refine ⟨⟨_, path⟩, ?_⟩
  rw [connections_accounted_iff _ path]
  intro missing
  refine missing (racingGets.take 5) (true, true) [] _ rfl (Path.iff_foldlM.mpr rfl) "host:80" 1 rfl ?_
  decide

end Accounting

end ClientPool

end Zongzi
