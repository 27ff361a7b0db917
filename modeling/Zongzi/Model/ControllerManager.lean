import Zongzi.Machine.Actors
import Zongzi.Model.Agent

/-! # Controller managers at work

Every agent's controller manager runs `tick` again and again while commands from elsewhere reach the
registry. Here a tick also returns a log of its calls of the controller. Without the log it is `tick`
(`fst_tickLogged`).
-/

namespace Zongzi

open Machine

/-- A call of the controller and how it ended. -/
structure Reconciled where
  snapshot : Snapshot
  shard : Shard
  err : Option String
  /-- The controls created or deleted a replica. -/
  updated : Bool

section Logged

def reconcileShardsLogged (controller : Controller) (snapshot : Snapshot) :
    List Shard → (updated hadErr : Bool) → AgentM ((Bool × Bool) × List Reconciled)
  | [], updated, hadErr => return ((updated, hadErr), [])
  | shard :: shards, updated, hadErr => do
    if ← Program.perform AgentOp.cancelled then return ((updated, hadErr), [])
    else if shard.id = ShardID then reconcileShardsLogged controller snapshot shards updated hadErr
    else
      let (err, updated) ← ((controller snapshot shard).interpret controls).run false
      let failed ← reportError shard err
      let hadErr := hadErr || failed
      if updated then return ((updated, hadErr), [⟨snapshot, shard, err, updated⟩])
      else
        let (flags, log) ← reconcileShardsLogged controller snapshot shards updated hadErr
        return (flags, ⟨snapshot, shard, err, updated⟩ :: log)

def tickPassesLogged (controller : Controller) (after : ℕ) :
    (fuel index : ℕ) → (updated hadErr : Bool) → AgentM ((ℕ × Bool) × List Reconciled)
  | 0, index, _, _ => return ((index, true), [])
  | fuel + 1, index, updated, hadErr => do
    match ← readState with
    | .error _ => return ((index, true), [])
    | .ok snapshot =>
      let ((updated, hadErr), log) ← reconcileShardsLogged controller snapshot
        (snapshot.state.shardIterateUpdatedAfter after) updated hadErr
      if updated then
        let (outcome, rest) ← tickPassesLogged controller after fuel snapshot.state.index updated hadErr
        return (outcome, log ++ rest)
      else return ((snapshot.state.index, hadErr), log)

def tickLogged (controller : Controller) (isLeader : Bool) (fuel index : ℕ) :
    AgentM (ℕ × List Reconciled) := do
  if isLeader then
    let ((reached, hadErr), log) ← tickPassesLogged controller index fuel 0 false false
    return (if !hadErr && index < reached then reached else index, log)
  else return (index, [])

theorem fst_reconcileShardsLogged (controller : Controller) (snapshot : Snapshot) (shards : List Shard)
    (updated hadErr : Bool) :
    Prod.fst <$> reconcileShardsLogged controller snapshot shards updated hadErr =
      reconcileShards controller snapshot shards updated hadErr := by
  induction shards generalizing updated hadErr with
  | nil => rfl
  | cons shard shards ih =>
    simp only [reconcileShardsLogged, reconcileShards, map_bind]
    refine bind_congr fun cancelled => ?_
    split
    · rfl
    · split
      · exact ih updated hadErr
      · simp only [map_bind]
        refine bind_congr fun (err, updated) => bind_congr fun failed => ?_
        dsimp only
        split
        · rfl
        · simp only [← ih, bind_pure_comp, Functor.map_map]

theorem fst_tickPassesLogged (controller : Controller) (after fuel index : ℕ) (updated hadErr : Bool) :
    Prod.fst <$> tickPassesLogged controller after fuel index updated hadErr =
      tickPasses controller after fuel index updated hadErr := by
  induction fuel generalizing index updated hadErr with
  | zero => rfl
  | succ fuel ih =>
    simp only [tickPassesLogged, tickPasses, map_bind]
    refine bind_congr fun answer => ?_
    cases answer with
    | error err => rfl
    | ok snapshot =>
      simp only [← fst_reconcileShardsLogged, map_bind, bind_map_left]
      refine bind_congr fun ((updated, hadErr), log) => ?_
      dsimp only
      split
      · simp only [← ih, bind_pure_comp, Functor.map_map]
      · rfl

/-- The log changes nothing else. -/
theorem fst_tickLogged (controller : Controller) (isLeader : Bool) (fuel index : ℕ) :
    Prod.fst <$> tickLogged controller isLeader fuel index = tick controller isLeader fuel index := by
  unfold tickLogged tick
  split
  · simp only [← fst_tickPassesLogged, map_bind, map_pure, bind_map_left]
  · rfl

end Logged

section System

/-- Raft numbers entries with 64 bits, and nothing is cancelled. -/
def Choice.isRegular : Choice → Bool
  | .applied index => index < 2 ^ 64
  | .timedOut index _ => index < 2 ^ 64
  | .flag value => !value
  | _ => true

def Cluster.serveRegular : Serve Cluster AgentOp AgentRes Choice := fun cluster op choice =>
  if choice.isRegular then Cluster.serve cluster op choice else none

/-- Apply an entry that was proposed elsewhere. -/
def Cluster.take (cluster : Cluster) (entry : Entry) : Option Cluster :=
  if cluster.registry.index < entry.index ∧ entry.index < 2 ^ 64 then
    match Fsm.update cluster.registry entry with
    | .ok (registry, _) => some { cluster with registry }
    | .error _ => none
  else none

/-- The index of a controller manager, with the log of its ticks so far. -/
structure Manager where
  index : ℕ := 0
  history : List Reconciled := []

/-- Controller managers beside everything else that reaches the registry. A tick is started with the
leadership it finds and with any fuel. -/
def managers (serve : Serve Cluster AgentOp AgentRes Choice) (controller : Controller) (ι : Type) :
    ActorSystem Cluster Entry ι Manager (Bool × ℕ) AgentOp AgentRes Choice (ℕ × List Reconciled) where
  serve
  outside := Cluster.take
  start _ := fun (isLeader, fuel) manager => tickLogged controller isLeader fuel manager.index
  finish _ manager := fun (index, log) => { index, history := manager.history ++ log }

/-- Managers that have not ticked yet. -/
def idleManagers {ι : Type} (cluster : Cluster) :
    Actors Cluster ι Manager AgentOp AgentRes (ℕ × List Reconciled) where
  shared := cluster
  memory _ := {}
  running _ := none

end System

end Zongzi
