import Zongzi.Model.ControllerManager
import Zongzi.Proofs.ChangeTracking
import Zongzi.Proofs.Cluster

/-! # What the controller managers have seen

A tick raises the index of its manager only after a pass over one snapshot in which every shard updated
since the old index went through the controller without an error and without an update. Shards stamp their
updates with later indexes, so no later state has an update below the new index that the manager has not
seen.
-/

namespace Zongzi

open Machine Relation

section Registry

variable {cluster next : Cluster} {choice : Choice} {op : AgentOp} {answer : AgentRes op}

/-- The registry takes some entry. -/
def Fsm.Progress (before after : State) : Prop := ∃ entry, Advances before entry after

theorem Cluster.take_eq_some {entry : Entry} (taken : cluster.take entry = some next) :
    Fsm.Advances cluster.registry entry next.registry ∧ next = { cluster with registry := next.registry } := by
  unfold take at taken
  split at taken
  · next numbered =>
    split at taken
    · next registry result updated =>
      cases taken
      exact ⟨⟨numbered.1, numbered.2, result, updated⟩, rfl⟩
    · cases taken
  · cases taken

theorem Cluster.serveRegular_eq_some (served : serveRegular cluster op choice = some (answer, next)) :
    choice.isRegular ∧ serve cluster op choice = some (answer, next) := by
  unfold serveRegular at served
  split at served
  · next regular => exact ⟨regular, served⟩
  · cases served

/-- A call leaves the registry alone or takes it one entry further. -/
theorem Cluster.progress_of_serve (served : serveRegular cluster op choice = some (answer, next)) :
    next.registry = cluster.registry ∨
      ∃ cmd index, op = .propose cmd ∧ Fsm.Advances cluster.registry { index, cmd } next.registry := by
  obtain ⟨regular, served⟩ := serveRegular_eq_some served
  by_cases proposal : ∃ cmd, op = .propose cmd
  · obtain ⟨cmd, rfl⟩ := proposal
    cases choice with
    | applied index =>
      obtain ⟨⟨result, _⟩, applied, same⟩ := Option.map_eq_some_iff.mp served
      obtain ⟨later, registry, updated, rfl⟩ := apply_eq_some_iff.mp applied
      cases same
      exact .inr ⟨cmd, index, rfl, later, of_decide_eq_true regular, result, updated⟩
    | timedOut index err =>
      obtain ⟨⟨result, _⟩, applied, same⟩ := Option.map_eq_some_iff.mp served
      obtain ⟨later, registry, updated, rfl⟩ := apply_eq_some_iff.mp applied
      cases same
      exact .inr ⟨cmd, index, rfl, later, of_decide_eq_true regular, result, updated⟩
    | failed err =>
      cases served
      exact .inl rfl
    | _ => cases served
  · push Not at proposal
    exact .inl (registry_of_serve served proposal)

/-- No answer reports a cancellation. -/
def uncancelled : (op : AgentOp) → AgentRes op → Prop
  | .cancelled, answer => answer = false
  | _, _ => True

theorem uncancelled_of_serve (served : Cluster.serveRegular cluster op choice = some (answer, next)) :
    uncancelled op answer := by
  obtain ⟨regular, served⟩ := Cluster.serveRegular_eq_some served
  cases op with
  | cancelled =>
    cases choice with
    | flag value =>
      cases served
      cases answer with
      | false => rfl
      | true => cases regular
    | _ => cases served
  | _ => trivial

end Registry

namespace Fsm

/-- The update times of the shards. -/
def shardStamps : Tracking State ℕ Unit where
  clock := State.index
  stamp state id := (state.shard id).map Shard.updated
  view _ _ := ()
  keeps := Eq

theorem Advances.index_le {before after : State} {entry : Entry} (advances : Advances before entry after) :
    before.index ≤ after.index := by
  obtain rfl | moved := advances.applies.index
  · exact le_rfl
  · exact advances.later.le.trans moved.ge

theorem shardStamps_tracks : shardStamps.Tracks Progress where
  refl _ := rfl
  trans := Eq.trans
  clock := fun ⟨_, advances⟩ => advances.index_le
  stamps := by
    rintro before after id time ⟨entry, later, -, result, updated⟩ stamped
    obtain ⟨shard, found, rfl⟩ := Option.map_eq_some_iff.mp stamped
    obtain fresh | same | ⟨stored, tags, present, -, rfl⟩ := (update_ledger updated).shard_delta found
    · exact .inl (fresh ▸ later)
    · have same : before.shard id = some shard := same
      exact .inr ⟨by simp [shardStamps, same], rfl⟩
    · have same : before.shard id = some stored := present
      exact .inr ⟨by simp [shardStamps, same], rfl⟩

end Fsm

section Ticks

variable {controller : Controller} {snapshot : Snapshot} {holds : Reconciled → Prop}
  {possible : (op : AgentOp) → AgentRes op → Prop}

theorem reportError_returns (shard : Shard) (err : Option String) :
    (reportError shard err).Returns possible (· = err.isSome) := by
  cases err with
  | none =>
    simp only [reportError]
    split
    · exact .bind (.any _) fun _ _ => rfl
    · rfl
  | some err => exact .bind (.any _) fun _ _ => rfl

/-- A pass that ends without an update and without an error has taken every shard through the controller
without either. -/
theorem reconcileShardsLogged_returns (uncancelling : ∀ answer, possible .cancelled answer → answer = false)
    (reconciles : ∀ shard, (((controller snapshot shard).interpret controls).run false).Returns possible
      fun (err, updated) => holds ⟨snapshot, shard, err, updated⟩)
    (shards : List Shard) (updated hadErr : Bool) :
    (reconcileShardsLogged controller snapshot shards updated hadErr).Returns possible
      fun ((updated, failed), log) => (∀ event ∈ log, holds event) ∧ (hadErr → failed) ∧
        (updated = false → failed = false → ∀ shard ∈ shards, shard.id ≠ ShardID →
          ⟨snapshot, shard, none, false⟩ ∈ log) := by
  induction shards generalizing updated hadErr with
  | nil => exact ⟨by simp, id, by simp⟩
  | cons shard shards ih =>
    intro cancelled answered
    cases uncancelling cancelled answered
    dsimp only
    split
    · next prime =>
      refine (ih updated hadErr).mono fun ((updated, failed), log) ⟨held, kept, passed⟩ => ?_
      refine ⟨held, kept, fun quiet fine other member distinct => ?_⟩
      obtain rfl | member := List.mem_cons.mp member
      · exact absurd prime distinct
      · exact passed quiet fine other member distinct
    · refine (reconciles shard).bind fun (err, updated) held => ?_
      refine (reportError_returns shard err).bind fun failed same => ?_
      subst same
      dsimp only
      split
      · next updates =>
        refine ⟨by simpa using held, fun had => by simp [had], fun quiet => ?_⟩
        cases updates.symm.trans quiet
      · next quiet =>
        obtain rfl : updated = false := by simpa using quiet
        refine (ih false (hadErr || err.isSome)).bind fun ((updated, failed), log) ⟨rest, kept, passed⟩ => ?_
        refine ⟨by simpa using ⟨held, rest⟩, fun had => kept (by simp [had]), ?_⟩
        intro quiet fine other member distinct
        obtain rfl | member := List.mem_cons.mp member
        · have unfailing : err = none := by
            cases err with
            | none => rfl
            | some err => cases fine.symm.trans (kept (by simp))
          simp [unfailing]
        · exact List.mem_cons_of_mem _ (passed quiet fine other member distinct)

theorem reconcileShardsLogged_onlyCalls {allowed : AgentOp → Prop} (cancelled : allowed .cancelled)
    (reconciles : ∀ shard, (((controller snapshot shard).interpret controls).run false).OnlyCalls allowed)
    (reports : ∀ shard err, (reportError shard err).OnlyCalls allowed) (shards : List Shard)
    (updated hadErr : Bool) :
    (reconcileShardsLogged controller snapshot shards updated hadErr).OnlyCalls allowed := by
  induction shards generalizing updated hadErr with
  | nil => trivial
  | cons shard shards ih =>
    refine .bind (.perform cancelled) fun _ => ?_
    split
    · trivial
    · split
      · exact ih updated hadErr
      · refine .bind (reconciles shard) fun (err, updated) => .bind (reports shard err) fun failed => ?_
        dsimp only
        split
        · trivial
        · exact .bind (ih ..) fun _ => trivial

end Ticks

/-- What a manager is verified against: how the registry moves, what is tracked of the shards, and what a
call of the controller without an error and without an update says about a shard. -/
structure Watch (serve : Serve Cluster AgentOp AgentRes Choice) (controller : Controller) (ν : Type) where
  Step : State → State → Prop
  permits : State → Entry → Prop
  allowed : AgentOp → Prop
  possible : (op : AgentOp) → AgentRes op → Prop
  faithful : Snapshot → Prop
  tracking : Tracking State ℕ ν
  holds : Reconciled → Prop
  done : List Reconciled → ℕ → ℕ → ν → Prop
  clock : tracking.clock = State.index
  stamp : ∀ state id, tracking.stamp state id = (state.shard id).map Shard.updated
  tracks : tracking.Tracks Step
  outside : ∀ {cluster next : Cluster} {entry : Entry}, permits cluster.registry entry →
    cluster.take entry = some next → Step cluster.registry next.registry
  calls : ∀ {cluster next : Cluster} {op choice answer}, allowed op →
    serve cluster op choice = some (answer, next) → ReflTransGen Step cluster.registry next.registry
  reads : ∀ {cluster next : Cluster} {choice snapshot},
    serve cluster .read choice = some (.ok snapshot, next) → snapshot.state = cluster.registry ∧ faithful snapshot
  answers : ∀ {cluster next : Cluster} {op choice answer},
    serve cluster op choice = some (answer, next) → possible op answer
  uncancelling : ∀ answer, possible .cancelled answer → answer = false
  allows_read : allowed .read
  allows_cancelled : allowed .cancelled
  allows_controller : ∀ snapshot shard,
    (((controller snapshot shard).interpret controls).run false).OnlyCalls allowed
  allows_report : ∀ shard err, (reportError shard err).OnlyCalls allowed
  reconciles : ∀ snapshot shard, (((controller snapshot shard).interpret controls).run false).Returns possible
    fun (err, updated) => holds ⟨snapshot, shard, err, updated⟩
  covers : ∀ {log snapshot shard}, faithful snapshot → snapshot.state.shard shard.id = some shard →
    shard.id ≠ ShardID → ⟨snapshot, shard, none, false⟩ ∈ log → holds ⟨snapshot, shard, none, false⟩ →
      done log shard.id shard.updated (tracking.view snapshot.state shard.id)
  grows : ∀ {log rest id time view}, done log id time view → done (log ++ rest) id time view
  keeps : ∀ {log id time old new}, tracking.keeps old new → done log id time old → done log id time new

namespace Watch

variable {serve : Serve Cluster AgentOp AgentRes Choice} {controller : Controller} {ν ι : Type}
  (watch : Watch serve controller ν) {origin : State} {mark : ℕ}

/-- A snapshot of this index whose shards updated after the mark all went through the controller. -/
def Raised (origin : State) (mark index : ℕ) (log : List Reconciled) (registry : State) : Prop :=
  ∃ snapshot : Snapshot, ReflTransGen watch.Step origin snapshot.state ∧
    ReflTransGen watch.Step snapshot.state registry ∧ snapshot.state.index = index ∧
    watch.faithful snapshot ∧
    ∀ id shard, id ≠ ShardID → snapshot.state.shard id = some shard → mark < shard.updated →
      ⟨snapshot, shard, none, false⟩ ∈ log

/-- The registry comes from the origin, the manager's index is not ahead of it, and what it marks off has
been dealt with. -/
structure Seen (origin : State) (registry : State) (manager : Manager) : Prop where
  reached : ReflTransGen watch.Step origin registry
  behind : manager.index ≤ registry.index
  covered : watch.tracking.Covered (fun id time view => id ≠ ShardID → 0 < time →
    watch.done manager.history id time view) manager.index registry

def contract (origin : State) : (managers serve controller ι).Contract where
  rely before after := ReflTransGen watch.Step before.registry after.registry
  permits cluster entry := watch.permits cluster.registry entry
  guard _ _ op := watch.allowed op
  inv _ cluster manager := watch.Seen origin cluster.registry manager
  post _ manager := fun (index, log) cluster =>
    watch.Seen origin cluster.registry { index, history := manager.history ++ log } ∧
      (manager.index < index → watch.Raised origin manager.index index log cluster.registry)

variable {watch} {registry after : State} {manager : Manager} {log rest : List Reconciled} {index : ℕ}

theorem Seen.step (seen : watch.Seen origin registry manager) (stepped : watch.Step registry after) :
    watch.Seen origin after manager := by
  have within : manager.index ≤ watch.tracking.clock registry := watch.clock ▸ seen.behind
  have onwards := watch.tracks.clock stepped
  rw [watch.clock] at onwards
  exact ⟨seen.reached.tail stepped, seen.behind.trans onwards,
    watch.tracks.covered_step (fun kept dealt distinct positive =>
      watch.keeps kept (dealt distinct positive)) seen.covered within stepped⟩

theorem Seen.steps (seen : watch.Seen origin registry manager)
    (steps : ReflTransGen watch.Step registry after) : watch.Seen origin after manager := by
  induction steps with
  | refl => exact seen
  | tail _ stepped ih => exact ih.step stepped

theorem Seen.grow (seen : watch.Seen origin registry manager) (log : List Reconciled) :
    watch.Seen origin registry { manager with history := manager.history ++ log } :=
  ⟨seen.reached, seen.behind, fun id time stamped early distinct positive =>
    watch.grows (seen.covered id time stamped early distinct positive)⟩

/-- A pass over a whole snapshot raises the index of the manager to that of the snapshot. -/
theorem Seen.raise (seen : watch.Seen origin registry manager)
    (raised : watch.Raised origin manager.index index log registry) (held : ∀ event ∈ log, watch.holds event) :
    watch.Seen origin registry { index, history := manager.history ++ log } := by
  obtain ⟨snapshot, -, onwards, rfl, faithful, passed⟩ := raised
  have clock := watch.tracks.clock_le onwards
  rw [watch.clock] at clock
  refine ⟨seen.reached, clock, ?_⟩
  refine watch.tracks.covered_raise (fun kept dealt distinct positive =>
    watch.keeps kept (dealt distinct positive)) onwards (seen.grow log).covered (watch.clock ▸ le_rfl) ?_
  intro id time stamped new _ distinct _
  rw [watch.stamp] at stamped
  obtain ⟨shard, found, rfl⟩ := Option.map_eq_some_iff.mp stamped
  obtain rfl := State.shard_id found
  have member := passed _ shard distinct found new
  exact watch.covers faithful found distinct (List.mem_append_right _ member) (held _ member)

theorem Raised.steps (raised : watch.Raised origin mark index log registry)
    (steps : ReflTransGen watch.Step registry after) : watch.Raised origin mark index log after := by
  obtain ⟨snapshot, before, onwards, rest⟩ := raised
  exact ⟨snapshot, before, onwards.trans steps, rest⟩

theorem Raised.append (raised : watch.Raised origin mark index rest registry) (log : List Reconciled) :
    watch.Raised origin mark index (log ++ rest) registry := by
  obtain ⟨snapshot, before, after, same, faithful, passed⟩ := raised
  exact ⟨snapshot, before, after, same, faithful, fun id shard distinct found new =>
    List.mem_append_right _ (passed id shard distinct found new)⟩

theorem mem_updatedAfter {state : State} {id : ℕ} {shard : Shard} (found : state.shard id = some shard)
    (new : mark < shard.updated) : shard ∈ state.shardIterateUpdatedAfter mark := by
  refine State.mem_shardIterateUpdatedAfter.mpr ⟨(State.shard_id found).symm ▸ found, ?_⟩
  have := Nat.mod_le (mark + 1) (2 ^ 64)
  omega

section Verify

variable (watch) (i : ι) {cluster next : Cluster}

theorem steps_of_rely (others : ReflTransGen (watch.contract (ι := ι) origin).rely cluster next) :
    ReflTransGen watch.Step cluster.registry next.registry := by
  induction others with
  | refl => exact .refl
  | tail _ steps ih => exact ih.trans steps

theorem reconcileShardsLogged_ensures (snapshot : Snapshot) (shards : List Shard) (updated hadErr : Bool) :
    (watch.contract origin).Ensures i (reconcileShardsLogged controller snapshot shards updated hadErr) cluster
      fun ((updated, failed), log) after => ((∀ event ∈ log, watch.holds event) ∧ (hadErr → failed) ∧
        (updated = false → failed = false → ∀ shard ∈ shards, shard.id ≠ ShardID →
          ⟨snapshot, shard, none, false⟩ ∈ log)) ∧
        ReflTransGen (watch.contract (ι := ι) origin).rely cluster after := by
  have only := reconcileShardsLogged_onlyCalls watch.allows_cancelled (watch.allows_controller snapshot)
    watch.allows_report shards updated hadErr
  have returns := reconcileShardsLogged_returns watch.uncancelling (watch.reconciles snapshot) shards
    updated hadErr
  exact .of_returns (fun _ allowed => allowed) watch.answers
    (fun allowed served => .single (watch.calls allowed served)) only returns

theorem tickPassesLogged_ensures (fuel index : ℕ) (updated hadErr : Bool)
    (reached : ReflTransGen watch.Step origin cluster.registry) :
    (watch.contract origin).Ensures i (tickPassesLogged controller mark fuel index updated hadErr) cluster
      fun ((index, failed), log) after => (∀ event ∈ log, watch.holds event) ∧
        (failed = false → watch.Raised origin mark index log after.registry) := by
  induction fuel generalizing index updated hadErr cluster with
  | zero => exact fun _ _ => ⟨by simp, by simp⟩
  | succ fuel ih =>
    intro before others
    refine ⟨watch.allows_read, fun choice answer after served => ?_⟩
    cases answer with
    | error err => exact fun _ _ => ⟨by simp, by simp⟩
    | ok snapshot =>
      obtain ⟨same, faithful⟩ := watch.reads served
      have taken := reached.trans (watch.steps_of_rely others)
      have kept := watch.calls watch.allows_read served
      refine (watch.reconcileShardsLogged_ensures i snapshot _ updated hadErr).bind
        fun ((updated, failed), log) middle ⟨⟨held, _, passed⟩, onwards⟩ => ?_
      have steps := kept.trans (watch.steps_of_rely onwards)
      dsimp only
      split
      · refine (ih snapshot.state.index updated failed (taken.trans steps)).bind
          fun ((index, failed), rest) last ⟨more, raised⟩ => ?_
        intro final others
        refine ⟨List.forall_mem_append.mpr ⟨held, more⟩, fun fine => ?_⟩
        exact ((raised fine).steps (watch.steps_of_rely others)).append log
      · next quiet =>
        intro last others
        refine ⟨held, fun fine => ⟨snapshot, same ▸ taken, ?_, rfl, faithful, ?_⟩⟩
        · exact same ▸ steps.trans (watch.steps_of_rely others)
        · intro id shard distinct found new
          exact passed (by simpa using quiet) fine shard (mem_updatedAfter found new)
            ((State.shard_id found).symm ▸ distinct)

theorem tickLogged_ensures (isLeader : Bool) (fuel : ℕ) {manager : Manager}
    (seen : watch.Seen origin cluster.registry manager) :
    (watch.contract origin).Ensures i (tickLogged controller isLeader fuel manager.index) cluster
      ((watch.contract origin).post i manager) := by
  unfold tickLogged
  split
  · refine ((watch.tickPassesLogged_ensures i fuel 0 false false seen.reached).reaches
      fun allowed served => .single (watch.calls allowed served)).bind
      fun ((reached, failed), log) middle ⟨⟨held, raised⟩, onwards⟩ => ?_
    intro last others
    have steps := watch.steps_of_rely (onwards.trans others)
    have seen := seen.steps steps
    by_cases raises : (!failed && decide (manager.index < reached)) = true
    · rw [if_pos raises]
      simp only [Bool.and_eq_true, Bool.not_eq_true'] at raises
      have raised := (raised raises.1).steps (watch.steps_of_rely others)
      exact ⟨seen.raise raised held, fun _ => raised⟩
    · rw [if_neg raises]
      exact ⟨seen.grow log, fun raises => absurd raises (lt_irrefl _)⟩
  · intro last others
    exact ⟨(seen.steps (watch.steps_of_rely others)).grow [], fun raises => absurd raises (lt_irrefl _)⟩

theorem contract_valid : (watch.contract (ι := ι) origin).Valid where
  stable seen steps := seen.steps steps
  outside permits taken := .single (watch.outside permits taken)
  calls allowed served := .single (watch.calls allowed served)
  starts := fun (isLeader, fuel) seen => watch.tickLogged_ensures _ isLeader fuel seen
  finishes ended := ended.1

end Verify

/-- In every run, a tick that raises the index has taken every shard updated since through the controller
on one snapshot of the new index, and what the index marks off has been dealt with. -/
theorem always_seen [DecidableEq ι] (watch : Watch serve controller ν) (cluster : Cluster)
    (moves : List (Move Entry ι (Bool × ℕ) Choice))
    (permitted : AlwaysStep (managers serve controller ι).Steps (idleManagers cluster) moves
      (watch.contract cluster.registry).Permits) :
    (∀ front back before after (i : ι), moves = front ++ .finish i :: back →
      Path (managers serve controller ι).Steps (idleManagers cluster) front before →
      (managers serve controller ι).Steps before (.finish i) after →
      (before.memory i).index < (after.memory i).index →
      ∃ log, (after.memory i).history = (before.memory i).history ++ log ∧
        watch.Raised cluster.registry (before.memory i).index (after.memory i).index log
          after.shared.registry) ∧
    Always (managers serve controller ι).Steps (idleManagers cluster) moves fun actors =>
      ∀ i, watch.Seen cluster.registry actors.shared.registry (actors.memory i) := by
  have unseen (i : ι) : watch.Seen cluster.registry cluster.registry {} := by
    refine ⟨.refl, Nat.zero_le _, fun id time _ early _ positive => ?_⟩
    exact absurd positive (Nat.not_lt.mpr early)
  have kept := ActorSystem.Contract.always_kept watch.contract_valid
    (ActorSystem.Contract.kept_idle (fun _ => rfl) unseen) permitted
  refine ⟨?_, fun front back actors split reached i => (kept front back actors split reached).inv i⟩
  intro front back before after i split reached moved raises
  obtain ⟨⟨index, log⟩, done, rfl⟩ := ActorSystem.steps_finish moved
  obtain ⟨-, raised⟩ := (kept front _ before split reached).post done
  simp only [managers, Function.update_self] at raises ⊢
  exact ⟨log, rfl, raised raises⟩

end Watch

/-- Track the update times alone, for any controller. -/
def stampWatch (controller : Controller) : Watch Cluster.serveRegular controller Unit where
  Step := Fsm.Progress
  permits _ _ := True
  allowed _ := True
  possible := uncancelled
  faithful _ := True
  tracking := Fsm.shardStamps
  holds _ := True
  done log id time _ := ∃ event ∈ log, event.err = none ∧
    event.snapshot.state.shard id = some event.shard ∧ event.shard.updated = time
  clock := rfl
  stamp _ _ := rfl
  tracks := Fsm.shardStamps_tracks
  outside := fun _ taken => ⟨_, (Cluster.take_eq_some taken).1⟩
  calls := by
    intro cluster next op choice answer _ served
    obtain same | ⟨cmd, index, -, advances⟩ := Cluster.progress_of_serve served
    · rw [same]
    · exact .single ⟨_, advances⟩
  reads := by
    intro cluster next choice snapshot served
    obtain ⟨-, served⟩ := Cluster.serveRegular_eq_some served
    cases choice with
    | snapshot hostIterateByTag =>
      cases served
      exact ⟨rfl, trivial⟩
    | _ => cases served
  answers := uncancelled_of_serve
  uncancelling _ false_ := false_
  allows_read := trivial
  allows_cancelled := trivial
  allows_controller _ _ := .any _
  allows_report _ _ := .any _
  reconciles _ _ := .any _
  covers _ found _ member _ := ⟨_, member, rfl, found, rfl⟩
  grows := by
    rintro log rest id time view ⟨event, member, passed⟩
    exact ⟨event, List.mem_append_left _ member, passed⟩
  keeps _ dealt := dealt

/-- Whenever a tick raises the index of its manager, every shard of the snapshot with that index that was
updated since the old one went through the controller on this snapshot without an error. At any time, a
shard whose update time is within the index of a manager went through the controller with this update
time. -/
theorem manager_misses_no_shard {ι : Type} [DecidableEq ι] (controller : Controller) (cluster : Cluster)
    (moves : List (Move Entry ι (Bool × ℕ) Choice)) :
    (∀ front back before after (i : ι), moves = front ++ .finish i :: back →
      Path (managers Cluster.serveRegular controller ι).Steps (idleManagers cluster) front before →
      (managers Cluster.serveRegular controller ι).Steps before (.finish i) after →
      (before.memory i).index < (after.memory i).index →
      ∃ log, (after.memory i).history = (before.memory i).history ++ log ∧
        ∃ snapshot : Snapshot, ReflTransGen Fsm.Progress cluster.registry snapshot.state ∧
          ReflTransGen Fsm.Progress snapshot.state after.shared.registry ∧
          snapshot.state.index = (after.memory i).index ∧
          ∀ id shard, id ≠ ShardID → snapshot.state.shard id = some shard →
            (before.memory i).index < shard.updated →
            ∃ event ∈ log, event.snapshot = snapshot ∧ event.shard = shard ∧ event.err = none) ∧
    Always (managers Cluster.serveRegular controller ι).Steps (idleManagers cluster) moves fun actors =>
      ∀ i id shard, id ≠ ShardID → actors.shared.registry.shard id = some shard → 0 < shard.updated →
        shard.updated ≤ (actors.memory i).index →
        ∃ event ∈ (actors.memory i).history, event.err = none ∧
          event.snapshot.state.shard id = some event.shard ∧ event.shard.updated = shard.updated := by
  obtain ⟨raises, seen⟩ := (stampWatch controller).always_seen cluster moves
    fun _ _ _ _ _ _ _ _ => trivial
  refine ⟨?_, ?_⟩
  · intro front back before after i split reached moved raise
    obtain ⟨log, same, snapshot, earlier, later, index, -, passed⟩ :=
      raises front back before after i split reached moved raise
    refine ⟨log, same, snapshot, earlier, later, index, fun id shard distinct found new => ?_⟩
    exact ⟨_, passed id shard distinct found new, rfl, rfl, rfl⟩
  · intro front back actors split reached i id shard distinct found positive early
    have stamped : Fsm.shardStamps.stamp actors.shared.registry id = some shard.updated := by
      simp [Fsm.shardStamps, found]
    exact (seen front back actors split reached i).covered id _ stamped early distinct positive

/-- A tick over one shard raises the index. -/
example : ∃ last, Path (managers Cluster.serveRegular (fun _ _ => pure none) Unit).Steps
    (idleManagers { registry := {}, agents := fun _ => {} })
    [.outside { index := 1, cmd := newCmdShardPost { name := "a" } }, .start () (true, 1),
      .call () (.snapshot fun _ => []), .call () (.flag false), .finish ()] last ∧
    (last.memory ()).index = 1 :=
  ⟨_, ActorSystem.path_iff_run.mpr rfl, rfl⟩

end Zongzi
