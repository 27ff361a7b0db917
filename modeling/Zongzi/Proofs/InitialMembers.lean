import Zongzi.Proofs.HostController

/-! # The initial members of a shard

A host controller starts a bootstrapping replica with the members that its own snapshot shows, once these are
three. Every further voting replica changes what later snapshots show, so controllers agree on the members as
long as no voting replica is posted beyond the third.
-/

namespace Zongzi

open Std Machine Relation

/-- No replica is rewritten or removed, and no member is added to a shard with three. -/
def Cmd.findsRoom (shard : ℕ) (registry : State) : Cmd → Bool
  | .replica .post named =>
    named.shardID ≠ shard || named.isNonVoting || (registry.shardMembers shard).size < 3
  | .replica .put _ | .replica .del _ | .host .del _ | .shard .del _ => false
  | _ => true

section Registry

variable {shard : ℕ} {before after : State} {entry : Entry}

/-- A voting replica of a shard and its host. -/
def Ledger.Member (ledger : Ledger) (shard id : ℕ) (host : String) : Prop :=
  ∃ replica, ledger.replicas id = some replica ∧ replica.shardID = shard ∧
    replica.isNonVoting = false ∧ replica.hostID = host

theorem Ledger.Step.member_iff {ledger next : Ledger} (step : ledger.Step entry next)
    (vacant : ledger.Vacant entry) (room : entry.cmd.findsRoom shard before)
    (three : 3 ≤ (before.shardMembers shard).size) {id : ℕ} {host : String} :
    next.Member shard id host ↔ ledger.Member shard id host := by
  cases step with
  | @host key record write =>
    have stays : record ≠ none := by
      rintro rfl
      generalize ledger.hosts key = stored at write
      cases write with
      | del cmd => simp [cmd, Cmd.findsRoom] at room
    simp [Member, PartialTable.dropWhere_eq_some_iff, stays]
  | shard write =>
    have stays : ¬ ∃ shard, entry.cmd = .shard .del shard := by
      rintro ⟨_, cmd⟩
      simp [cmd, Cmd.findsRoom] at room
    simp [Member, PartialTable.dropWhere_eq_some_iff, stays]
  | replicaPost cmd fresh =>
    have free := vacant.2 _ cmd
    rw [← fresh] at free
    simp only [cmd, Cmd.findsRoom, Bool.or_eq_true, decide_eq_true_eq, Nat.not_lt.mpr three, or_false] at room
    constructor
    · rintro ⟨stored, found, ofShard, voting, hosted⟩
      obtain kept | ⟨-, written⟩ := PartialTable.of_update found
      · exact ⟨stored, kept, ofShard, voting, hosted⟩
      · cases written
        obtain other | silent := room
        · exact absurd ofShard other
        · cases silent.symm.trans voting
    · rintro ⟨stored, found, rest⟩
      refine ⟨stored, (Function.update_of_ne ?_ ..).trans found, rest⟩
      rintro rfl
      cases free.symm.trans found
  | @replica other stored owner record present write hosted =>
    by_cases same : id = other
    · subst same
      cases write with
      | status => simp [Member, present]
      | tags => simp [Member, present]
      | put cmd => simp [cmd, Cmd.findsRoom] at room
      | del cmd => simp [cmd, Cmd.findsRoom] at room
    · simp [Member, Function.update_of_ne same]
  | _ => rfl

/-- One entry that adds no member to three. -/
def Fsm.Gathers (shard : ℕ) (before after : State) : Prop :=
  before.Orderly ∧ ∃ entry, Advances before entry after ∧ entry.cmd.findsRoom shard before

theorem Fsm.Gathers.orderly (step : Gathers shard before after) : after.Orderly := by
  obtain ⟨orderly, entry, advances, -⟩ := step
  exact advances.orderly orderly

/-- Once there are three members, they stay as they are. -/
theorem Fsm.Gathers.members (step : Gathers shard before after)
    (three : 3 ≤ (before.shardMembers shard).size) :
    after.shardMembers shard = before.shardMembers shard := by
  obtain ⟨orderly, entry, advances, room⟩ := step
  obtain ⟨result, updated⟩ := advances.applies
  have members (state : State) (id : ℕ) (host : String) :
      (state.shardMembers shard)[id]? = some host ↔ state.ledger.Member shard id host :=
    State.getElem?_shardMembers_eq_some_iff
  refine ExtTreeMap.ext_getElem? fun id => Option.ext fun host => ?_
  rw [members, members]
  exact (Fsm.update_ledger updated).member_iff (advances.vacant orderly) room three

theorem Fsm.members_of_steps (steps : ReflTransGen (Gathers shard) before after)
    (three : 3 ≤ (before.shardMembers shard).size) :
    after.shardMembers shard = before.shardMembers shard := by
  induction steps with
  | refl => rfl
  | tail _ step ih => exact (step.members (ih ▸ three)).trans ih

end Registry

namespace HostController

variable {ι : Type} {setups : ι → Setup} {cluster next : Cluster} {shard : ℕ}

/-- The initial members with which a program is about to start a replica of the shard. -/
def initialMembers (shard : ℕ) {ρ : Type} : Program HostOp HostRes ρ → Option (ExtTreeMap ℕ String)
  | .call (.startReplica _ (some members) false config) _ => if config.shardID = shard then some members else none
  | _ => none

theorem initialMembers_eq_some {ρ : Type} {program : Program HostOp HostRes ρ}
    {members : ExtTreeMap ℕ String} (starts : initialMembers shard program = some members) :
    ∃ factory config continue_, config.shardID = shard ∧
      program = .call (.startReplica factory (some members) false config) continue_ := by
  unfold initialMembers at starts
  split at starts
  · next factory given config continue_ =>
    obtain ⟨ofShard, same⟩ := Option.ite_none_right_eq_some.mp starts
    cases same
    exact ⟨factory, config, continue_, ofShard, rfl⟩
  · cases starts

/-- Every call rests on a snapshot that the registry has since moved on from by adding members up to three. -/
def membersContract (setups : ι → Setup) (shard : ℕ) : (hostControllers setups).Contract where
  rely before after := before.registry.Orderly →
    ReflTransGen (Fsm.Gathers shard) before.registry after.registry
  permits cluster entry := entry.cmd.findsRoom shard cluster.registry
  guard _ cluster op := ∃ snapshot, Issues snapshot op ∧
    ReflTransGen (Fsm.Gathers shard) snapshot cluster.registry
  inv _ cluster _ := cluster.registry.Orderly
  post _ _ _ cluster := cluster.registry.Orderly

theorem orderly_of_gathers {before after : State} (steps : ReflTransGen (Fsm.Gathers shard) before after)
    (orderly : before.Orderly) : after.Orderly := by
  induction steps with
  | refl => exact orderly
  | tail _ step _ => exact step.orderly

theorem gathers_of_rely (others : ReflTransGen (membersContract setups shard).rely cluster next)
    (orderly : cluster.registry.Orderly) :
    ReflTransGen (Fsm.Gathers shard) cluster.registry next.registry :=
  star_of_guarded (fun _ step => step.orderly) others orderly

theorem gathers_of_serve {i : ι} {op : HostOp} {choice : HostChoice} {answer : HostRes op}
    (guarded : (membersContract setups shard).guard i cluster op)
    (served : serveHost cluster op choice = some (answer, next)) :
    (membersContract setups shard).rely cluster next := by
  intro orderly
  obtain kept | ⟨cmd, index, rfl, advances⟩ := registry_of_serve served
  · exact kept ▸ .refl
  · obtain ⟨snapshot, ⟨id, rfl⟩, -⟩ := guarded
    exact .single ⟨orderly, _, advances, rfl⟩

theorem tick_gathers (i : ι) (fuel index : ℕ) (orderly : cluster.registry.Orderly) :
    (membersContract setups shard).Ensures i (tick (setups i) fuel index).record cluster
      fun _ after => after.registry.Orderly := by
  have good {after : Cluster} (others : ReflTransGen (membersContract setups shard).rely cluster after) :
      after.registry.Orderly := orderly_of_gathers (gathers_of_rely others orderly) orderly
  intro before others
  have guarded : (membersContract setups shard).guard i before (.agent .read) :=
    ⟨before.registry, trivial, .refl⟩
  refine ⟨guarded, fun choice answer after served => ?_⟩
  have kept := others.tail (gathers_of_serve guarded served)
  cases answer with
  | error err => exact fun last rest => good (kept.trans rest)
  | ok snapshot =>
    have same := registry_of_read served
    have rests {later : Cluster} {op : HostOp}
        (onwards : ReflTransGen (membersContract setups shard).rely after later)
        (issued : Issues snapshot.state op) : (membersContract setups shard).guard i later op := by
      refine ⟨snapshot.state, issued, ?_⟩
      rw [same]
      exact gathers_of_rely (.head (gathers_of_serve guarded served) onwards) (good others)
    have returns : Program.Returns (fun _ _ => True) (fun _ => True)
        (reconcileHost (setups i) fuel index snapshot.state).record := .any _
    refine (ActorSystem.Contract.Ensures.of_returns rests (fun _ => trivial)
      (fun guarded served => .single (gathers_of_serve guarded served))
      (Program.record_onlyCalls (reconcileHost_onlyCalls index)) returns).bind
      fun (value, calls) middle ⟨_, onwards⟩ => ?_
    exact fun last rest => good (kept.trans (onwards.trans rest))

theorem membersContract_valid : (membersContract setups shard).Valid where
  stable orderly rely := orderly_of_gathers (rely orderly) orderly
  outside room taken := fun orderly => .single ⟨orderly, _, (Cluster.take_eq_some taken).1, room⟩
  calls guarded served := .single (gathers_of_serve guarded served)
  starts fuel orderly := tick_gathers _ fuel _ orderly
  finishes orderly := orderly

/-- The members that a controller passes are those of the registry, and there are three. -/
theorem members_of_kept {actors : Actors Cluster ι HostMemory HostOp HostRes (ℕ × Calls)}
    {i : ι} {members : ExtTreeMap ℕ String} (kept : (membersContract setups shard).Kept actors)
    (starts : (actors.running i).bind (initialMembers shard) = some members) :
    members = actors.shared.registry.shardMembers shard ∧ 3 ≤ members.size := by
  obtain ⟨program, running, starts⟩ := Option.bind_eq_some_iff.mp starts
  obtain ⟨factory, config, continue_, rfl, rfl⟩ := initialMembers_eq_some starts
  obtain ⟨snapshot, ⟨same, three⟩, steps⟩ := kept.guard running
  exact ⟨same.trans (Fsm.members_of_steps steps (same ▸ three)).symm, three⟩

/-- Two controllers that start replicas of the shard, one later than the other, pass the same members. -/
theorem members_of_later [DecidableEq ι]
    {initial first second : Actors Cluster ι HostMemory HostOp HostRes (ℕ × Calls)}
    {front rest : List (Move Entry ι ℕ HostChoice)} {i j : ι} {members others : ExtTreeMap ℕ String}
    (kept : (membersContract setups shard).Kept initial)
    (room : AlwaysStep (hostControllers setups).Steps initial (front ++ rest)
      (membersContract setups shard).Permits)
    (reached : Path (hostControllers setups).Steps initial front first)
    (onwards : Path (hostControllers setups).Steps initial (front ++ rest) second)
    (starts : (first.running i).bind (initialMembers shard) = some members)
    (again : (second.running j).bind (initialMembers shard) = some others) : others = members := by
  have always := ActorSystem.Contract.always_kept membersContract_valid kept room
  have before := always front rest first rfl reached
  obtain ⟨same, three⟩ := members_of_kept before starts
  obtain ⟨rfl, -⟩ := members_of_kept (always.last onwards) again
  obtain ⟨middle, left, right⟩ := Path.append_iff.mp onwards
  obtain rfl := reached.deterministic ActorSystem.steps_determined left
  have rely := ActorSystem.Contract.rely_of_path membersContract_valid before (room.of_append reached) right
  have steps := gathers_of_rely rely (before.inv i)
  exact (Fsm.members_of_steps steps (same ▸ three)).trans same.symm

/-- In a run that adds no member to three, all controllers that start a bootstrapping replica of the shard
pass the same members. -/
theorem initial_members_agree [DecidableEq ι] {log : List Entry} {moves : List (Move Entry ι ℕ HostChoice)}
    {initial : Actors Cluster ι HostMemory HostOp HostRes (ℕ × Calls)}
    (registered : Path Fsm.Advances {} log initial.shared.registry) (idle : ∀ i, initial.running i = none)
    (room : AlwaysStep (hostControllers setups).Steps initial moves fun actors move =>
      ∀ entry, move = .outside entry → entry.cmd.findsRoom shard actors.shared.registry) :
    ∃ members, Always (hostControllers setups).Steps initial moves fun actors =>
      ∀ i given, (actors.running i).bind (initialMembers shard) = some given → given = members := by
  have kept : (membersContract setups shard).Kept initial :=
    ActorSystem.Contract.kept_idle idle fun _ => Fsm.orderly_of_path registered State.orderly_empty
  by_cases starts : ∃ front back actors i given, moves = front ++ back ∧
      Path (hostControllers setups).Steps initial front actors ∧
      (actors.running i).bind (initialMembers shard) = some given
  · obtain ⟨front, back, first, i, members, split, reached, starts⟩ := starts
    refine ⟨members, fun front' back' second split' reached' j others again => ?_⟩
    -- One of the two states is reached from the other.
    obtain ⟨rest, rfl, -⟩ | ⟨rest, rfl, -⟩ := List.append_eq_append_iff.mp (split.symm.trans split')
    · rw [split'] at room
      exact members_of_later kept room.front reached reached' starts again
    · rw [split] at room
      exact (members_of_later kept room.front reached' reached again starts).symm
  · refine ⟨∅, fun front back actors split reached i given passed => ?_⟩
    exact absurd ⟨front, back, actors, i, given, split, reached, passed⟩ starts

section Runs

/-- Host controllers of four hosts, with every type registered. -/
def fourSetups (i : Fin 4) : Setup where
  hostID := ["00000000-0000-4000-8000-000000000000", "00000000-0000-4000-8000-000000000001",
    "00000000-0000-4000-8000-000000000002", "00000000-0000-4000-8000-000000000003"].get i
  shardTypes _ := some { factory := .stateMachine }

def fourIdle : Actors Cluster (Fin 4) HostMemory HostOp HostRes (ℕ × Calls) :=
  idleControllers { registry := {}, agents := fun _ => {} }

/-- The host of a controller joins. -/
def register (i : Fin 4) : Move Entry (Fin 4) ℕ HostChoice :=
  .outside { index := i + 1, cmd := .host .put { id := (fourSetups i).hostID, tags := some ∅ } }

/-- A voting replica is posted to the host of a controller. -/
def post (i : Fin 4) : Move Entry (Fin 4) ℕ HostChoice :=
  .outside { index := i + 6, cmd := newCmdReplicaPost (fourSetups i).hostID 1 false }

/-- A controller ticks until it is about to start its replica. -/
def beginTick (i : Fin 4) : List (Move Entry (Fin 4) ℕ HostChoice) :=
  [.start i 0, .call i (.agent (.snapshot fun _ => [])), .call i (.running []), .call i (.agent (.order [0]))]

/-- A shard gets three members on three of four hosts, and one of them is about to start its replica. -/
def threeMembers : List (Move Entry (Fin 4) ℕ HostChoice) :=
  (List.finRange 4).map register ++
    [.outside { index := 5, cmd := newCmdShardPost { name := "a" } }, post 0, post 1, post 2] ++ beginTick 0

/-- The fourth member arrives, and another host is about to start its replica. -/
def fourthMember : List (Move Entry (Fin 4) ℕ HostChoice) := post 3 :: beginTick 1

/-- Two hosts bootstrap one shard, the first with three members and the second with four. -/
theorem fourth_member_splits :
    ¬ ∃ members, Always (hostControllers fourSetups).Steps fourIdle (threeMembers ++ fourthMember)
      fun actors => ∀ i given, (actors.running i).bind (initialMembers 1) = some given → given = members := by
  rintro ⟨members, same⟩
  obtain ⟨first, ran, ⟨three, starts, size⟩, second, onwards, four, again, larger⟩ :
      ∃ first ∈ (hostControllers fourSetups).run fourIdle threeMembers,
        (∃ given ∈ (first.running 0).bind (initialMembers 1), given.size = 3) ∧
        ∃ second ∈ (hostControllers fourSetups).run first fourthMember,
          ∃ given ∈ (second.running 1).bind (initialMembers 1), given.size = 4 := by
    decide +kernel
  have reached := ActorSystem.path_iff_run.mpr ran
  have last := Path.append_iff.mpr ⟨first, reached, ActorSystem.path_iff_run.mpr onwards⟩
  obtain rfl := same _ _ first rfl reached 0 three starts
  obtain rfl := same.last last 1 four again
  omega

/-- Is the entry of a move one that adds no member to three? -/
private def keepsThree (actors : Actors Cluster (Fin 4) HostMemory HostOp HostRes (ℕ × Calls)) :
    Move Entry (Fin 4) ℕ HostChoice → Bool
  | .outside entry => entry.cmd.findsRoom 1 actors.shared.registry
  | _ => true

private theorem keepsThree_sound (actors : Actors Cluster (Fin 4) HostMemory HostOp HostRes (ℕ × Calls))
    (move : Move Entry (Fin 4) ℕ HostChoice) (keeps : keepsThree actors move) :
    ∀ entry, move = .outside entry → entry.cmd.findsRoom 1 actors.shared.registry := by
  rintro entry rfl
  exact keeps

/-- Two hosts bootstrap one shard with the same three members. -/
theorem three_members_agree :
    ∃ last members, Path (hostControllers fourSetups).Steps fourIdle (threeMembers ++ beginTick 1) last ∧
      (last.running 0).bind (initialMembers 1) = some members ∧
      (last.running 1).bind (initialMembers 1) = some members := by
  have checked : checks (hostControllers fourSetups).step keepsThree fourIdle (threeMembers ++ beginTick 1) := by
    decide +kernel
  obtain ⟨last, ran, first, starts, second, again, -⟩ :
      ∃ last ∈ (hostControllers fourSetups).run fourIdle (threeMembers ++ beginTick 1),
        ∃ first ∈ (last.running 0).bind (initialMembers 1), ∃ second ∈ (last.running 1).bind (initialMembers 1),
          first.size = second.size := by
    decide +kernel
  have path := ActorSystem.path_iff_run.mpr ran
  have fresh : Path Fsm.Advances {} [] fourIdle.shared.registry := .nil
  obtain ⟨members, same⟩ := initial_members_agree fresh (fun _ => rfl) (.of_checks keepsThree_sound checked)
  have all := same.last path
  obtain rfl := all 0 first starts
  obtain rfl := all 1 second again
  exact ⟨last, _, path, starts, again⟩

end Runs

end HostController

end Zongzi
