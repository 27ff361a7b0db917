import Zongzi.Model.ControllerManager
import Zongzi.Model.ShardUpdate
import Zongzi.Proofs.Footprint

/-! # Who leads a shard

The registry keeps the leader of a shard with the raft term it was elected in. Nothing compares terms: a
leader-set overwrites the record whatever its term is, and a shard put writes back the leader and the term that
its caller has read. So a record goes back when a leader-set arrives late, or between the read and the put of an
update. It never does in a run where leader-sets come with growing terms and puts with the leader of the moment.

A reign is the registry beside the leader-sets that were applied to each shard since it exists.
-/

namespace Zongzi

open Std Machine PartialTable

/-- The registry, and for each shard the leaders and terms that were set. -/
structure Reign where
  registry : State := {}
  crowned : ℕ → List (ℕ × ℕ) := fun _ => []

namespace Reign

/-- A leader-set counts where it finds its shard, and a shard that is deleted takes its leaders with it. -/
def crown (reign : Reign) : Cmd → ℕ → List (ℕ × ℕ)
  | .shard .leaderSet shard =>
    if (reign.registry.shard shard.id).isSome then
      Function.update reign.crowned shard.id (reign.crowned shard.id ++ [(shard.leader, shard.term)])
    else reign.crowned
  | .shard .del shard => Function.update reign.crowned shard.id []
  | _ => reign.crowned

/-- One entry of the log. -/
def Steps (reign : Reign) (entry : Entry) (next : Reign) : Prop :=
  Fsm.Advances reign.registry entry next.registry ∧ next.crowned = reign.crown entry.cmd

/-- The same as a function. -/
def step (reign : Reign) (entry : Entry) : Option Reign :=
  if reign.registry.index < entry.index ∧ entry.index < 2 ^ 64 then
    match Fsm.update reign.registry entry with
    | .ok (registry, _) => some { registry, crowned := reign.crown entry.cmd }
    | .error _ => none
  else none

theorem steps_iff_step {reign next : Reign} {entry : Entry} :
    reign.Steps entry next ↔ reign.step entry = some next := by
  unfold step
  constructor
  · rintro ⟨⟨later, bounded, result, updated⟩, crowned⟩
    rw [if_pos ⟨later, bounded⟩, updated, ← crowned]
  · intro stepped
    split at stepped
    · next later =>
      split at stepped
      · next registry result updated =>
        cases stepped
        exact ⟨⟨later.1, later.2, result, updated⟩, rfl⟩
      · cases stepped
    · cases stepped

/-- The leader of a shard was set in the highest term that was set, or none was set. -/
def Holds (leaders : List (ℕ × ℕ)) (shard : Shard) : Prop :=
  (leaders = [] ∧ shard.leader = 0 ∧ shard.term = 0) ∨
    (shard.leader, shard.term) ∈ leaders ∧ ∀ leader ∈ leaders, leader.2 ≤ shard.term

def Rightful (reign : Reign) : Prop :=
  ∀ id shard, reign.registry.shard id = some shard → Holds (reign.crowned id) shard

end Reign

/-- The command does not set an older term, and puts back the leader that is recorded. A new shard has no
leader. -/
def State.honours (state : State) : Cmd → Bool
  | .shard .leaderSet shard => (state.shard shard.id).all (·.term ≤ shard.term)
  | .shard .put shard =>
    match state.shard shard.id with
    | some stored => shard.leader = stored.leader && shard.term = stored.term
    | none => shard.leader = 0 && shard.term = 0
  | .shard .post shard => shard.leader = 0 && shard.term = 0
  | _ => true

section Steps

variable {entry : Entry} {ledger after : Ledger} {id : ℕ}

/-- What a record says about the leader of its shard. -/
def Shard.reigns (shard : Shard) : ℕ × ℕ := (shard.leader, shard.term)

/-- Without a leader-set a record keeps its leader, or is new and has none, or is deleted. -/
theorem Ledger.Step.reigns (step : ledger.Step entry after) (vacant : ledger.Vacant entry)
    (other : ∀ shard, entry.cmd ≠ .shard .leaderSet shard)
    (put : ∀ shard, entry.cmd = .shard .put shard →
      (∀ stored, ledger.shards shard.id = some stored → shard.reigns = stored.reigns) ∧
      (ledger.shards shard.id = none → shard.reigns = (0, 0)))
    (post : ∀ shard, entry.cmd = .shard .post shard → shard.reigns = (0, 0)) (id : ℕ) :
    (after.shards id).map Shard.reigns = (ledger.shards id).map Shard.reigns ∨
    (ledger.shards id = none ∧ (after.shards id).map Shard.reigns = some (0, 0)) ∨
    after.shards id = none ∧ ∃ shard, entry.cmd = .shard .del shard ∧ shard.id = id := by
  cases step with
  | idle => exact .inl rfl
  | host => exact .inl (map_rewrite fun _ => rfl)
  | @shardPost shard posted cmd fresh =>
    by_cases same : id = posted
    · subst same
      refine .inr (.inl ⟨fresh ▸ vacant.1 shard cmd, ?_⟩)
      dsimp only
      rw [Function.update_self]
      exact congrArg some (post shard cmd)
    · exact .inl (congrArg _ (Function.update_of_ne same ..))
  | shardLeader cmd => exact absurd cmd (other _)
  | @shard written record write =>
    by_cases same : id = written
    · subst same
      dsimp only
      rw [Function.update_self]
      generalize stored : ledger.shards id = before at write
      cases write with
      | prime cmd named =>
        subst named
        exact .inr (.inl ⟨rfl, congrArg some ((put _ cmd).2 stored)⟩)
      | put cmd named =>
        subst named
        exact .inl (congrArg some ((put _ cmd).1 _ stored))
      | touch cmd named =>
        left
        rw [Option.map_map]
        rfl
      | status cmd named => exact .inl rfl
      | tags cmd named => exact .inl rfl
      | del cmd named => exact .inr (.inr ⟨rfl, _, cmd, named⟩)
    · exact .inl (congrArg _ (Function.update_of_ne same ..))
  | replicaPost => exact .inl (map_rewrite fun _ => rfl)
  | replica => exact .inl (map_rewrite fun _ => rfl)

end Steps

namespace Reign

variable {reign next : Reign} {entry : Entry}

/-- What every reached reign satisfies. -/
structure Sound (reign : Reign) : Prop where
  orderly : reign.registry.Orderly
  rightful : reign.Rightful
  vacant : ∀ id, reign.registry.shard id = none → reign.crowned id = []

theorem sound_initial : Sound {} where
  orderly := State.orderly_empty
  rightful id shard found := by simp [State.shard, ShardTable.empty] at found
  vacant _ _ := rfl

/-- Terms of records that stay do not fall. -/
def TermsGrow (reign next : Reign) : Prop :=
  ∀ id old new, reign.registry.shard id = some old → next.registry.shard id = some new → old.term ≤ new.term

theorem Holds.of_reigns {leaders : List (ℕ × ℕ)} {old new : Shard} (holds : Holds leaders old)
    (same : new.reigns = old.reigns) : Holds leaders new := by
  obtain ⟨leader, term⟩ := Prod.mk.inj same
  rw [Holds, leader, term]
  exact holds

/-- A leader that is set in a term that is not older holds its shard. -/
theorem Holds.set {leaders : List (ℕ × ℕ)} {old new : Shard} (holds : Holds leaders old)
    (later : old.term ≤ new.term) : Holds (leaders ++ [(new.leader, new.term)]) new := by
  refine .inr ⟨List.mem_append_right _ (List.mem_singleton_self _), fun leader member => ?_⟩
  obtain member | member := List.mem_append.mp member
  · obtain ⟨rfl, -⟩ | ⟨-, highest⟩ := holds
    · cases member
    · exact (highest leader member).trans later
  · cases List.mem_singleton.mp member
    exact le_rfl

section LeaderSet

variable {shard stored : Shard} (cmd : entry.cmd = .shard .leaderSet shard)
include cmd

/-- What a leader-set does to the records. -/
theorem shard_of_leaderSet {state after : State} (advances : Fsm.Advances state entry after) (id : ℕ) :
    after.shard id = if id = shard.id then (state.shard id).map fun stored =>
      { stored with leader := shard.leader, term := shard.term, updated := entry.index } else state.shard id := by
  obtain ⟨result, updated⟩ := advances.applies
  obtain ⟨invalid, -⟩ | ⟨middle, applied, rfl, -⟩ := Fsm.update_cases updated
  · cases cmd.symm.trans invalid
  · rw [Fsm.apply, cmd] at applied
    obtain ⟨absent, rfl, -⟩ | ⟨stored, found, rfl, -⟩ := Fsm.shardCmdLeaderSet_cases applied
    · split
      · next same =>
        rw [same, absent]
        exact absent
      · rfl
    · have written := congrArg (fun ledger => ledger.shards id) (State.ledger_shardPut state
        { stored with leader := shard.leader, term := shard.term, updated := entry.index })
      refine written.trans ?_
      have named := State.shard_id found
      dsimp only
      split
      · next same =>
        rw [same, found, ← named, Function.update_self]
        rfl
      · next different => exact Function.update_of_ne (named ▸ different) ..

theorem Sound.leaderSet (sound : reign.Sound) (honours : reign.registry.honours entry.cmd)
    (steps : reign.Steps entry next) : next.Sound ∧ reign.TermsGrow next := by
  obtain ⟨advances, crowned⟩ := steps
  have lookup := shard_of_leaderSet cmd advances
  rw [cmd] at honours crowned
  replace honours (stored : Shard) (found : reign.registry.shard shard.id = some stored) :
      stored.term ≤ shard.term := by
    simpa [State.honours, found] using honours
  have grows : reign.TermsGrow next := by
    intro id old new before after
    rw [lookup] at after
    split at after
    · next same =>
      rw [before] at after
      cases after
      exact honours old (same ▸ before)
    · cases before.symm.trans after
      exact le_rfl
  refine ⟨⟨advances.orderly sound.orderly, fun id new found => ?_, fun id absent => ?_⟩, grows⟩
  · rw [crowned, crown]
    rw [lookup] at found
    split at found
    · next same =>
      subst same
      obtain ⟨old, before, rfl⟩ := Option.map_eq_some_iff.mp found
      rw [if_pos (by simp [before]), Function.update_self]
      exact (sound.rightful _ old before).set (honours old before)
    · next different =>
      have same : (if (reign.registry.shard shard.id).isSome then Function.update reign.crowned shard.id
          (reign.crowned shard.id ++ [(shard.leader, shard.term)]) else reign.crowned) id = reign.crowned id := by
        split
        · exact Function.update_of_ne different ..
        · rfl
      rw [same]
      exact sound.rightful id new found
  · rw [crowned, crown]
    rw [lookup] at absent
    split at absent
    · next same =>
      subst same
      rw [Option.map_eq_none_iff] at absent
      rw [if_neg (by simp [absent])]
      exact sound.vacant _ absent
    · next different =>
      split
      · rw [Function.update_of_ne different]
        exact sound.vacant id absent
      · exact sound.vacant id absent

end LeaderSet

theorem crown_of_other {cmd : Cmd} (other : ∀ shard, cmd ≠ .shard .leaderSet shard) (id : ℕ) :
    reign.crown cmd id = reign.crowned id ∨
      reign.crown cmd id = [] ∧ ∃ shard, cmd = .shard .del shard ∧ shard.id = id := by
  cases cmd with
  | shard action shard =>
    cases action with
    | leaderSet => exact absurd rfl (other shard)
    | del =>
      by_cases same : id = shard.id
      · subst same
        exact .inr ⟨Function.update_self .., shard, rfl, rfl⟩
      · exact .inl (Function.update_of_ne same ..)
    | _ => exact .inl rfl
  | _ => exact .inl rfl

/-- A deleted shard is gone. -/
theorem shard_of_del {state after : State} {shard : Shard} (advances : Fsm.Advances state entry after)
    (cmd : entry.cmd = .shard .del shard) : after.shard shard.id = none := by
  obtain ⟨result, updated⟩ := advances.applies
  obtain ⟨invalid, -⟩ | ⟨middle, applied, rfl, -⟩ := Fsm.update_cases updated
  · cases cmd.symm.trans invalid
  · cases found : state.shard shard.id with
    | some stored => exact Fsm.shard_del_footprint cmd (by simp [found]) updated
    | none =>
      rw [Fsm.apply, cmd] at applied
      obtain ⟨-, rfl, -⟩ | ⟨stored, _, present, -⟩ := Fsm.shardCmdDel_cases applied
      · exact found
      · cases found.symm.trans present

theorem Sound.other (sound : reign.Sound) (honours : reign.registry.honours entry.cmd)
    (other : ∀ shard, entry.cmd ≠ .shard .leaderSet shard) (steps : reign.Steps entry next) :
    next.Sound ∧ reign.TermsGrow next := by
  obtain ⟨advances, crowned⟩ := steps
  obtain ⟨result, updated⟩ := advances.applies
  have put (shard : Shard) (cmd : entry.cmd = .shard .put shard) :
      (∀ stored, reign.registry.shard shard.id = some stored → shard.reigns = stored.reigns) ∧
      (reign.registry.shard shard.id = none → shard.reigns = (0, 0)) := by
    rw [cmd] at honours
    refine ⟨fun stored found => ?_, fun absent => ?_⟩
    · simpa [State.honours, found, Shard.reigns] using honours
    · simpa [State.honours, absent, Shard.reigns] using honours
  have post (shard : Shard) (cmd : entry.cmd = .shard .post shard) : shard.reigns = (0, 0) := by
    rw [cmd] at honours
    simpa [State.honours, Shard.reigns] using honours
  have transit := (Fsm.update_ledger updated).reigns (advances.vacant sound.orderly) other put post
  have crown_eq (id : ℕ) :
      next.crowned id = reign.crowned id ∨ next.registry.shard id = none ∧ next.crowned id = [] := by
    rw [crowned]
    refine (crown_of_other other id).imp_right fun ⟨empty, shard, cmd, named⟩ => ?_
    exact ⟨named ▸ shard_of_del advances cmd, empty⟩
  refine ⟨⟨advances.orderly sound.orderly, fun id new found => ?_, fun id absent => ?_⟩,
    fun id old new before after => ?_⟩
  · obtain kept | ⟨absent, -⟩ := crown_eq id
    · rw [kept]
      obtain same | ⟨absent, fresh⟩ | ⟨gone, -⟩ := transit id
      · rw [show next.registry.ledger.shards id = some new from found, Option.map_some] at same
        obtain ⟨old, before, reigns⟩ := Option.map_eq_some_iff.mp same.symm
        exact (sound.rightful id old before).of_reigns reigns.symm
      · rw [show next.registry.ledger.shards id = some new from found, Option.map_some] at fresh
        obtain ⟨leader, term⟩ := Prod.mk.inj (Option.some.inj fresh)
        exact .inl ⟨sound.vacant id absent, leader, term⟩
      · cases gone.symm.trans found
    · cases absent.symm.trans found
  · obtain kept | ⟨-, empty⟩ := crown_eq id
    · rw [kept]
      obtain same | ⟨absent, -⟩ | ⟨gone, shard, cmd, rfl⟩ := transit id
      · rw [show next.registry.ledger.shards id = none from absent, Option.map_none] at same
        exact sound.vacant id (Option.map_eq_none_iff.mp same.symm)
      · exact sound.vacant id absent
      · rw [← kept, crowned, cmd, crown, Function.update_self]
    · exact empty
  · obtain same | ⟨absent, -⟩ | ⟨gone, -⟩ := transit id
    · rw [show next.registry.ledger.shards id = some new from after,
        show reign.registry.ledger.shards id = some old from before] at same
      exact (Prod.mk.inj (Option.some.inj same)).2.ge
    · cases absent.symm.trans before
    · cases gone.symm.trans after

/-- A command that honours the leaders leaves them rightful. -/
theorem Sound.step (sound : reign.Sound) (honours : reign.registry.honours entry.cmd)
    (steps : reign.Steps entry next) : next.Sound ∧ reign.TermsGrow next := by
  by_cases sets : ∃ shard, entry.cmd = .shard .leaderSet shard
  · obtain ⟨shard, cmd⟩ := sets
    exact sound.leaderSet cmd honours steps
  · exact sound.other honours (fun shard cmd => sets ⟨shard, cmd⟩) steps

/-- While every command honours the leaders, terms never fall, and the leader of every shard was set in the
highest term that was set. -/
theorem leadership_never_goes_back {log : List Entry}
    (honoured : AlwaysStep Steps {} log fun reign entry => reign.registry.honours entry.cmd) :
    Always Steps {} log Rightful ∧ ∀ front entry back before after, log = front ++ entry :: back →
      Path Steps {} front before → before.Steps entry after → before.TermsGrow after := by
  have sound : Always Steps {} log Sound :=
    honoured.always sound_initial fun _ _ _ _ _ _ _ sound honours steps => (sound.step honours steps).1
  refine ⟨fun front back reign split reached => (sound front back reign split reached).rightful, ?_⟩
  intro front entry back before after split reached steps
  exact ((sound front (entry :: back) before split reached).step
    (honoured front entry back before split reached) steps).2

/-- A shard that gets two leaders, in later and later terms. -/
def twoLeaders : List Entry :=
  [{ index := 1, cmd := newCmdShardPost (newShard "kv") },
    { index := 2, cmd := newCmdShardLeaderSet 1 3 1 },
    { index := 3, cmd := newCmdShardLeaderSet 1 5 2 }]

/-- The second leader is the one that is recorded. -/
theorem second_leader_recorded :
    ∃ last, Path Steps {} twoLeaders last ∧ last.Rightful ∧
      (last.registry.shard 1).map Shard.reigns = some (5, 2) := by
  have steps : Steps = fun reign entry next => reign.step entry = some next := by
    funext reign entry next
    exact propext steps_iff_step
  have checked : checks step (fun reign entry => reign.registry.honours entry.cmd) {} twoLeaders := by
    decide +kernel
  have honoured : AlwaysStep Steps {} twoLeaders fun reign entry => reign.registry.honours entry.cmd := by
    rw [steps]
    exact .of_checks (fun _ _ honours => honours) checked
  obtain ⟨last, ran, recorded⟩ : ∃ last ∈ twoLeaders.foldlM step {},
      (last.registry.shard 1).map Shard.reigns = some (5, 2) := by
    decide +kernel
  have path : Path Steps {} twoLeaders last := by
    rw [steps]
    exact Path.iff_foldlM.mpr ran
  exact ⟨last, path, (leadership_never_goes_back honoured).1.last path, recorded⟩

end Reign

section Late

/-- A shard without a leader. -/
def leaderlessLog : List Entry := [{ index := 1, cmd := newCmdShardPost (newShard "kv") }]

/-- An update of the shard, and two agents that learn about its leader. -/
inductive LateCall
  | update
  | newer
  | older
deriving DecidableEq

def lateCalls : LateCall → AgentM Unit
  | .update => (fun _ => ()) <$> shardUpdate 1 []
  | .newer => (fun _ => ()) <$> leaderUpdated "a" true ⟨1, 3, 2, 3⟩
  | .older => (fun _ => ()) <$> leaderUpdated "b" true ⟨1, 5, 1, 5⟩

def latePool (registry : State) : Pool Cluster LateCall AgentOp AgentRes Unit where
  shared := { registry, agents := fun _ => { status := .ready } }
  threads := lateCalls

/-- The update reads the shard before its leader is set, and puts it back afterwards. The older leader is set
in between. -/
def lateSteps : List (LateCall × Choice) :=
  [(.update, .snapshot fun _ => []), (.newer, .serve), (.newer, .applied 2), (.older, .serve), (.older, .applied 3),
    (.update, .applied 4)]

/-- The leaders that are recorded after the first steps. -/
def recordedAfter (count : ℕ) : Option (ℕ × ℕ) := do
  let (registry, _) ← (Fsm.run {} leaderlessLog).toOption
  let pool ← (latePool registry).run Cluster.serve (lateSteps.take count)
  (pool.shared.registry.shard 1).map Shard.reigns

/-- The leader of term two gives way to the one of term one, and that to none. -/
theorem late_leaders_overwrite :
    recordedAfter 3 = some (3, 2) ∧ recordedAfter 5 = some (5, 1) ∧ recordedAfter 6 = some (0, 0) := by
  decide +kernel

end Late

end Zongzi
