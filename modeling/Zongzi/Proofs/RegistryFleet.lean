import Zongzi.Proofs.SharedMaps

/-! # The registries of all agents

Every agent applies the entries of one log to its own registry. `ShardUpdate` lets its options write to the tag map
of the record that it has found, which is the map of the caller's registry, before anything is proposed. The registry
of an agent is what its part of the log makes of it exactly as long as every such write finds the tag as it writes
it, or finds the map abandoned: the record deleted, or put again.
-/

namespace Zongzi.Fleet

open Std ExceptFold Machine Pointers

variable {ι κ : Type} [DecidableEq ι] [DecidableEq κ] {calls : κ → UpdateCall ι} {agent : ι}
  {fleet next : Fleet ι κ} {move : FleetMove ι κ}

/-- One move of the agents, of the log or of a call. -/
def Moves (calls : κ → UpdateCall ι) (fleet : Fleet ι κ) (move : FleetMove ι κ) (next : Fleet ι κ) : Prop :=
  step calls fleet move = some next

theorem moves_determined (calls : κ → UpdateCall ι) : Determined (Moves calls) := by
  intro fleet move left right first second
  exact Option.some.inj (first.symm.trans second)

/-- The registry of an agent is what the entries that it has applied make of an empty one. -/
def Replays (fleet : Fleet ι κ) (agent : ι) : Prop :=
  ∃ results, Fsm.run {} (fleet.log.take (fleet.applied agent)) = .ok ((fleet.registries agent).view, results)

/-- An option that writes to a map of a record of the agent writes what the map has. -/
def Absorbs (calls : κ → UpdateCall ι) (agent : ι) (fleet : Fleet ι κ) (move : FleetMove ι κ) : Prop :=
  ∀ call found address key value opts, move = .edit call → (calls call).agent = agent →
    fleet.phases call = .editing found (some address) (.tag key value :: opts) →
    ∀ name, ((fleet.registries agent).view.tagsOf name).isSome →
      (fleet.registries agent).maps.held name = some address →
      ((fleet.registries agent).maps.objects address)[key]? = some value

/-- What a move is to one agent. -/
inductive Effect (calls : κ → UpdateCall ι) (agent : ι) (fleet : Fleet ι κ) (move : FleetMove ι κ)
    (next : Fleet ι κ) : Prop
  | none (extra : List Entry) (log : next.log = fleet.log ++ extra)
      (applied : next.applied agent = fleet.applied agent)
      (registry : next.registries agent = fleet.registries agent) (absorbs : fleet.Absorbs calls agent move)
  | applies {ranging : Ranging} {entry : Entry} {result : Result}
      (listed : fleet.log[fleet.applied agent]? = some entry)
      (updated : (fleet.registries agent).update ranging entry = .ok (next.registries agent, result))
      (log : next.log = fleet.log) (applied : next.applied agent = fleet.applied agent + 1)
      (absorbs : fleet.Absorbs calls agent move)
  | writes {call : κ} {found : Shard} {address : ℕ} {key value : String} {opts : List EditOption}
      (is : move = .edit call) (own : (calls call).agent = agent)
      (phase : fleet.phases call = .editing found (some address) (.tag key value :: opts))
      (log : next.log = fleet.log) (applied : next.applied agent = fleet.applied agent)
      (registry : next.registries agent = { fleet.registries agent with
        maps := (fleet.registries agent).maps.write address
          (((fleet.registries agent).maps.objects address).insert key value) })

omit [DecidableEq ι] [DecidableEq κ] in
theorem absorbs_of_ne (other : ∀ call, move ≠ .edit call) : fleet.Absorbs calls agent move := by
  intro call found address key value opts is
  exact absurd is (other call)

theorem editNext_effect {call : κ} (moved : fleet.editNext (calls call).agent call = some next) :
    Effect calls agent fleet (.edit call) next := by
  unfold editNext at moved
  split at moved
  · next found pointer text opts phase =>
    cases moved
    refine .none [] (List.append_nil _).symm rfl rfl ?_
    intro other _ address key value rest is own same
    cases is
    rw [phase] at same
    cases same
  · next found address key value opts phase =>
    cases moved
    by_cases own : (calls call).agent = agent
    · subst own
      exact .writes rfl rfl phase rfl rfl (Function.update_self ..)
    · refine .none [] (List.append_nil _).symm rfl (Function.update_of_ne (Ne.symm own) ..) ?_
      intro other _ _ _ _ _ is mine
      cases is
      exact absurd mine own
  · cases moved

theorem step_effect (moved : step calls fleet move = some next) : Effect calls agent fleet move next := by
  cases move with
  | append entry =>
    cases moved
    exact .none [entry] rfl rfl rfl (absorbs_of_ne (by simp))
  | apply other ranging =>
    simp only [step, Option.bind_eq_bind, Option.bind_eq_some_iff, Option.some.injEq, Prod.exists,
      toOption_eq_some_iff] at moved
    obtain ⟨entry, listed, registry, result, updated, rfl⟩ := moved
    by_cases own : other = agent
    · subst own
      have here : (fleet.setRegistry other registry).registries other = registry := Function.update_self ..
      exact .applies listed (updated.trans (congrArg (fun registry => Except.ok (registry, result)) here.symm)) rfl
        (Function.update_self ..) (absorbs_of_ne (by simp))
    · exact .none [] (List.append_nil _).symm (Function.update_of_ne (Ne.symm own) ..)
        (Function.update_of_ne (Ne.symm own) ..) (absorbs_of_ne (by simp))
  | read call =>
    simp only [step] at moved
    split at moved
    · cases moved
      exact .none [] (List.append_nil _).symm rfl rfl (absorbs_of_ne (by simp))
    · cases moved
      exact .none [] (List.append_nil _).symm rfl rfl (absorbs_of_ne (by simp))
    · cases moved
  | edit call => exact editNext_effect moved
  | marshal call =>
    simp only [step] at moved
    split at moved
    · cases moved
      exact .none [] (List.append_nil _).symm rfl rfl (absorbs_of_ne (by simp))
    · cases moved
  | commit call index =>
    simp only [step] at moved
    split at moved
    · cases moved
      exact .none [_] rfl rfl rfl (absorbs_of_ne (by simp))
    · cases moved
  | fail call =>
    simp only [step] at moved
    split at moved
    · cases moved
      exact .none [] (List.append_nil _).symm rfl rfl (absorbs_of_ne (by simp))
    · cases moved

/-- The agent has its own maps, and is not ahead of the log. -/
structure Sane (agent : ι) (fleet : Fleet ι κ) : Prop where
  owned : (fleet.registries agent).maps.Owned
  behind : fleet.applied agent ≤ fleet.log.length

omit [DecidableEq ι] [DecidableEq κ] in
theorem Sane.effect (sane : fleet.Sane agent) (effect : Effect calls agent fleet move next) : next.Sane agent := by
  cases effect with
  | none extra log applied registry absorbs =>
    refine ⟨registry ▸ sane.owned, ?_⟩
    rw [applied, log, List.length_append]
    exact sane.behind.trans (Nat.le_add_right ..)
  | applies listed updated log applied absorbs =>
    refine ⟨(SharedRegistry.update_inv sane.owned updated).2.1, ?_⟩
    have early := (List.getElem?_eq_some_iff.mp listed).1
    rw [applied, log]
    omega
  | writes is own phase log applied registry =>
    refine ⟨?_, by rw [applied, log]; exact sane.behind⟩
    rw [registry]
    exact sane.owned.write _ _

theorem sane_of_path {moves : List (FleetMove ι κ)} (path : Path (Moves calls) start moves fleet) :
    fleet.Sane agent := by
  refine path.invariant ⟨Heap.owned_empty ∅, le_rfl⟩ ?_
  intro move _ before after sane moved
  exact sane.effect (step_effect moved)

/-- A write in place leaves the view of the registry exactly when no record of it sees a new tag. -/
theorem view_write_iff {registry : SharedRegistry} {address : ℕ} {key value : String} :
    ({ registry with maps := registry.maps.write address ((registry.maps.objects address).insert key value) } :
      SharedRegistry).view = registry.view ↔
    ∀ name, (registry.view.tagsOf name).isSome → registry.maps.held name = some address →
      (registry.maps.objects address)[key]? = some value := by
  have inserted : (registry.maps.objects address).insert key value = registry.maps.objects address ↔
      (registry.maps.objects address)[key]? = some value := by
    constructor
    · intro same
      rw [← same]
      simp
    · intro held
      apply ExtTreeMap.ext_getElem?
      intro other
      rw [ExtTreeMap.getElem?_insert]
      simp only [LawfulEqCmp.compare_eq_iff_eq]
      split
      · next here => rw [← here, held]
      · rfl
  have present (name : RecordName) : (registry.view.tagsOf name).isSome = (registry.state.tagsOf name).isSome := by
    simp [SharedRegistry.view, State.tagsOf_withTags]
  simp only [present]
  rw [SharedRegistry.view, SharedRegistry.view, State.withTags_eq_iff]
  refine forall_congr' fun name => imp_congr_right fun _ => ?_
  rw [Heap.read_write]
  split
  · next here =>
    have read : registry.maps.read name = some (registry.maps.objects address) := by
      simp [Heap.read, Heap.seen, here]
    rw [read, Option.some.injEq, inserted]
    exact ⟨fun same _ => same, fun same => same here⟩
  · next elsewhere => exact ⟨fun _ here => absurd here elsewhere, fun _ => rfl⟩

omit [DecidableEq ι] [DecidableEq κ] in
theorem replays_effect_iff (sane : fleet.Sane agent) (replays : fleet.Replays agent)
    (effect : Effect calls agent fleet move next) : next.Replays agent ↔ fleet.Absorbs calls agent move := by
  obtain ⟨results, ran⟩ := replays
  cases effect with
  | none extra log applied registry absorbs =>
    refine ⟨fun _ => absorbs, fun _ => ⟨results, ?_⟩⟩
    rw [log, applied, registry, List.take_append_of_le_length sane.behind]
    exact ran
  | @applies ranging entry result listed updated log applied absorbs =>
    refine ⟨fun _ => absorbs, fun _ => ⟨results ++ [result], ?_⟩⟩
    have one : Fsm.run (fleet.registries agent).view [entry] = .ok ((next.registries agent).view, [result]) := by
      simp only [Fsm.run, (SharedRegistry.update_inv sane.owned updated).1]
      rfl
    rw [log, applied, List.take_add_one, listed, Option.toList_some]
    exact Fsm.run_append_eq_ok_iff.mpr ⟨_, _, _, ran, one, rfl⟩
  | @writes call found address key value opts is own phase log applied registry =>
    have same : next.Replays agent ↔ (next.registries agent).view = (fleet.registries agent).view := by
      rw [Replays, log, applied, ran]
      simp [eq_comm]
    rw [same, registry, view_write_iff]
    constructor
    · intro absorbs other _ _ _ _ _ again mine there
      cases is.symm.trans again
      cases phase.symm.trans there
      exact absorbs
    · intro absorbs
      exact absorbs call found address key value opts is own phase

/-- The registry of an agent is what the log makes of it, at every moment, exactly when every option that runs on
the agent writes what the map of its record has, or writes to a map that no record has any more. -/
theorem registry_follows_log_iff (calls : κ → UpdateCall ι) (agent : ι) {moves : List (FleetMove ι κ)}
    (path : Path (Moves calls) start moves fleet) :
    Always (Moves calls) start moves (fun fleet => fleet.Replays agent) ↔
      AlwaysStep (Moves calls) start moves (Absorbs calls agent) := by
  refine always_iff (moves_determined calls) path ⟨[], ?_⟩ ?_
  · exact congrArg (fun state => Except.ok (state, ([] : List Result))) SharedRegistry.view_empty.symm
  · intro front move back before after _ reached replays moved
    exact replays_effect_iff (sane_of_path reached) replays (step_effect moved)

/-- A call whose options run undisturbed proposes the record that its options make of the one it has read. -/
theorem edits_undisturbed {call : κ} {found shard : Shard} {pointer : Option ℕ} {opts : List EditOption}
    (phase : fleet.phases call = .editing found pointer opts)
    (edited : editAll (opts.map EditOption.edit)
      { found with tags := pointer.map (fleet.registries (calls call).agent).maps.objects } = .ok shard) :
    ∃ last, Path (Moves calls) fleet (List.replicate opts.length (.edit call)) last ∧
      step calls last (.marshal call) = some (last.setPhase call (.sending (newCmdShardPut shard))) := by
  induction opts generalizing fleet found with
  | nil =>
    cases edited
    refine ⟨fleet, .nil, ?_⟩
    simp only [step, phase]
  | cons option opts ih =>
    obtain ⟨⟨middle, err⟩, ran, rest⟩ := bind_eq_ok_iff.mp edited
    cases option with
    | name text =>
      cases ran
      have moved : Moves calls fleet (.edit call)
          (fleet.setPhase call (.editing { found with name := text } pointer opts)) := by
        simp only [Moves, step, editNext, phase]
      have next : (fleet.setPhase call (.editing { found with name := text } pointer opts)).phases call =
          .editing { found with name := text } pointer opts := Function.update_self ..
      obtain ⟨last, path, marshalled⟩ := ih next rest
      exact ⟨last, Path.cons_iff.mpr ⟨_, moved, path⟩, marshalled⟩
    | tag key value =>
      cases pointer with
      | none => cases ran
      | some address =>
        cases ran
        let registry := fleet.registries (calls call).agent
        let written : SharedRegistry := { registry with
          maps := registry.maps.write address ((registry.maps.objects address).insert key value) }
        let after := (fleet.setRegistry (calls call).agent written).setPhase call (.editing found (some address) opts)
        have moved : Moves calls fleet (.edit call) after := by
          simp only [Moves, step, editNext, phase, after, written, registry]
        have here : after.registries (calls call).agent = written := Function.update_self ..
        have next : after.phases call = .editing found (some address) opts := Function.update_self ..
        have inserted : written.maps.objects address = (registry.maps.objects address).insert key value :=
          Function.update_self ..
        obtain ⟨last, path, marshalled⟩ := ih next (by
          rw [here, Option.map_some, inserted]
          exact rest)
        exact ⟨last, Path.cons_iff.mpr ⟨_, moved, path⟩, marshalled⟩

/-- One agent, and one update of its first shard. -/
def zoneCalls : Unit → UpdateCall Unit := fun _ => ⟨(), 1, [.tag "zone" "a"]⟩

/-- The agent has applied the creation of the shard when the update begins. -/
def zoneMoves : List (FleetMove Unit Unit) :=
  [.append { index := 1, cmd := newCmdShardPost { tags := some ∅ } }, .apply () .sorted, .read ()]

/-- The registry has the tag before the log does. -/
theorem edited_registry_departs :
    ∃ fleet, Path (Moves zoneCalls) start (zoneMoves ++ [.edit ()]) fleet ∧
      ¬ Always (Moves zoneCalls) start (zoneMoves ++ [.edit ()]) fun fleet => fleet.Replays () := by
  have run : ∃ before fleet found, Path (Moves zoneCalls) start zoneMoves before ∧
      Moves zoneCalls before (.edit ()) fleet ∧ before.phases () = .editing found (some 0) [.tag "zone" "a"] ∧
      ((before.registries ()).view.tagsOf (.shard 1)).isSome ∧
      (before.registries ()).maps.held (.shard 1) = some 0 ∧ (before.registries ()).maps.objects 0 = ∅ :=
    ⟨_, _, _, Path.iff_foldlM.mpr rfl, rfl, rfl, rfl, rfl, rfl⟩
  obtain ⟨before, fleet, found, reached, moved, phase, present, held, empty⟩ := run
  have path := reached.snoc moved
  refine ⟨fleet, path, ?_⟩
  rw [registry_follows_log_iff zoneCalls () path]
  intro absorbs
  have has := absorbs zoneMoves _ [] before rfl reached () found 0 "zone" "a" [] rfl rfl phase _ present held
  rw [empty] at has
  simp at has

end Zongzi.Fleet
