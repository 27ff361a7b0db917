import Zongzi.Proofs.ChangeTracking
import Zongzi.Proofs.References

/-! # Rejected entries and nil tag maps

An entry that is rejected has the result value zero. Apart from the prime shard, whose identifier is zero, no command
that writes anything returns zero, so a rejected entry moves the index and nothing else.

A command panics on a nil tag map where it writes a tag into it. The constructors give every host a tag map and no
replica one, and a shard has the map it came with. So host commands are safe, no tag can be set on a replica, and shards
depend on how they were posted and put.
-/

namespace Zongzi

open Std Machine ExceptFold

namespace Fsm

variable {state next : State} {entry : Entry} {result : Result}

section Rejected

theorem hostUpdate_of_zero {action : Action} {host : Host}
    (applied : hostUpdate state entry action host = .ok (next, result)) (zero : result.value = 0) : next = state := by
  have tagged {fn : TagFn} (applied : hostTagAction fn state entry host = .ok (next, result)) : next = state := by
    obtain ⟨same, -⟩ | ⟨_, _, _, _, _, _, _, rfl⟩ := hostTagAction_cases applied
    · exact same
    · cases zero
  cases action with
  | put =>
    obtain ⟨_, _, _, _, _, _, _, _, rfl⟩ := hostCmdPut_cases applied
    cases zero
  | del =>
    obtain ⟨_, _, ⟨_, same, -⟩ | ⟨_, _, _, rfl⟩⟩ := hostCmdDel_cases applied
    · exact same
    · cases zero
  | tagsSet => exact tagged applied
  | tagsSetNX => exact tagged applied
  | tagsRemove => exact tagged applied
  | _ => exact (reject_eq_ok_iff.mp applied).1

theorem shardUpdate_of_zero {action : Action} {shard : Shard}
    (applied : shardUpdate state entry action shard = .ok (next, result)) (zero : result.value = 0)
    (bounded : state.shardID + 1 < 2 ^ 64) (target : action ≠ .post → shard.id ≠ 0) : next = state := by
  have tagged {fn : TagFn} (applied : shardTagAction fn state entry shard = .ok (next, result)) : next = state := by
    obtain ⟨same, -⟩ | ⟨_, _, _, _, _, _, _, rfl⟩ := shardTagAction_cases applied
    · exact same
    · cases zero
  cases action with
  | post =>
    obtain ⟨_, _, same, -⟩ | ⟨_, _, rfl⟩ := shardCmdPost_cases applied
    · exact same
    · have wrapped : (state.shardID + 1) % 2 ^ 64 = 0 := zero
      omega
  | touch =>
    obtain ⟨_, rfl⟩ := shardCmdTouch_cases applied
    exact absurd zero (target (by simp))
  | put =>
    obtain ⟨_, _, same, -⟩ | ⟨_, _, _, _, _, _, rfl⟩ := shardCmdPut_cases applied
    · exact same
    · exact absurd zero (target (by simp))
  | statusUpdate =>
    obtain ⟨_, same, -⟩ | ⟨_, _, _, rfl⟩ := shardCmdStatusUpdate_cases applied
    · exact same
    · cases zero
  | leaderSet =>
    obtain ⟨_, same, -⟩ | ⟨_, _, _, rfl⟩ := shardCmdLeaderSet_cases applied
    · exact same
    · cases zero
  | del =>
    obtain ⟨_, same, -⟩ | ⟨_, _, _, _, _, rfl⟩ := shardCmdDel_cases applied
    · exact same
    · cases zero
  | tagsSet => exact tagged applied
  | tagsSetNX => exact tagged applied
  | tagsRemove => exact tagged applied
  | _ => exact (reject_eq_ok_iff.mp applied).1

theorem replicaUpdate_of_zero {action : Action} {replica : Replica}
    (applied : replicaUpdate state entry action replica = .ok (next, result)) (zero : result.value = 0)
    (bounded : state.replicaID + 1 < 2 ^ 64) : next = state := by
  have tagged {fn : TagFn} (applied : replicaTagAction fn state entry replica = .ok (next, result)) : next = state := by
    obtain ⟨same, -⟩ | ⟨_, _, _, _, _, _, _, rfl⟩ := replicaTagAction_cases applied
    · exact same
    · cases zero
  cases action with
  | post =>
    obtain ⟨_, _, _, _, _, _, _, _, rfl⟩ := replicaCmdPost_cases applied
    have wrapped : (state.replicaID + 1) % 2 ^ 64 = 0 := zero
    omega
  | statusUpdate =>
    obtain ⟨_, same, -⟩ | ⟨_, _, _, _, _, rfl⟩ := replicaCmdStatusUpdate_cases applied
    · exact same
    · cases zero
  | put =>
    obtain ⟨_, same, -⟩ | ⟨_, _, _, _, _, _, _, _, rfl⟩ := replicaCmdPut_cases applied
    · exact same
    · cases zero
  | del =>
    obtain ⟨_, same, -⟩ | ⟨_, _, _, _, _, rfl⟩ := replicaCmdDel_cases applied
    · exact same
    · cases zero
  | tagsSet => exact tagged applied
  | tagsSetNX => exact tagged applied
  | tagsRemove => exact tagged applied
  | _ => exact (reject_eq_ok_iff.mp applied).1

/-- An entry that is answered with zero moves the index and nothing else. -/
theorem rejected_entry_moves_index {log : List Entry} (reached : Path Advances {} log state)
    (later : state.index < entry.index) (bounded : entry.index < 2 ^ 64)
    (target : ∀ action shard, entry.cmd = .shard action shard → action ≠ .post → shard.id ≠ 0)
    (updated : update state entry = .ok (next, result)) (zero : result.value = 0) :
    next = { state with index := next.index } := by
  have orderly := orderly_of_path reached State.orderly_empty
  have shards : state.shardID ≤ state.index := orderly.identifiers.shardID
  have replicas : state.replicaID ≤ state.index := orderly.identifiers.replicaID
  obtain ⟨-, rfl, -⟩ | ⟨middle, applied, rfl, -⟩ := update_cases updated
  · rfl
  · suffices same : middle = state by
      rw [same]
      rfl
    unfold apply at applied
    split at applied
    · exact (reject_eq_ok_iff.mp applied).1
    · exact (reject_eq_ok_iff.mp applied).1
    · exact hostUpdate_of_zero applied zero
    · next is => exact shardUpdate_of_zero applied zero (by omega) (target _ _ is)
    · exact replicaUpdate_of_zero applied zero (by omega)

/-- A post under a name that is taken. -/
theorem taken_name_moves_index :
    ∃ state next, Path Advances {} [{ index := 1, cmd := newCmdShardPost { name := "a" } }] state ∧
      update state { index := 2, cmd := newCmdShardPost { name := "a" } } =
        .ok (next, { data := "Shard already exists: a" }) ∧ next = { state with index := 2 } := by
  have path : ∃ state, Path Advances {} [{ index := 1, cmd := newCmdShardPost { name := "a" } }] state ∧
      ∃ next, update state { index := 2, cmd := newCmdShardPost { name := "a" } } =
        .ok (next, { data := "Shard already exists: a" }) ∧ state.index = 1 ∧ next.index = 2 :=
    ⟨_, Path.singleton_iff.mpr ⟨by decide, by decide, _, rfl⟩, _, rfl, rfl, rfl⟩
  obtain ⟨state, reached, next, updated, index, moved⟩ := path
  have same := rejected_entry_moves_index reached (by rw [index]; decide) (by decide)
    (by rintro action shard ⟨⟩ other; exact absurd rfl other) updated rfl
  exact ⟨state, next, reached, updated, moved ▸ same⟩

end Rejected

section NilTags

variable {new old : Tags}

/-- Setting tags panics exactly if there is a tag to write and no map to write it to. -/
theorem tagsSet_nil_iff : tagsSet new old = .error .nilMap ↔ new = none ∧ entries old ≠ [] := by
  unfold tagsSet
  cases new with
  | none =>
    cases entries old with
    | nil => exact ⟨nofun, fun both => absurd rfl both.2⟩
    | cons pair pairs => exact ⟨fun _ => ⟨rfl, by simp⟩, fun _ => rfl⟩
  | some tagMap =>
    refine iff_of_false (foldlM_ne_error (fun tags : Tags × Bool => tags.1.isSome) rfl ?_) (by simp)
    rintro ⟨key, value⟩ - ⟨_ | tags, changed⟩ present
    · cases present
    · exact ⟨_, rfl, rfl⟩

theorem tagsSetNX_nil_iff : tagsSetNX new old = .error .nilMap ↔ new = none ∧ entries old ≠ [] := by
  unfold tagsSetNX
  cases new with
  | none =>
    cases entries old with
    | nil => exact ⟨nofun, fun both => absurd rfl both.2⟩
    | cons pair pairs => exact ⟨fun _ => ⟨rfl, by simp⟩, fun _ => rfl⟩
  | some tagMap =>
    refine iff_of_false (foldlM_ne_error (fun tags : Tags × Bool => tags.1.isSome) rfl ?_) (by simp)
    rintro ⟨key, value⟩ - ⟨_ | tags, changed⟩ present
    · cases present
    · dsimp only
      split
      · exact ⟨_, rfl, rfl⟩
      · exact ⟨_, rfl, rfl⟩

/-- Every panic but the write to a nil map. -/
def IsNotNilMap (panic : Panic) : Prop := panic ≠ .nilMap

theorem host_spares (state : State) (id : String) : FailsOnly IsNotNilMap (state.host id) := by
  unfold State.host
  split
  · exact .error (by simp [IsNotNilMap])
  · exact .ok _

theorem hostPut_spares (state : State) (host : Host) : FailsOnly IsNotNilMap (state.hostPut host) := by
  unfold State.hostPut
  split
  · exact .error (by simp [IsNotNilMap])
  · exact .ok _

theorem replicaPut_spares (state : State) (replica : Replica) : FailsOnly IsNotNilMap (state.replicaPut replica) := by
  unfold State.replicaPut
  split
  · exact .ok _
  · exact .error (by simp [IsNotNilMap])

theorem replicaIterateByHostID_spares (state : State) (hostID : String) :
    FailsOnly IsNotNilMap (state.replicaIterateByHostID hostID) := by
  unfold State.replicaIterateByHostID
  split
  · exact .error (by simp [IsNotNilMap])
  · exact .ok _

theorem hostTouch_spares (state : State) (id : String) (index : ℕ) :
    FailsOnly IsNotNilMap (state.hostTouch id index) := by
  refine .bind (host_spares state id) fun found _ => ?_
  cases found with
  | none => exact .error (by simp [IsNotNilMap])
  | some host => exact hostPut_spares _ _

theorem touchHosts_spares (state : State) (replicas : List Replica) (index : ℕ) :
    FailsOnly IsNotNilMap (touchHosts state replicas index) :=
  .foldlM (fun _ _ _ => hostTouch_spares _ _ _) state

theorem touchOwners_spares (state : State) (replica : Replica) (index : ℕ) :
    FailsOnly IsNotNilMap (touchOwners state replica index) :=
  .bind (hostTouch_spares _ _ _) fun _ _ => .ok _

/-- What follows a computation does not write to a nil map. -/
theorem nilMap_bind_iff {α β : Type} {first : Except Panic α} {rest : α → Except Panic β}
    (spares : ∀ value, FailsOnly IsNotNilMap (rest value)) :
    first >>= rest = .error .nilMap ↔ first = .error .nilMap := by
  cases first with
  | error panic =>
    exact ⟨fun failed => congrArg _ (Except.error.inj failed), fun failed => congrArg _ (Except.error.inj failed)⟩
  | ok value => exact ⟨fun failed => absurd rfl (spares value _ failed), nofun⟩

/-- A tag action panics where its function does. -/
theorem shardTagAction_nil_iff {fn : TagFn} {cmd : Shard} :
    shardTagAction fn state entry cmd = .error .nilMap ↔
      ∃ stored, state.shard cmd.id = some stored ∧ fn stored.tags cmd.tags = .error .nilMap := by
  unfold shardTagAction
  cases state.shard cmd.id with
  | none => exact ⟨nofun, nofun⟩
  | some stored =>
    simp only [Option.some.injEq, exists_eq_left']
    refine nilMap_bind_iff fun (tags, written) => ?_
    dsimp only
    split
    · exact .bind (touchHosts_spares _ _ _) fun _ _ => .ok _
    · exact .ok _

theorem replicaTagAction_nil_iff {fn : TagFn} {cmd : Replica} :
    replicaTagAction fn state entry cmd = .error .nilMap ↔
      ∃ stored, state.replica cmd.id = some stored ∧ fn stored.tags cmd.tags = .error .nilMap := by
  unfold replicaTagAction
  cases state.replica cmd.id with
  | none => exact ⟨nofun, nofun⟩
  | some stored =>
    simp only [Option.some.injEq, exists_eq_left']
    refine nilMap_bind_iff fun (tags, written) => ?_
    dsimp only
    split
    · exact .bind (touchOwners_spares _ _ _) fun _ _ => .bind (replicaPut_spares _ _) fun _ _ => .ok _
    · exact .ok _

theorem shardCmdPut_nil_iff {shard : Shard} :
    shardCmdPut state entry shard = .error .nilMap ↔
      ∃ stored, state.shard shard.id = some stored ∧ tagsSetNX shard.tags stored.tags = .error .nilMap := by
  have writes (state : State) (replicas : List Replica) (value : ℕ) :
      FailsOnly IsNotNilMap (do accept (← touchHosts state replicas entry.index) entry value) :=
    .bind (touchHosts_spares _ _ _) fun _ _ => .ok _
  unfold shardCmdPut
  cases state.shard shard.id with
  | none =>
    dsimp only
    split
    · exact ⟨fun failed => absurd rfl (writes _ _ _ _ failed), nofun⟩
    · exact ⟨nofun, nofun⟩
  | some stored =>
    simp only [Option.some.injEq, exists_eq_left']
    exact nilMap_bind_iff fun _ => writes _ _ _

theorem replicaCmdPut_nil_iff {replica : Replica} :
    replicaCmdPut state entry replica = .error .nilMap ↔
      ∃ stored, state.replica replica.id = some stored ∧ tagsSetNX replica.tags stored.tags = .error .nilMap := by
  unfold replicaCmdPut
  cases state.replica replica.id with
  | none => exact ⟨nofun, nofun⟩
  | some stored =>
    simp only [Option.some.injEq, exists_eq_left']
    exact nilMap_bind_iff fun _ => .bind (replicaPut_spares _ _) fun _ _ =>
      .bind (touchOwners_spares _ _ _) fun _ _ => .ok _

theorem hostCmdPut_spares {host : Host} (tagged : host.tags.isSome) :
    FailsOnly IsNotNilMap (hostCmdPut state entry host) := by
  have rest (state : State) (host : Host) (index : ℕ) : FailsOnly IsNotNilMap (do
      let replicas ← state.replicaIterateByHostID host.id
      accept (← (touchShards state replicas index).hostPut { host with updated := index }) entry 1) :=
    .bind (replicaIterateByHostID_spares _ _) fun _ _ => .bind (hostPut_spares _ _) fun _ _ => .ok _
  refine .bind (host_spares state host.id) fun found _ => ?_
  cases found with
  | none => exact rest _ _ _
  | some old =>
    refine .bind (fun panic failed nil => ?_) fun _ _ => rest _ _ _
    rw [nil, tagsSetNX_nil_iff] at failed
    rw [failed.1] at tagged
    cases tagged

theorem hostTagAction_spares {fn : TagFn} {cmd : Host}
    (tagged : ∀ (key : String) (host : Host), state.hosts.id[key]? = some host →
      FailsOnly IsNotNilMap (fn host.tags cmd.tags)) :
    FailsOnly IsNotNilMap (hostTagAction fn state entry cmd) := by
  refine .bind (host_spares state cmd.id) fun found looked => ?_
  cases found with
  | none => exact .ok _
  | some host =>
    obtain ⟨key, -, stored⟩ := State.host_eq_ok_iff.mp looked
    refine .bind (tagged key host stored) fun (tags, written) _ => ?_
    dsimp only
    split
    · exact .bind (replicaIterateByHostID_spares _ _) fun _ _ => .bind (hostPut_spares _ _) fun _ _ => .ok _
    · exact .ok _

end NilTags

section Built

/-- The commands that the constructors build. -/
inductive Built : Cmd → Prop
  | hostPut (nhid apiAddr raftAddr : String) (tagList : List String) (status : HostStatus)
      (shardTypes : Option (List String)) :
      Built (newCmdHostPut nhid apiAddr raftAddr tagList status shardTypes)
  | hostDel (nhid : String) : Built (newCmdHostDel nhid)
  | shardPost (shard : Shard) : Built (newCmdShardPost shard)
  | shardPut (shard : Shard) : Built (newCmdShardPut shard)
  | shardStatusUpdate (id : ℕ) (status : ShardStatus) : Built (newCmdShardStatusUpdate id status)
  | shardLeaderSet (shardID replicaID term : ℕ) : Built (newCmdShardLeaderSet shardID replicaID term)
  | shardDel (shardID : ℕ) : Built (newCmdShardDel shardID)
  | shardTouch (shardID : ℕ) : Built (newCmdShardTouch shardID)
  | replicaPost (nhid : String) (shardID : ℕ) (isNonVoting : Bool) :
      Built (newCmdReplicaPost nhid shardID isNonVoting)
  | replicaPut (nhid : String) (shardID replicaID : ℕ) (isNonVoting : Bool) :
      Built (newCmdReplicaPut nhid shardID replicaID isNonVoting)
  | replicaDelete (replicaID : ℕ) : Built (newCmdReplicaDelete replicaID)
  | replicaUpdateStatus (replicaID : ℕ) (status : ReplicaStatus) : Built (newCmdReplicaUpdateStatus replicaID status)
  | tagsSetNX (subject : Subject) (tagList : List String) : Built (newCmdTagsSetNX subject tagList)
  | tagsSet (subject : Subject) (tagList : List String) : Built (newCmdTagsSet subject tagList)
  | tagsRemove (subject : Subject) (tagList : List String) : Built (newCmdTagsRemove subject tagList)

/-- Hosts come with a tag map and replicas without one. -/
structure Outfits (cmd : Cmd) : Prop where
  host : ∀ host, cmd = .host .put host → host.tags.isSome
  post : ∀ replica, cmd = .replica .post replica → replica.tags = none
  put : ∀ replica, cmd = .replica .put replica → replica.tags = none

theorem outfits_host {action : Action} {host : Host} (tagged : host.tags.isSome ∨ action ≠ .put) :
    Outfits (.host action host) := by
  constructor
  · rintro _ ⟨⟩
    exact tagged.resolve_right (not_not_intro rfl)
  · rintro _ ⟨⟩
  · rintro _ ⟨⟩

theorem outfits_shard {action : Action} {shard : Shard} : Outfits (.shard action shard) := by
  constructor
  all_goals rintro _ ⟨⟩

theorem outfits_replica {action : Action} {replica : Replica}
    (nil : replica.tags = none ∨ action ≠ .post ∧ action ≠ .put) : Outfits (.replica action replica) := by
  constructor
  · rintro _ ⟨⟩
  · rintro _ ⟨⟩
    exact nil.resolve_right fun other => other.1 rfl
  · rintro _ ⟨⟩
    exact nil.resolve_right fun other => other.2 rfl

theorem outfits_newCmdTags {action : Action} (subject : Subject) (tagList : List String) (post : action ≠ .post)
    (put : action ≠ .put) : Outfits (newCmdTags action subject tagList) := by
  cases subject with
  | host => exact outfits_host (.inr put)
  | shard => exact outfits_shard
  | replica => exact outfits_replica (.inr ⟨post, put⟩)

theorem Built.outfits {cmd : Cmd} (built : Built cmd) : Outfits cmd := by
  cases built with
  | hostPut => exact outfits_host (.inl rfl)
  | hostDel => exact outfits_host (.inr (by decide))
  | replicaPost | replicaPut => exact outfits_replica (.inl rfl)
  | replicaDelete | replicaUpdateStatus => exact outfits_replica (.inr (by decide))
  | tagsSetNX subject | tagsSet subject | tagsRemove subject =>
    exact outfits_newCmdTags subject _ (by decide) (by decide)
  | _ => exact outfits_shard

/-- Every host has a tag map and no replica has one. -/
structure Outfitted (ledger : Ledger) : Prop where
  hosts : ∀ key host, ledger.hosts key = some host → host.tags.isSome
  replicas : ∀ id replica, ledger.replicas id = some replica → replica.tags = none

theorem tagFn_keeps_nil {action : Action} {fn : TagFn} (is : action.tagFn = some fn) {stored named tags : Tags}
    {changed : Bool} (done : fn stored named = .ok (tags, changed)) : tags.isSome = stored.isSome := by
  cases action with
  | tagsSet => cases is; exact (tagsSet_spec done).1
  | tagsSetNX => cases is; exact (tagsSetNX_spec done).1
  | tagsRemove => cases is; exact (tagsRemove_spec done).1
  | _ => cases is

theorem HostWrite.outfitted {key : String} {before after : Option Host} (write : HostWrite entry key before after)
    (outfits : Outfits entry.cmd) (stored : ∀ host, before = some host → host.tags.isSome) :
    ∀ host, after = some host → host.tags.isSome := by
  rintro host rfl
  cases write with
  | new cmd =>
    have tagged := outfits.host _ cmd
    exact tagged
  | put cmd _ merged => exact (tagsSetNX_spec merged).1.trans (outfits.host _ cmd)
  | tags _ _ tagFn changed => exact (tagFn_keeps_nil tagFn changed).trans (stored _ rfl)

theorem ReplicaWrite.outfitted {id : ℕ} {stored owner : Replica} {after : Option Replica}
    (write : ReplicaWrite entry id stored after owner) (outfits : Outfits entry.cmd) (nil : stored.tags = none) :
    ∀ replica, after = some replica → replica.tags = none := by
  rintro replica rfl
  cases write with
  | status => exact nil
  | put is _ merged =>
    have kept := (tagsSetNX_spec merged).1
    rw [outfits.put _ is] at kept
    exact Option.isSome_eq_false_iff.mp kept |> Option.isNone_iff_eq_none.mp
  | tags _ _ tagFn changed =>
    have kept := tagFn_keeps_nil tagFn changed
    rw [nil] at kept
    exact Option.isSome_eq_false_iff.mp kept |> Option.isNone_iff_eq_none.mp

theorem Outfitted.step {ledger after : Ledger} (outfitted : Outfitted ledger) (outfits : Outfits entry.cmd)
    (step : ledger.Step entry after) : Outfitted after := by
  have touched {chosen : Set String} (key : String) (host : Host)
      (found : PartialTable.rewrite ledger.hosts chosen (·.touch entry.index) key = some host) :
      host.tags.isSome := by
    obtain ⟨kept, -⟩ | ⟨old, kept, -, rfl⟩ := PartialTable.of_rewrite found
    · exact outfitted.hosts key host kept
    · exact outfitted.hosts key old kept
  have dropped {gone : Replica → Prop} (id : ℕ) (replica : Replica)
      (found : PartialTable.dropWhere ledger.replicas gone id = some replica) : replica.tags = none :=
    outfitted.replicas id replica (PartialTable.dropWhere_eq_some_iff.mp found).1
  cases step with
  | idle => exact outfitted
  | @host key record write =>
    refine ⟨fun other host found => ?_, dropped⟩
    obtain kept | ⟨rfl, rfl⟩ := PartialTable.of_update found
    · exact outfitted.hosts other host kept
    · exact HostWrite.outfitted write outfits (fun host => outfitted.hosts other host) host rfl
  | shardPost => exact ⟨outfitted.hosts, outfitted.replicas⟩
  | shardLeader => exact ⟨outfitted.hosts, outfitted.replicas⟩
  | shard => exact ⟨touched, dropped⟩
  | replicaPost cmd =>
    refine ⟨touched, fun other replica found => ?_⟩
    obtain kept | ⟨-, written⟩ := PartialTable.of_update found
    · exact outfitted.replicas other replica kept
    · cases written
      have nil := outfits.post _ cmd
      exact nil
  | @replica id stored owner record found write =>
    refine ⟨touched, fun other replica present => ?_⟩
    obtain kept | ⟨-, rfl⟩ := PartialTable.of_update present
    · exact outfitted.replicas other replica kept
    · exact ReplicaWrite.outfitted write outfits (outfitted.replicas id stored found) replica rfl

theorem outfitted_of_path {log : List Entry} (reached : Path Applies {} log state)
    (built : ∀ entry ∈ log, Built entry.cmd) : Outfitted state.ledger := by
  let Fits (state : State) : Prop := Outfitted state.ledger
  have initial : Fits {} := by
    constructor
    · intro key host found
      cases found
    · intro id replica found
      cases found
  refine reached.invariant initial fun entry member _ _ outfitted ⟨result, updated⟩ => ?_
  exact Outfitted.step outfitted (built entry member).outfits (update_ledger updated)

/-- The command sets no tags on a replica, sets none on a shard that has no tag map, and puts no shard without one
over a shard with tags. -/
structure SparesNilTags (state : State) (cmd : Cmd) : Prop where
  shard : ∀ action shard stored, cmd = .shard action shard → action = .tagsSet ∨ action = .tagsSetNX →
    state.shard shard.id = some stored → stored.tags = none → entries shard.tags = []
  replica : ∀ action replica, cmd = .replica action replica → action = .tagsSet ∨ action = .tagsSetNX →
    (state.replica replica.id).isSome → entries replica.tags = []
  put : ∀ shard stored, cmd = .shard .put shard → state.shard shard.id = some stored → shard.tags = none →
    entries stored.tags = []

/-- The commands that write tags. -/
inductive WritesTags : Cmd → Prop
  | tagsSet (subject : Subject) (tagList : List String) : WritesTags (newCmdTagsSet subject tagList)
  | tagsSetNX (subject : Subject) (tagList : List String) : WritesTags (newCmdTagsSetNX subject tagList)
  | tagsRemove (subject : Subject) (tagList : List String) : WritesTags (newCmdTagsRemove subject tagList)
  | hostPut (nhid apiAddr raftAddr : String) (tagList : List String) (status : HostStatus)
      (shardTypes : Option (List String)) :
      WritesTags (newCmdHostPut nhid apiAddr raftAddr tagList status shardTypes)
  | shardPut (shard : Shard) : WritesTags (newCmdShardPut shard)
  | replicaPut (nhid : String) (shardID replicaID : ℕ) (isNonVoting : Bool) :
      WritesTags (newCmdReplicaPut nhid shardID replicaID isNonVoting)

theorem update_nil_iff (valid : entry.cmd ≠ .invalid) :
    update state entry = .error .nilMap ↔ apply state entry = .error .nilMap := by
  rw [update, if_neg valid]
  exact nilMap_bind_iff fun _ => .ok _

section Subjects

variable {fn : TagFn} {action : Action}

theorem spares_host (state : State) (action : Action) (host : Host) : SparesNilTags state (.host action host) := by
  constructor
  · rintro _ _ _ ⟨⟩
  · rintro _ _ ⟨⟩
  · rintro _ _ ⟨⟩

theorem spares_shard_iff {shard : Shard} : SparesNilTags state (.shard action shard) ↔
    (action = .tagsSet ∨ action = .tagsSetNX → ∀ stored, state.shard shard.id = some stored → stored.tags = none →
      entries shard.tags = []) ∧
    (action = .put → ∀ stored, state.shard shard.id = some stored → shard.tags = none → entries stored.tags = []) := by
  constructor
  · intro spares
    refine ⟨fun kind stored => spares.shard action shard stored rfl kind, ?_⟩
    rintro rfl stored
    exact spares.put shard stored rfl
  · rintro ⟨sets, puts⟩
    constructor
    · rintro _ _ stored ⟨⟩ kind
      exact sets kind stored
    · rintro _ _ ⟨⟩
    · rintro _ stored ⟨⟩
      exact puts rfl stored

theorem spares_replica_iff {replica : Replica} : SparesNilTags state (.replica action replica) ↔
    (action = .tagsSet ∨ action = .tagsSetNX → (state.replica replica.id).isSome → entries replica.tags = []) := by
  constructor
  · exact fun spares => spares.replica action replica rfl
  · intro sets
    constructor
    · rintro _ _ _ ⟨⟩
    · rintro _ _ ⟨⟩
      exact sets
    · rintro _ _ ⟨⟩

theorem hostTags_spared {cmd : Host} (outfitted : Outfitted state.ledger)
    (sets : ∀ {new old}, fn new old = .error .nilMap → new = none) :
    hostTagAction fn state entry cmd ≠ .error .nilMap := by
  intro failed
  refine hostTagAction_spares (fun key host stored panic failed nil => ?_) _ failed rfl
  have absent : host.tags = none := sets (nil ▸ failed)
  have present := outfitted.hosts key host stored
  rw [absent] at present
  cases present

theorem shardTags_spared_iff {cmd : Shard}
    (nil_iff : ∀ {new old}, fn new old = .error .nilMap ↔ new = none ∧ entries old ≠ []) :
    shardTagAction fn state entry cmd ≠ .error .nilMap ↔
      ∀ stored, state.shard cmd.id = some stored → stored.tags = none → entries cmd.tags = [] := by
  rw [Ne, shardTagAction_nil_iff]
  simp only [nil_iff]
  grind

theorem replicaTags_spared_iff {cmd : Replica} (outfitted : Outfitted state.ledger)
    (nil_iff : ∀ {new old}, fn new old = .error .nilMap ↔ new = none ∧ entries old ≠ []) :
    replicaTagAction fn state entry cmd ≠ .error .nilMap ↔
      ((state.replica cmd.id).isSome → entries cmd.tags = []) := by
  have nil (stored : Replica) (found : state.replica cmd.id = some stored) : stored.tags = none :=
    outfitted.replicas cmd.id stored found
  rw [Ne, replicaTagAction_nil_iff]
  simp only [nil_iff, Option.isSome_iff_exists]
  grind

end Subjects

/-- After commands that the constructors build, a command that writes tags panics on a nil map unless it sets no tags
on a replica, sets none on a shard that has no tag map, and puts no shard without one over a shard with tags. -/
theorem nil_map_spared_iff {log : List Entry} (reached : Path Applies {} log state)
    (built : ∀ entry ∈ log, Built entry.cmd) (writes : WritesTags entry.cmd) :
    update state entry ≠ .error .nilMap ↔ SparesNilTags state entry.cmd := by
  have outfitted := outfitted_of_path reached built
  obtain ⟨index, cmd, result⟩ := entry
  have valid : cmd ≠ .invalid := by
    rintro rfl
    generalize same : Cmd.invalid = cmd at writes
    cases writes with
    | tagsSet subject | tagsSetNX subject | tagsRemove subject => cases subject <;> cases same
    | _ => cases same
  rw [Ne, update_nil_iff valid, ← Ne]
  cases writes with
  | tagsSet subject tagList =>
    cases subject with
    | host host =>
      change hostTagAction tagsSet state _ _ ≠ _ ↔ SparesNilTags state (.host _ _)
      exact iff_of_true (hostTags_spared outfitted fun failed => (tagsSet_nil_iff.mp failed).1) (spares_host ..)
    | shard shard =>
      change shardTagAction tagsSet state _ _ ≠ _ ↔ SparesNilTags state (.shard .tagsSet _)
      simp [shardTags_spared_iff tagsSet_nil_iff, spares_shard_iff]
    | replica replica =>
      change replicaTagAction tagsSet state _ _ ≠ _ ↔ SparesNilTags state (.replica .tagsSet _)
      simp [replicaTags_spared_iff outfitted tagsSet_nil_iff, spares_replica_iff]
  | tagsSetNX subject tagList =>
    cases subject with
    | host host =>
      change hostTagAction tagsSetNX state _ _ ≠ _ ↔ SparesNilTags state (.host _ _)
      exact iff_of_true (hostTags_spared outfitted fun failed => (tagsSetNX_nil_iff.mp failed).1) (spares_host ..)
    | shard shard =>
      change shardTagAction tagsSetNX state _ _ ≠ _ ↔ SparesNilTags state (.shard .tagsSetNX _)
      simp [shardTags_spared_iff tagsSetNX_nil_iff, spares_shard_iff]
    | replica replica =>
      change replicaTagAction tagsSetNX state _ _ ≠ _ ↔ SparesNilTags state (.replica .tagsSetNX _)
      simp [replicaTags_spared_iff outfitted tagsSetNX_nil_iff, spares_replica_iff]
  | tagsRemove subject tagList =>
    cases subject with
    | host host =>
      change hostTagAction tagsRemove state _ _ ≠ _ ↔ SparesNilTags state (.host _ _)
      exact iff_of_true (hostTags_spared outfitted nofun) (spares_host ..)
    | shard shard =>
      change shardTagAction tagsRemove state _ _ ≠ _ ↔ SparesNilTags state (.shard .tagsRemove _)
      simp [shardTagAction_nil_iff, tagsRemove, spares_shard_iff]
    | replica replica =>
      change replicaTagAction tagsRemove state _ _ ≠ _ ↔ SparesNilTags state (.replica .tagsRemove _)
      simp [replicaTagAction_nil_iff, tagsRemove, spares_replica_iff]
  | hostPut =>
    change hostCmdPut state _ _ ≠ _ ↔ SparesNilTags state (.host _ _)
    exact iff_of_true (fun failed => hostCmdPut_spares rfl _ failed rfl) (spares_host ..)
  | shardPut shard =>
    change shardCmdPut state _ shard ≠ _ ↔ SparesNilTags state (.shard .put shard)
    simp only [Ne, shardCmdPut_nil_iff, tagsSetNX_nil_iff, spares_shard_iff, reduceCtorEq, or_self, false_implies,
      true_and, true_implies]
    grind
  | replicaPut nhid shardID replicaID isNonVoting =>
    change replicaCmdPut state _ ⟨replicaID, 0, 0, _, none, nhid, isNonVoting, false, shardID⟩ ≠ _ ↔
      SparesNilTags state (.replica .put _)
    have nil (stored : Replica) (found : state.replica replicaID = some stored) : stored.tags = none :=
      outfitted.replicas replicaID stored found
    simp only [Ne, replicaCmdPut_nil_iff, tagsSetNX_nil_iff, spares_replica_iff, reduceCtorEq, or_self, false_implies,
      iff_true]
    rintro ⟨stored, found, -, tagged⟩
    rw [nil stored found] at tagged
    exact tagged rfl

/-- Tags are set on a shard that was posted with an empty map. -/
theorem tags_set_on_tagged_shard :
    ∃ state, Path Applies {} [{ index := 1, cmd := newCmdShardPost { name := "a", tags := some ∅ } }] state ∧
      update state { index := 2, cmd := newCmdTagsSet (.shard { id := 1 }) ["zone=b"] } ≠ .error .nilMap := by
  have path : ∃ state, Path Applies {} [{ index := 1, cmd := newCmdShardPost { name := "a", tags := some ∅ } }] state ∧
      state.shard 1 = some { id := 1, created := 1, updated := 1, name := "a", tags := some ∅ } :=
    ⟨_, Path.singleton_iff.mpr ⟨_, rfl⟩, rfl⟩
  obtain ⟨state, reached, stored⟩ := path
  have writes : WritesTags (newCmdTagsSet (.shard { id := 1 }) ["zone=b"]) := .tagsSet _ _
  refine ⟨state, reached, (nil_map_spared_iff reached ?_ writes).mpr (spares_shard_iff.mpr ⟨?_, nofun⟩)⟩
  · simp only [List.mem_singleton, forall_eq]
    exact .shardPost _
  · intro _ shard found nil
    cases stored.symm.trans found
    cases nil

/-- A replica never has a tag map, so the first tag that is set on it stops the state machine. -/
theorem tags_set_on_replica_panics :
    ∃ state, Path Applies {} [
        { index := 1, cmd := newCmdHostPut exampleHost.id "" "" [] .active none },
        { index := 2, cmd := newCmdShardPost { name := "a", tags := some ∅ } },
        { index := 3, cmd := newCmdReplicaPost exampleHost.id 1 false }] state ∧
      update state { index := 4, cmd := newCmdTagsSet (.replica { id := 1 }) ["zone=b"] } = .error .nilMap :=
  ⟨_, .snoc (.snoc (.snoc .nil ⟨_, rfl⟩) ⟨_, rfl⟩) ⟨_, rfl⟩, rfl⟩

end Built

end Fsm

end Zongzi
