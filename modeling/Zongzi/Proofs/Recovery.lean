import Zongzi.Model.Snapshot
import Zongzi.Proofs.Names

/-! # Saving and recovering the registry

Recovery never clears a table, so a recovered snapshot lies over whatever the registry held
(`State.Overlays`). Recovered into a fresh registry the identifier maps and the meta values are those
of the saved one. The name index is rebuilt in identifier order; it is the saved one when names
identify shards, and then the recovered registry is the saved one.
-/

namespace Zongzi

open Std SecondaryIndex ExceptFold Machine

/-- Reading back what was written inserts the values in order. -/
theorem Coder.readAll_writeAll {σ α : Type} {newline : σ} (coder : Coder σ α newline)
    (insert : State → α → Except Panic State) (label : String) (values : List α) (state : State)
    (rest : List σ) :
    coder.readAll insert label values.length state (coder.writeAll values ++ rest) =
      (do return (← values.foldlM insert state, .ok rest)) := by
  induction values generalizing state with
  | nil => rfl
  | cons value values ih =>
    have decoded : coder.decode (coder.writeAll (value :: values) ++ rest) =
        .ok (value, coder.writeAll values ++ rest) := by
      rw [← coder.decode_marshal value (coder.writeAll values ++ rest)]
      simp [writeAll]
    rw [List.length_cons, readAll, decoded, List.foldlM_cons]
    simp only [ih, bind_assoc]

namespace State

variable {saved : State}

/-- The parsed identifier, where there is one. -/
def hostKey (host : Host) : String := (uuidKey host.id).getD ""

theorem keyed_hostKey (state : State) : Keyed hostKey state.hosts.id := by
  intro key host stored
  rw [hostKey, state.hosts.keyed key host stored]
  rfl

/-- Inserting hosts with valid identifiers only fills the host table. -/
theorem foldlM_hostPut {hosts : List Host} (valid : ∀ host ∈ hosts, (uuidKey host.id).isSome)
    (target : State) :
    ∃ table : HostTable, hosts.foldlM hostPut target = .ok { target with hosts := table } ∧
      table.id = hosts.foldl (fun hosts host => hosts.insert (hostKey host) host) target.hosts.id := by
  induction hosts generalizing target with
  | nil => exact ⟨target.hosts, rfl, rfl⟩
  | cons host rest ih =>
    obtain ⟨key, parsed⟩ := Option.isSome_iff_exists.mp (valid host (List.mem_cons_self ..))
    have put : target.hostPut host =
        .ok { target with hosts := target.hosts.insert host key parsed } :=
      hostPut_eq_ok_iff.mpr ⟨key, parsed, rfl⟩
    obtain ⟨table, folded, filled⟩ :=
      ih (fun other member => valid other (List.mem_cons_of_mem _ member))
        { target with hosts := target.hosts.insert host key parsed }
    refine ⟨table, ?_, ?_⟩
    · rw [List.foldlM_cons, put]
      exact folded
    · rw [filled, List.foldl_cons, hostKey, parsed]
      rfl

theorem foldlM_replicaPut {replicas : List Replica}
    (valid : ∀ replica ∈ replicas, (uuidKey replica.hostID).isSome) (target : State) :
    ∃ table : ReplicaTable, replicas.foldlM replicaPut target = .ok { target with replicas := table } ∧
      table.id = replicas.foldl (fun replicas replica => replicas.insert replica.id replica)
        target.replicas.id := by
  induction replicas generalizing target with
  | nil => exact ⟨target.replicas, rfl, rfl⟩
  | cons replica rest ih =>
    have hosted := valid replica (List.mem_cons_self ..)
    have put : target.replicaPut replica =
        .ok { target with replicas := target.replicas.insert replica hosted } :=
      replicaPut_eq_ok_iff.mpr ⟨hosted, rfl⟩
    obtain ⟨table, folded, filled⟩ :=
      ih (fun other member => valid other (List.mem_cons_of_mem _ member))
        { target with replicas := target.replicas.insert replica hosted }
    refine ⟨table, ?_, ?_⟩
    · rw [List.foldlM_cons, put]
      exact folded
    · rw [filled, List.foldl_cons]
      rfl

theorem foldlM_shardPut (shards : List Shard) (target : State) :
    shards.foldlM (fun state shard => (.ok (state.shardPut shard) : Except Panic State)) target =
      .ok { target with shards := shards.foldl ShardTable.insert target.shards } := by
  induction shards generalizing target with
  | nil => rfl
  | cons shard rest ih => rw [List.foldlM_cons]; exact ih (target.shardPut shard)

theorem id_foldl_insert (shards : List Shard) (table : ShardTable) :
    (shards.foldl ShardTable.insert table).id =
      shards.foldl (fun shards shard => shards.insert shard.id shard) table.id := by
  induction shards generalizing table with
  | nil => rfl
  | cons shard rest ih => rw [List.foldl_cons, ih]; rfl

/-- The registry that recovering `saved` into `target` produces: the meta values of the saved one,
its records, and the records of the target under other identifiers. -/
structure Overlays (recovered saved target : State) : Prop where
  index : recovered.index = saved.index
  hostID : recovered.hostID = saved.hostID
  shardID : recovered.shardID = saved.shardID
  replicaID : recovered.replicaID = saved.replicaID
  hosts : ∀ key : String,
    recovered.hosts.id[key]? = saved.hosts.id[key]?.or target.hosts.id[key]?
  shards : ∀ id, recovered.shard id = (saved.shard id).or (target.shard id)
  replicas : ∀ id, recovered.replica id = (saved.replica id).or (target.replica id)
  table : recovered.shards = saved.shardIterate.foldl ShardTable.insert target.shards

/-- Recovering what was saved reads the whole stream and lays it over the target. -/
theorem recover_save {σ : Type} (codec : Codec σ) (saved target : State) :
    ∃ recovered, target.recover codec (saved.save codec) = .ok (recovered, .ok []) ∧
      recovered.Overlays saved target := by
  have validHosts : ∀ host ∈ saved.hostIterate, (uuidKey host.id).isSome := by
    intro host member
    have stored := saved.keyed_hostKey.mem_values.mp member
    rw [saved.hosts.keyed _ host stored]
    rfl
  have validReplicas : ∀ replica ∈ saved.replicaIterate, (uuidKey replica.hostID).isSome := by
    intro replica member
    exact saved.replicas.hosted _ replica (mem_replicaIterate.mp member)
  obtain ⟨hosts, hostsRead, hostsFilled⟩ := foldlM_hostPut validHosts (target.setMeta saved.header)
  obtain ⟨replicas, replicasRead, replicasFilled⟩ := foldlM_replicaPut validReplicas
    { target.setMeta saved.header with
      hosts := hosts
      shards := saved.shardIterate.foldl ShardTable.insert target.shards }
  refine ⟨{ target.setMeta saved.header with
      hosts := hosts
      shards := saved.shardIterate.foldl ShardTable.insert target.shards
      replicas := replicas }, ?_, rfl, rfl, rfl, rfl, ?_, ?_, ?_, rfl⟩
  · have readHosts := codec.host.readAll_writeAll hostPut "parse host: " saved.hostIterate
      (target.setMeta saved.header) (codec.shard.writeAll saved.shardIterate ++
        codec.replica.writeAll saved.replicaIterate)
    have readShards := codec.shard.readAll_writeAll (fun state shard => .ok (state.shardPut shard))
      "parse shard: " saved.shardIterate { target.setMeta saved.header with hosts := hosts }
      (codec.replica.writeAll saved.replicaIterate)
    have readReplicas := codec.replica.readAll_writeAll replicaPut "parse replica: "
      saved.replicaIterate { target.setMeta saved.header with
        hosts := hosts
        shards := saved.shardIterate.foldl ShardTable.insert target.shards } []
    rw [hostsRead] at readHosts
    rw [foldlM_shardPut] at readShards
    rw [replicasRead, List.append_nil] at readReplicas
    rw [recover, save, codec.header.decode_marshal]
    change (codec.host.readAll hostPut "parse host: " saved.hostIterate.length _ _ >>= _) = _
    rw [readHosts]
    change (codec.shard.readAll _ "parse shard: " saved.shardIterate.length _ _ >>= _) = _
    rw [readShards]
    exact readReplicas
  · intro key
    rw [hostsFilled]
    exact saved.keyed_hostKey.getElem?_foldl_insert key
  · intro id
    rw [State.shard, id_foldl_insert]
    exact saved.shards.keyed.getElem?_foldl_insert id
  · intro id
    rw [State.replica, replicasFilled]
    exact saved.replicas.keyed.getElem?_foldl_insert id

/-- The records and meta values of one registry are those of another. -/
structure SameRecords (left right : State) : Prop where
  hosts : left.hosts.id = right.hosts.id
  shards : left.shards.id = right.shards.id
  replicas : left.replicas.id = right.replicas.id
  index : left.index = right.index
  hostID : left.hostID = right.hostID
  shardID : left.shardID = right.shardID
  replicaID : left.replicaID = right.replicaID

/-- Laid over an empty registry, a snapshot is all there is. -/
theorem Overlays.sameRecords {recovered : State} (overlays : recovered.Overlays saved {}) :
    recovered.SameRecords saved := by
  refine ⟨?_, ?_, ?_, overlays.index, overlays.hostID, overlays.shardID, overlays.replicaID⟩
  · apply ExtTreeMap.ext_getElem?
    intro key
    rw [overlays.hosts]
    exact (congrArg _ ExtTreeMap.getElem?_empty).trans Option.or_none
  · apply ExtTreeMap.ext_getElem?
    intro id
    exact ((overlays.shards id).trans (congrArg _ ExtTreeMap.getElem?_empty)).trans Option.or_none
  · apply ExtTreeMap.ext_getElem?
    intro id
    exact ((overlays.replicas id).trans (congrArg _ ExtTreeMap.getElem?_empty)).trans Option.or_none

/-- A snapshot depends on the records and the meta values only. -/
theorem SameRecords.save {σ : Type} {left right : State} (same : left.SameRecords right)
    (codec : Codec σ) : left.save codec = right.save codec := by
  obtain ⟨hosts, shards, replicas, index, hostID, shardID, replicaID⟩ := same
  simp only [State.save, header, hostIterate, shardIterate, replicaIterate, hosts, shards, replicas,
    index, hostID, shardID, replicaID]

/-- What was saved is read back to the end of the stream, record by record, and saves as the same
stream. -/
theorem snapshot_round_trip {σ : Type} (codec : Codec σ) (saved : State) :
    ∃ recovered, ({} : State).recover codec (saved.save codec) = .ok (recovered, .ok []) ∧
      recovered.SameRecords saved ∧ recovered.save codec = saved.save codec := by
  obtain ⟨recovered, read, overlays⟩ := recover_save codec saved {}
  exact ⟨recovered, read, overlays.sameRecords, overlays.sameRecords.save codec⟩

/-- Every record of the target is written again by the snapshot. -/
structure Covers (saved target : State) : Prop where
  hosts : ∀ key : String, (target.hosts.id[key]?).isSome → (saved.hosts.id[key]?).isSome
  shards : ∀ id, (target.shard id).isSome → (saved.shard id).isSome
  replicas : ∀ id, (target.replica id).isSome → (saved.replica id).isSome

private theorem or_eq_left_iff {α : Type} {first second : Option α} :
    first.or second = first ↔ (second.isSome → first.isSome) := by
  cases first <;> cases second <;> simp

/-- Recovery leaves exactly the saved records and meta values when, and only when, the snapshot
covers every record the registry held. -/
theorem recover_replaces_iff {σ : Type} (codec : Codec σ) (saved target : State) :
    ∃ recovered, target.recover codec (saved.save codec) = .ok (recovered, .ok []) ∧
      (recovered.SameRecords saved ↔ saved.Covers target) := by
  obtain ⟨recovered, read, overlays⟩ := recover_save codec saved target
  refine ⟨recovered, read, ?_, ?_⟩
  · intro same
    refine ⟨fun key => ?_, fun id => ?_, fun id => ?_⟩
    · rw [← or_eq_left_iff, ← overlays.hosts, same.hosts]
    · rw [← or_eq_left_iff, ← overlays.shards, State.shard, same.shards, State.shard]
    · rw [← or_eq_left_iff, ← overlays.replicas, State.replica, same.replicas, State.replica]
  · intro covers
    refine ⟨?_, ?_, ?_, overlays.index, overlays.hostID, overlays.shardID, overlays.replicaID⟩
    · apply ExtTreeMap.ext_getElem?
      intro key
      rw [overlays.hosts, or_eq_left_iff]
      exact covers.hosts key
    · apply ExtTreeMap.ext_getElem?
      intro id
      exact (overlays.shards id).trans (or_eq_left_iff.mpr (covers.shards id))
    · apply ExtTreeMap.ext_getElem?
      intro id
      exact (overlays.replicas id).trans (or_eq_left_iff.mpr (covers.replicas id))

/-- Inserting the shards of a registry whose names identify them keeps every name findable. -/
theorem complete_foldl_insert (names : saved.NamesIdentify) {shards : List Shard} {table : ShardTable}
    (listed : ∀ shard ∈ shards, saved.shard shard.id = some shard)
    (within : ∀ id shard, table.id[id]? = some shard → saved.shard id = some shard)
    (complete : Complete Shard.id Shard.nameKeys table.id table.name) :
    Complete Shard.id Shard.nameKeys (shards.foldl ShardTable.insert table).id
      (shards.foldl ShardTable.insert table).name := by
  induction shards generalizing table with
  | nil => exact complete
  | cons shard rest ih =>
    have stored := listed shard (List.mem_cons_self ..)
    refine ih (fun other member => listed other (List.mem_cons_of_mem _ member)) ?_ ?_
    · intro id other present
      simp only [ShardTable.insert, ExtTreeMap.getElem?_insert, LawfulEqCmp.compare_eq_iff_eq]
        at present
      split at present
      · next same => cases present; rw [← same]; exact stored
      · exact within id other present
    · refine complete.refile table.keyed shard ?_
      intro other present different name filed taken
      obtain ⟨rfl, named⟩ := mem_nameKeys.mp filed
      obtain ⟨same, -⟩ := mem_nameKeys.mp taken
      exact different (names.1 other.id shard.id other shard (within _ other present) stored
        (same ▸ named) same)

/-- Recovered into a fresh registry, a registry whose names identify its shards comes back whole. -/
theorem recover_save_fresh {σ : Type} (codec : Codec σ) (names : saved.NamesIdentify) :
    ({} : State).recover codec (saved.save codec) = .ok (saved, .ok []) := by
  obtain ⟨recovered, read, overlays⟩ := recover_save codec saved {}
  have same := overlays.sameRecords
  have complete : Complete Shard.id Shard.nameKeys recovered.shards.id recovered.shards.name := by
    rw [overlays.table]
    exact complete_foldl_insert names (fun shard => mem_shardIterate.mp)
      (fun id shard present => by cases present) mirrors_empty.complete
  have index : recovered.shards.name = saved.shards.name :=
    Mirrors.unique ⟨recovered.shards.name_sound, complete⟩
      (by rw [same.shards]; exact ⟨saved.shards.name_sound, namesIdentify_iff_complete.mp names⟩)
  rw [read, ext_maps same.index same.hostID same.shardID same.replicaID same.hosts same.shards index
    same.replicas]

/-- Two registries answer every query of the state alike. -/
structure SameAnswers (left right : State) : Prop where
  host : ∀ id, left.host id = right.host id
  shard : ∀ id, left.shard id = right.shard id
  shardFindByName : ∀ name, left.shardFindByName name = right.shardFindByName name
  replica : ∀ id, left.replica id = right.replica id
  shardIterate : left.shardIterate = right.shardIterate
  replicaIterateByShardID : ∀ id,
    left.replicaIterateByShardID id = right.replicaIterateByShardID id
  replicaIterateByHostID : ∀ id, left.replicaIterateByHostID id = right.replicaIterateByHostID id
  index : left.index = right.index
  shardID : left.shardID = right.shardID
  replicaID : left.replicaID = right.replicaID

theorem SameAnswers.refl (state : State) : state.SameAnswers state := by
  constructor <;> intros <;> rfl

end State

namespace Fsm

/-- A follower that missed the deletion of a host keeps the host when it recovers the snapshot. -/
theorem recovered_follower_keeps_deleted_host :
    ∃ stale saved recovered results, run {} [{ index := 1, cmd := .host .put exampleHost }] =
        .ok (stale, [{ value := 1 }]) ∧
      run {} [{ index := 1, cmd := .host .put exampleHost },
        { index := 2, cmd := newCmdHostDel exampleHost.id }] = .ok (saved, results) ∧
      stale.recover Codec.tokens (saved.save Codec.tokens) = .ok (recovered, .ok []) ∧
      saved.host exampleHost.id = .ok none ∧
      (recovered.host exampleHost.id).map (·.isSome) = .ok true :=
  ⟨_, _, _, _, rfl, rfl, rfl, rfl, rfl⟩

/-- Replaying a log and recovering a snapshot of its first part give the same results and answers,
when every put of the first part carries a free name. -/
theorem snapshot_replay {σ : Type} (codec : Codec σ) {first second : List Entry} {saved last : State}
    {before results : List Result} (ran : run {} first = .ok (saved, before))
    (direct : run {} (first ++ second) = .ok (last, before ++ results))
    (free : AlwaysStep Applies {} first PutsFreeName) :
    ∃ recovered final, ({} : State).recover codec (saved.save codec) = .ok (recovered, .ok []) ∧
      run recovered second = .ok (final, results) ∧ final.SameAnswers last := by
  have path := path_iff_run.mpr ⟨before, ran⟩
  have always := free.always State.namesIdentify_empty
    fun _ _ _ _ _ _ _ names puts applied => (namesIdentify_step names applied).mpr puts
  have names := always.last path
  obtain ⟨middle, front, back, left, right, same⟩ := run_append_eq_ok_iff.mp direct
  cases ran.symm.trans left
  rw [List.append_cancel_left same]
  exact ⟨saved, last, State.recover_save_fresh codec names, right, .refl last⟩

/-- Two posts after a snapshot. -/
def repostLog : List Entry :=
  [{ index := 2, cmd := newCmdShardPost { name := "a" } },
   { index := 3, cmd := newCmdShardPost { name := "b" } }]

/-- A name posted before the snapshot is still taken after it. -/
theorem recovered_replica_replays_posts :
    ∃ saved before last recovered final,
      run {} [{ index := 1, cmd := newCmdShardPost { name := "a" } }] = .ok (saved, before) ∧
      run {} ([{ index := 1, cmd := newCmdShardPost { name := "a" } }] ++ repostLog) =
        .ok (last, before ++ [{ data := "Shard already exists: a" }, { value := 2 }]) ∧
      ({} : State).recover Codec.tokens (saved.save Codec.tokens) = .ok (recovered, .ok []) ∧
      run recovered repostLog =
        .ok (final, [{ data := "Shard already exists: a" }, { value := 2 }]) ∧
      final.SameAnswers last := by
  have direct : ∃ saved before last,
      run {} [{ index := 1, cmd := newCmdShardPost { name := "a" } }] = .ok (saved, before) ∧
      run {} ([{ index := 1, cmd := newCmdShardPost { name := "a" } }] ++ repostLog) =
        .ok (last, before ++ [{ data := "Shard already exists: a" }, { value := 2 }]) :=
    ⟨_, _, _, rfl, rfl⟩
  obtain ⟨saved, before, last, ran, direct⟩ := direct
  obtain ⟨recovered, final, read, replayed, same⟩ := snapshot_replay Codec.tokens ran direct
    (alwaysStep_putsFreeName (by simp [newCmdShardPost]))
  exact ⟨saved, before, last, recovered, final, ran, direct, read, replayed, same⟩

/-- A name shared by two shards is lost with either, but recovery finds it again: the next post
under that name is accepted by the replica that replayed and rejected by the one that recovered. -/
theorem recovered_replica_rejects_accepted_post :
    ∃ saved last recovered final before,
      run {} (renameLog ++ [{ index := 4, cmd := newCmdShardDel 1 }]) = .ok (saved, before) ∧
      run saved [{ index := 5, cmd := newCmdShardPost { name := "a" } }] =
        .ok (last, [{ value := 3 }]) ∧
      ({} : State).recover Codec.tokens (saved.save Codec.tokens) = .ok (recovered, .ok []) ∧
      run recovered [{ index := 5, cmd := newCmdShardPost { name := "a" } }] =
        .ok (final, [{ data := "Shard already exists: a" }]) :=
  ⟨_, _, _, _, _, rfl, rfl, rfl, rfl⟩

end Fsm

section Failed

variable {σ α : Type} {newline : σ}

/-- The values that can be decoded before a count is reached or decoding fails. -/
def Coder.decodeAll (coder : Coder σ α newline) : ℕ → List σ → List α × Except String (List σ)
  | 0, stream => ([], .ok stream)
  | count + 1, stream =>
    match coder.decode stream with
    | .error message => ([], .error message)
    | .ok (value, rest) =>
      let (values, left) := coder.decodeAll count rest
      (value :: values, left)

/-- Everything that is decoded is inserted. -/
theorem Coder.of_readAll {coder : Coder σ α newline} {insert : State → α → Except Panic State} {label : String}
    {count : ℕ} {state next : State} {stream : List σ} {read : Except String (List σ)}
    (ran : coder.readAll insert label count state stream = .ok (next, read)) :
    (coder.decodeAll count stream).1.foldlM insert state = .ok next ∧
      read = (coder.decodeAll count stream).2.mapError (label ++ ·) := by
  induction count generalizing state stream with
  | zero =>
    cases ran
    exact ⟨rfl, rfl⟩
  | succ count ih =>
    unfold readAll at ran
    unfold decodeAll
    cases decoded : coder.decode stream with
    | error message =>
      rw [decoded] at ran
      cases ran
      exact ⟨rfl, rfl⟩
    | ok pair =>
      rw [decoded] at ran
      obtain ⟨middle, inserted, ran⟩ := ExceptFold.bind_eq_ok_iff.mp ran
      obtain ⟨rest, left⟩ := ih ran
      refine ⟨?_, left⟩
      rw [List.foldlM_cons, inserted]
      exact rest

/-- What can be decoded of a snapshot. -/
structure Decoded where
  header : Header
  hosts : List Host := []
  shards : List Shard := []
  replicas : List Replica := []

/-- Decode a snapshot up to its end or to the first failure. -/
def Codec.decode (codec : Codec σ) (stream : List σ) : Option Decoded :=
  match codec.header.decode stream with
  | .error _ => none
  | .ok (header, stream) =>
    match codec.host.decodeAll header.hosts stream with
    | (hosts, .error _) => some { header, hosts }
    | (hosts, .ok stream) =>
      match codec.shard.decodeAll header.shards stream with
      | (shards, .error _) => some { header, hosts, shards }
      | (shards, .ok stream) =>
        some { header, hosts, shards, replicas := (codec.replica.decodeAll header.replicas stream).1 }

namespace State

variable {target recovered next : State}

theorem of_foldlM_hostPut {hosts : List Host} (put : hosts.foldlM hostPut target = .ok next) :
    ∃ table : HostTable, next = { target with hosts := table } ∧
      table.id = hosts.foldl (fun hosts host => hosts.insert (hostKey host) host) target.hosts.id := by
  induction hosts generalizing target with
  | nil =>
    cases put
    exact ⟨_, rfl, rfl⟩
  | cons host hosts ih =>
    rw [List.foldlM_cons] at put
    obtain ⟨middle, first, rest⟩ := ExceptFold.bind_eq_ok_iff.mp put
    obtain ⟨key, parsed, rfl⟩ := hostPut_eq_ok_iff.mp first
    obtain ⟨table, rfl, filled⟩ := ih rest
    refine ⟨table, rfl, ?_⟩
    rw [filled, List.foldl_cons, hostKey, parsed]
    rfl

theorem of_foldlM_replicaPut {replicas : List Replica} (put : replicas.foldlM replicaPut target = .ok next) :
    ∃ table : ReplicaTable, next = { target with replicas := table } ∧
      table.id = replicas.foldl (fun replicas replica => replicas.insert replica.id replica) target.replicas.id := by
  induction replicas generalizing target with
  | nil =>
    cases put
    exact ⟨_, rfl, rfl⟩
  | cons replica replicas ih =>
    rw [List.foldlM_cons] at put
    obtain ⟨middle, first, rest⟩ := ExceptFold.bind_eq_ok_iff.mp put
    obtain ⟨hosted, rfl⟩ := replicaPut_eq_ok_iff.mp first
    obtain ⟨table, rfl, filled⟩ := ih rest
    refine ⟨table, rfl, ?_⟩
    rw [filled, List.foldl_cons]
    rfl

/-- The meta values are those of the header, and everything decoded is laid over the tables. -/
structure Takes (recovered target : State) (decoded : Decoded) : Prop where
  index : recovered.index = decoded.header.index
  hostID : recovered.hostID = decoded.header.hostID
  shardID : recovered.shardID = decoded.header.shardID
  replicaID : recovered.replicaID = decoded.header.replicaID
  hosts : recovered.hosts.id =
    decoded.hosts.foldl (fun hosts host => hosts.insert (hostKey host) host) target.hosts.id
  shards : recovered.shards = decoded.shards.foldl ShardTable.insert target.shards
  replicas : recovered.replicas.id =
    decoded.replicas.foldl (fun replicas replica => replicas.insert replica.id replica) target.replicas.id

/-- Recovery keeps what it has decoded, whether it fails or not. -/
theorem recover_takes {codec : Codec σ} {stream : List σ} {read : Except String (List σ)}
    (ran : target.recover codec stream = .ok (recovered, read)) :
    (codec.decode stream = none ∧ recovered = target) ∨
      ∃ decoded, codec.decode stream = some decoded ∧ recovered.Takes target decoded := by
  unfold recover at ran
  unfold Codec.decode
  cases decoded : codec.header.decode stream with
  | error message =>
    rw [decoded] at ran
    cases ran
    exact .inl ⟨rfl, rfl⟩
  | ok pair =>
    obtain ⟨header, rest⟩ := pair
    rw [decoded] at ran
    right
    dsimp only
    obtain ⟨⟨first, read⟩, ranHosts, ran⟩ := ExceptFold.bind_eq_ok_iff.mp ran
    obtain ⟨putHosts, rfl⟩ := Coder.of_readAll ranHosts
    generalize codec.host.decodeAll header.hosts rest = hosts at putHosts ran ⊢
    obtain ⟨hosts, left⟩ := hosts
    obtain ⟨hostTable, rfl, filledHosts⟩ := of_foldlM_hostPut putHosts
    cases left with
    | error message =>
      cases ran
      refine ⟨_, rfl, ?_⟩
      exact ⟨rfl, rfl, rfl, rfl, filledHosts, rfl, rfl⟩
    | ok rest =>
      obtain ⟨⟨second, read⟩, ranShards, ran⟩ := ExceptFold.bind_eq_ok_iff.mp ran
      obtain ⟨putShards, rfl⟩ := Coder.of_readAll ranShards
      dsimp only
      generalize codec.shard.decodeAll header.shards rest = shards at putShards ran ⊢
      obtain ⟨shards, left⟩ := shards
      rw [foldlM_shardPut] at putShards
      cases putShards
      cases left with
      | error message =>
        cases ran
        refine ⟨_, rfl, ?_⟩
        exact ⟨rfl, rfl, rfl, rfl, filledHosts, rfl, rfl⟩
      | ok rest =>
        obtain ⟨putReplicas, -⟩ := Coder.of_readAll ran
        obtain ⟨replicaTable, rfl, filledReplicas⟩ := of_foldlM_replicaPut putReplicas
        refine ⟨_, rfl, ?_⟩
        exact ⟨rfl, rfl, rfl, rfl, filledHosts, rfl, filledReplicas⟩

/-- Under every key the last value that was decoded is the one that is stored. -/
def RepeatsLast {κ β : Type} [Ord κ] [TransOrd κ] [DecidableEq κ] (key : β → κ) (values : List β)
    (table : ExtTreeMap κ β) : Prop :=
  ∀ name value, values.reverse.find? (key · = name) = some value → table[name]? = some value

theorem repeatsLast_singleton {κ β : Type} [Ord κ] [TransOrd κ] [DecidableEq κ] {key : β → κ} {value : β}
    {table : ExtTreeMap κ β} (stored : table[key value]? = some value) : RepeatsLast key [value] table := by
  intro name other last
  simp only [List.reverse_singleton, List.find?_singleton, Option.ite_none_right_eq_some, decide_eq_true_eq] at last
  obtain ⟨rfl, same⟩ := last
  cases same
  exact stored

/-- Values that are inserted leave a table as it was exactly if they repeat it. -/
theorem foldl_insert_eq_iff {κ β : Type} [Ord κ] [TransOrd κ] [LawfulEqOrd κ] [DecidableEq κ] (key : β → κ)
    (values : List β) (table : ExtTreeMap κ β) :
    values.foldl (fun table value => table.insert (key value) value) table = table ↔ RepeatsLast key values table := by
  have lookup (name : κ) : (values.foldl (fun table value => table.insert (key value) value) table)[name]? =
      (values.reverse.find? (key · = name)).or table[name]? := by
    induction values using List.reverseRecOn with
    | nil => simp
    | append_singleton values value ih =>
      rw [List.foldl_append, List.foldl_cons, List.foldl_nil, ExtTreeMap.getElem?_insert, List.reverse_concat,
        List.find?_cons]
      by_cases same : key value = name
      · simp [same]
      · simp [same, ih]
  constructor
  · intro same name value last
    have found := lookup name
    rw [same, last] at found
    exact found
  · intro repeats
    apply ExtTreeMap.ext_getElem?
    intro name
    rw [lookup]
    cases last : values.reverse.find? (key · = name) with
    | none => rfl
    | some value => exact (repeats name value last).symm

/-- What the last shard that has a name, or that replaces one with this name, leaves under it. -/
def lastNamed (table : ExtTreeMap ℕ Shard) (name : String) : List Shard → Option (Option Shard)
  | [] => none
  | shard :: shards =>
    (lastNamed (table.insert shard.id shard) name shards).or
      (if name ∈ shard.nameKeys then some (some shard)
      else if table[shard.id]?.any (name ∈ ·.nameKeys) then some none else none)

theorem name_foldl_insert (shards : List Shard) (table : ShardTable) (name : String) :
    (shards.foldl ShardTable.insert table).name[name]? =
      (lastNamed table.id name shards).getD table.name[name]? := by
  induction shards generalizing table with
  | nil => rfl
  | cons shard shards ih =>
    have written : (table.insert shard).name[name]? = _ := getElem?_refile ..
    rw [List.foldl_cons, ih, written, lastNamed]
    change (lastNamed (table.id.insert shard.id shard) name shards).getD _ = _
    cases lastNamed (table.id.insert shard.id shard) name shards with
    | some entry => rfl
    | none => split <;> [rfl; split <;> rfl]

/-- The header and the records of a snapshot repeat what the registry has, and so do the names of its shards. -/
structure Repeats (target : State) (decoded : Decoded) : Prop where
  index : decoded.header.index = target.index
  hostID : decoded.header.hostID = target.hostID
  shardID : decoded.header.shardID = target.shardID
  replicaID : decoded.header.replicaID = target.replicaID
  hosts : RepeatsLast hostKey decoded.hosts target.hosts.id
  shards : RepeatsLast Shard.id decoded.shards target.shards.id
  names : ∀ name entry, lastNamed target.shards.id name decoded.shards = some entry →
    target.shards.name[name]? = entry
  replicas : RepeatsLast Replica.id decoded.replicas target.replicas.id

theorem foldl_insert_shards_iff (shards : List Shard) (table : ShardTable) :
    shards.foldl ShardTable.insert table = table ↔ RepeatsLast Shard.id shards table.id ∧
      ∀ name entry, lastNamed table.id name shards = some entry → table.name[name]? = entry := by
  rw [← foldl_insert_eq_iff, ← id_foldl_insert]
  constructor
  · intro same
    refine ⟨congrArg ShardTable.id same, fun name entry last => ?_⟩
    have found := name_foldl_insert shards table name
    rwa [same, last, Option.getD_some] at found
  · rintro ⟨ids, names⟩
    refine ShardTable.ext ids (ExtTreeMap.ext_getElem? fun name => ?_)
    rw [name_foldl_insert]
    cases last : lastNamed table.id name shards with
    | none => rfl
    | some entry => exact (names name entry last).symm

theorem Takes.eq_iff {decoded : Decoded} (takes : recovered.Takes target decoded) :
    recovered = target ↔ target.Repeats decoded := by
  constructor
  · rintro rfl
    obtain ⟨shards, names⟩ := (foldl_insert_shards_iff ..).mp takes.shards.symm
    exact ⟨takes.index.symm, takes.hostID.symm, takes.shardID.symm, takes.replicaID.symm,
      (foldl_insert_eq_iff ..).mp takes.hosts.symm, shards, names, (foldl_insert_eq_iff ..).mp takes.replicas.symm⟩
  · rintro ⟨index, hostID, shardID, replicaID, hosts, shards, names, replicas⟩
    have same := takes.shards.trans ((foldl_insert_shards_iff ..).mpr ⟨shards, names⟩)
    exact ext_maps (takes.index.trans index) (takes.hostID.trans hostID) (takes.shardID.trans shardID)
      (takes.replicaID.trans replicaID) (takes.hosts.trans ((foldl_insert_eq_iff ..).mpr hosts))
      (congrArg ShardTable.id same) (congrArg ShardTable.name same)
      (takes.replicas.trans ((foldl_insert_eq_iff ..).mpr replicas))

/-- A recovery that fails leaves the registry as it was exactly if the header cannot be decoded, or the header and all
records before the failure repeat what the registry has, its names included. -/
theorem failed_recovery_iff {codec : Codec σ} {stream : List σ} {message : String}
    (failed : target.recover codec stream = .ok (recovered, .error message)) :
    recovered = target ↔ ∀ decoded, codec.decode stream = some decoded → target.Repeats decoded := by
  obtain ⟨undecoded, rfl⟩ | ⟨decoded, decodes, takes⟩ := recover_takes failed
  · simp [undecoded]
  · rw [takes.eq_iff, decodes]
    simp

/-- A registry with a host and a named shard. -/
def namedRegistry : State :=
  (((({} : State).hostPut Fsm.exampleHost).toOption.getD {}).setMeta
    { index := 5, hostID := "", hosts := 1, replicaID := 0, replicas := 0, shardID := 1, shards := 1 }).shardPut
    { id := 1, name := "a" }

/-- Its snapshot with one shard too few. -/
def shortSnapshot : List Token :=
  [.header { index := 5, hostID := "", hosts := 1, replicaID := 0, replicas := 0, shardID := 1, shards := 2 }, .newline,
    .host Fsm.exampleHost, .newline, .shard { id := 1, name := "a" }, .newline]

/-- A snapshot that ends early changes nothing where it repeats a host and a shard with its name. -/
theorem repeated_records_change_nothing :
    ∃ recovered, namedRegistry.recover Codec.tokens shortSnapshot =
        .ok (recovered, .error "parse shard: unexpected token") ∧ recovered = namedRegistry := by
  have failed : ∃ recovered, namedRegistry.recover Codec.tokens shortSnapshot =
      .ok (recovered, .error "parse shard: unexpected token") := ⟨_, rfl⟩
  obtain ⟨recovered, failed⟩ := failed
  refine ⟨recovered, failed, (failed_recovery_iff failed).mpr fun decoded decodes => ?_⟩
  cases decodes
  refine ⟨rfl, rfl, rfl, rfl, repeatsLast_singleton rfl, repeatsLast_singleton rfl, fun name entry last => ?_, nofun⟩
  have named : lastNamed namedRegistry.shards.id name [{ id := 1, name := "a" }] =
      if name = "a" then some (some { id := 1, name := "a" }) else none := by
    have stored : namedRegistry.shards.id[1]? = some { id := 1, name := "a" } := rfl
    by_cases is : name = "a" <;> simp [lastNamed, Shard.nameKeys, stored, is]
  rw [named] at last
  split at last
  · next is =>
    cases last
    rw [is]
    rfl
  · cases last

/-- The stream ends after its header, and the registry is left with the header's index. -/
theorem truncated_snapshot_moves_index :
    ∃ recovered, ({} : State).recover Codec.tokens
        [.header { index := 5, hostID := "", hosts := 1, replicaID := 0, replicas := 0, shardID := 0, shards := 0 },
          .newline] = .ok (recovered, .error "parse host: unexpected token") ∧ recovered.index = 5 ∧
      recovered ≠ {} := by
  refine ⟨_, rfl, rfl, fun same => ?_⟩
  exact absurd (congrArg State.index same) (by decide)

end State

end Failed

end Zongzi
