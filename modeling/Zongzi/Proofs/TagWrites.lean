import Zongzi.Proofs.TagJournal
import Zongzi.Proofs.LedgerRefinement
import Zongzi.Proofs.Tags

/-! # Writes and the tag indexes

A tag index stays exact under every write that sees the records as they were filed. The insert of a tag
action does not: the map of the stored record has already been changed in place, so the entries of tags it
lost stay in the index.
-/

namespace Zongzi

open Std ExceptFold

/-- The insert of a tag action. -/
def Write.isRetag : Write → Bool
  | .hostRetag _ | .shardRetag _ | .replicaRetag _ => true
  | _ => false

theorem mem_tagLabels {tags : Tags} {key value : String} :
    (key, value) ∈ tagLabels tags ↔ key ≠ "" ∧ Fsm.lookup tags key = some value := by
  simp [tagLabels, Fsm.mem_entries_iff, and_comm]

namespace Store

variable {store next middle : Store} {entry : Entry} {write : Write}

/-- Every tag index holds the tags of its table and nothing else. -/
structure Exact (store : Store) : Prop where
  hosts : MultiIndex.Exact Host.labels store.hostTags store.state.ledger.hosts
  shards : MultiIndex.Exact Shard.labels store.shardTags store.state.ledger.shards
  replicas : MultiIndex.Exact Replica.labels store.replicaTags store.state.ledger.replicas

/-- Every tag index holds the tags of its table, and perhaps others. -/
structure Covers (store : Store) : Prop where
  hosts : MultiIndex.Covers Host.labels store.hostTags store.state.ledger.hosts
  shards : MultiIndex.Covers Shard.labels store.shardTags store.state.ledger.shards
  replicas : MultiIndex.Covers Replica.labels store.replicaTags store.state.ledger.replicas

/-- A write that sees the records as they were filed. -/
structure Plain (store next : Store) : Prop where
  hosts : MultiIndex.Step Host.labels store.state.ledger.hosts store.hostTags
    next.state.ledger.hosts next.hostTags
  shards : MultiIndex.Step Shard.labels store.state.ledger.shards store.shardTags
    next.state.ledger.shards next.shardTags
  replicas : MultiIndex.Step Replica.labels store.state.ledger.replicas store.replicaTags
    next.state.ledger.replicas next.replicaTags

theorem Plain.exact (plain : store.Plain next) (exact : store.Exact) : next.Exact :=
  ⟨plain.hosts.exact exact.hosts, plain.shards.exact exact.shards, plain.replicas.exact exact.replicas⟩

theorem Plain.covers (plain : store.Plain next) (covers : store.Covers) : next.Covers :=
  ⟨plain.hosts.covers covers.hosts, plain.shards.covers covers.shards,
    plain.replicas.covers covers.replicas⟩

section Writes

theorem write_eq_ok_iff : store.write write = .ok next ↔
    ∃ state, store.state.write write = .ok state ∧ next = {
      state
      hostTags := store.hostTagsAfter write
      shardTags := store.shardTagsAfter write
      replicaTags := store.replicaTagsAfter write } := by
  rw [Store.write, bind_eq_ok_iff]
  simp only [pure_eq_ok_iff, @eq_comm _ next]

private theorem keep_of_absent {ι α : Type} [DecidableEq ι] {labels : α → Finset (String × String)}
    {table : ι → Option α} {index : MultiIndex.Index ι String String} {id : ι} (absent : table id = none) :
    MultiIndex.Step labels table index (Function.update table id none) index := by
  rw [← absent, Function.update_eq_self]
  exact .keep

theorem plain_hostPut {host : Host} (written : store.write (.hostPut host) = .ok next) :
    store.Plain next := by
  obtain ⟨state, put, rfl⟩ := write_eq_ok_iff.mp written
  obtain ⟨key, parsed, ledger⟩ := State.ledger_hostPut put
  refine ⟨?_, ?_, ?_⟩
  · simp only [ledger, hostTagsAfter, parsed, Option.elim_some]
    exact .insert key host
  · rw [ledger]
    exact .keep
  · rw [ledger]
    exact .keep

theorem plain_hostTouch {id : String} {index : ℕ}
    (written : store.write (.hostTouch id index) = .ok next) : store.Plain next := by
  obtain ⟨state, put, rfl⟩ := write_eq_ok_iff.mp written
  obtain ⟨key, host, parsed, found, put⟩ := State.hostTouch_eq_ok_iff.mp put
  obtain ⟨other, valid, ledger⟩ := State.ledger_hostPut put
  cases (store.state.hosts.keyed key host found).symm.trans valid
  have present : store.state.ledger.hosts key = some host := found
  refine ⟨?_, ?_, ?_⟩
  · have step : MultiIndex.Step Host.labels store.state.ledger.hosts store.hostTags _ _ :=
      .insert key { host with updated := index }
    rw [present] at step
    simp only [ledger, hostTagsAfter, parsed, found, Option.elim_some]
    exact step
  · rw [ledger]
    exact .keep
  · rw [ledger]
    exact .keep

theorem plain_hostDelete {host : Host} (written : store.write (.hostDelete host) = .ok next) :
    store.Plain next := by
  obtain ⟨state, put, rfl⟩ := write_eq_ok_iff.mp written
  obtain ⟨key, parsed, ledger⟩ := State.ledger_hostDelete put
  refine ⟨?_, ?_, ?_⟩
  · simp only [ledger, hostTagsAfter, parsed, Option.elim_some]
    cases found : store.state.hosts.id[key]? with
    | none => exact keep_of_absent found
    | some stored => exact MultiIndex.Step.delete found
  · rw [ledger]
    exact .keep
  · rw [ledger]
    exact .keep

theorem plain_shardPut {shard : Shard} (written : store.write (.shardPut shard) = .ok next) :
    store.Plain next := by
  obtain ⟨_, ⟨⟩, rfl⟩ := write_eq_ok_iff.mp written
  refine ⟨.keep, ?_, .keep⟩
  rw [State.ledger_shardPut]
  exact .insert shard.id shard

theorem plain_shardTouch {id index : ℕ} (written : store.write (.shardTouch id index) = .ok next) :
    store.Plain next := by
  obtain ⟨_, ⟨⟩, rfl⟩ := write_eq_ok_iff.mp written
  cases found : store.state.shard id with
  | none =>
    have same : store.state.shardTouch id index = store.state := by simp [State.shardTouch, found]
    simp only [shardTagsAfter, found, Option.elim_none, same]
    exact ⟨.keep, .keep, .keep⟩
  | some shard =>
    have touched : store.state.shardTouch id index = store.state.shardPut { shard with updated := index } := by
      simp [State.shardTouch, found]
    have present : store.state.ledger.shards id = some shard := found
    have atId := State.shard_id found
    simp only [shardTagsAfter, found, Option.elim_some, touched]
    have step : MultiIndex.Step Shard.labels store.state.ledger.shards store.shardTags _ _ :=
      .insert id { shard with updated := index }
    rw [present] at step
    refine ⟨.keep, ?_, .keep⟩
    rw [State.ledger_shardPut]
    subst atId
    exact step

theorem plain_shardDelete {shard : Shard} (written : store.write (.shardDelete shard) = .ok next) :
    store.Plain next := by
  obtain ⟨_, ⟨⟩, rfl⟩ := write_eq_ok_iff.mp written
  refine ⟨.keep, ?_, .keep⟩
  rw [State.ledger_shardDelete]
  simp only [shardTagsAfter]
  cases found : store.state.shard shard.id with
  | none => exact keep_of_absent found
  | some stored => exact MultiIndex.Step.delete found

theorem plain_replicaPut {replica : Replica} (written : store.write (.replicaPut replica) = .ok next) :
    store.Plain next := by
  obtain ⟨state, put, rfl⟩ := write_eq_ok_iff.mp written
  have ledger := State.ledger_replicaPut put
  refine ⟨?_, ?_, ?_⟩
  · rw [ledger]
    exact .keep
  · rw [ledger]
    exact .keep
  · rw [ledger]
    exact .insert replica.id replica

theorem plain_replicaDelete {replica : Replica}
    (written : store.write (.replicaDelete replica) = .ok next) : store.Plain next := by
  obtain ⟨_, ⟨⟩, rfl⟩ := write_eq_ok_iff.mp written
  refine ⟨.keep, .keep, ?_⟩
  rw [State.ledger_replicaDelete]
  simp only [replicaTagsAfter]
  cases found : store.state.replica replica.id with
  | none => exact keep_of_absent found
  | some stored => exact MultiIndex.Step.delete found

/-- Only the insert of a tag action does not see the record as it was filed. -/
theorem plain_write (plain : write.isRetag = false) (written : store.write write = .ok next) :
    store.Plain next := by
  cases write with
  | hostPut => exact plain_hostPut written
  | hostTouch => exact plain_hostTouch written
  | hostDelete => exact plain_hostDelete written
  | shardPut => exact plain_shardPut written
  | shardTouch => exact plain_shardTouch written
  | shardDelete => exact plain_shardDelete written
  | replicaPut => exact plain_replicaPut written
  | replicaDelete => exact plain_replicaDelete written
  | hostRetag => cases plain
  | shardRetag => cases plain
  | replicaRetag => cases plain
  | _ =>
    obtain ⟨_, ⟨⟩, rfl⟩ := write_eq_ok_iff.mp written
    exact ⟨.keep, .keep, .keep⟩

theorem plain_replay {writes : List Write} (plain : ∀ write ∈ writes, write.isRetag = false)
    (replayed : store.replay writes = .ok next) (exact : store.Exact) : next.Exact :=
  foldlM_invariant Store.Exact replayed exact fun write member _ _ held written =>
    (plain_write (plain write member) written).exact held

/-- The insert of a tag action, on a host. -/
theorem exact_hostRetag {host stored : Host} {key : String}
    (written : store.write (.hostRetag host) = .ok next) (parsed : uuidKey host.id = some key)
    (found : store.state.ledger.hosts key = some stored) (exact : store.Exact) :
    next.Exact ↔ stored.labels ⊆ host.labels := by
  obtain ⟨state, put, rfl⟩ := write_eq_ok_iff.mp written
  obtain ⟨other, valid, ledger⟩ := State.ledger_hostPut put
  cases parsed.symm.trans valid
  have refreshed := exact.hosts.refresh_iff found host
  have hosts : store.hostTagsAfter (.hostRetag host) =
      MultiIndex.insert Host.labels store.hostTags key (some host) host := by
    simp [hostTagsAfter, parsed]
  constructor
  · intro after
    have filed := after.hosts
    simp only [ledger, hosts] at filed
    exact refreshed.mp filed
  · intro kept
    refine ⟨?_, ?_, ?_⟩
    · simp only [ledger, hosts]
      exact refreshed.mpr kept
    · rw [ledger]
      exact exact.shards
    · rw [ledger]
      exact exact.replicas

theorem exact_shardRetag {shard stored : Shard} (written : store.write (.shardRetag shard) = .ok next)
    (found : store.state.ledger.shards shard.id = some stored) (exact : store.Exact) :
    next.Exact ↔ stored.labels ⊆ shard.labels := by
  obtain ⟨_, ⟨⟩, rfl⟩ := write_eq_ok_iff.mp written
  have refreshed := exact.shards.refresh_iff found shard
  constructor
  · intro after
    have filed := after.shards
    rw [State.ledger_shardPut] at filed
    exact refreshed.mp filed
  · intro kept
    refine ⟨exact.hosts, ?_, exact.replicas⟩
    rw [State.ledger_shardPut]
    exact refreshed.mpr kept

theorem exact_replicaRetag {replica stored : Replica}
    (written : store.write (.replicaRetag replica) = .ok next)
    (found : store.state.ledger.replicas replica.id = some stored) (exact : store.Exact) :
    next.Exact ↔ stored.labels ⊆ replica.labels := by
  obtain ⟨state, put, rfl⟩ := write_eq_ok_iff.mp written
  have ledger := State.ledger_replicaPut put
  have refreshed := exact.replicas.refresh_iff found replica
  constructor
  · intro after
    have filed := after.replicas
    rw [ledger] at filed
    exact refreshed.mp filed
  · intro kept
    refine ⟨?_, ?_, ?_⟩
    · rw [ledger]
      exact exact.hosts
    · rw [ledger]
      exact exact.shards
    · rw [ledger]
      exact refreshed.mpr kept

theorem covers_write (written : store.write write = .ok next) (covers : store.Covers) :
    next.Covers := by
  cases retag : write.isRetag with
  | false => exact (plain_write retag written).covers covers
  | true =>
    obtain ⟨state, put, rfl⟩ := write_eq_ok_iff.mp written
    cases write with
    | hostRetag host =>
      obtain ⟨key, parsed, ledger⟩ := State.ledger_hostPut put
      refine ⟨?_, ?_, ?_⟩
      · simp only [ledger, hostTagsAfter, parsed, Option.elim_some]
        exact covers.hosts.insert
      · rw [ledger]
        exact covers.shards
      · rw [ledger]
        exact covers.replicas
    | shardRetag shard =>
      cases put
      refine ⟨covers.hosts, ?_, covers.replicas⟩
      rw [State.ledger_shardPut]
      exact covers.shards.insert
    | replicaRetag replica =>
      have ledger := State.ledger_replicaPut put
      refine ⟨?_, ?_, ?_⟩
      · rw [ledger]
        exact covers.hosts
      · rw [ledger]
        exact covers.shards
      · rw [ledger]
        exact covers.replicas.insert
    | _ => cases retag

end Writes

section Frames

/-! The touches that a tag action makes before its insert leave the table of the record alone. -/

theorem hosts_of_touchShards {replicas : List Replica} {index : ℕ}
    (replayed : store.replay (Journal.touchShards replicas index) = .ok middle) :
    middle.state.ledger.hosts = store.state.ledger.hosts := by
  refine foldlM_invariant (fun middle => middle.state.ledger.hosts = store.state.ledger.hosts) replayed rfl
    fun write member before after same written => ?_
  obtain ⟨replica, -, rfl⟩ := List.mem_map.mp member
  obtain ⟨_, ⟨⟩, rfl⟩ := write_eq_ok_iff.mp written
  rw [← same, State.ledger_shardTouch]

theorem shards_of_touchHosts {replicas : List Replica} {index : ℕ}
    (replayed : store.replay (Journal.touchHosts replicas index) = .ok middle) :
    middle.state.ledger.shards = store.state.ledger.shards := by
  refine foldlM_invariant (fun middle => middle.state.ledger.shards = store.state.ledger.shards) replayed rfl
    fun write member before after same written => ?_
  obtain ⟨replica, -, rfl⟩ := List.mem_map.mp member
  obtain ⟨state, touched, rfl⟩ := write_eq_ok_iff.mp written
  rw [← same, (State.ledger_hostTouch touched).2]

theorem replicas_of_touchOwners {replica : Replica} {index : ℕ}
    (replayed : store.replay (Journal.touchOwners replica index) = .ok middle) :
    middle.state.ledger.replicas = store.state.ledger.replicas := by
  refine foldlM_invariant (fun middle => middle.state.ledger.replicas = store.state.ledger.replicas)
    replayed rfl fun write member before after same written => ?_
  simp only [Journal.touchOwners, List.mem_cons, List.not_mem_nil, or_false] at member
  obtain rfl | rfl := member
  · obtain ⟨state, touched, rfl⟩ := write_eq_ok_iff.mp written
    rw [← same, (State.ledger_hostTouch touched).2]
  · obtain ⟨_, ⟨⟩, rfl⟩ := write_eq_ok_iff.mp written
    rw [← same, State.ledger_shardTouch]

theorem plain_touchShards {replicas : List Replica} {index : ℕ} :
    ∀ write ∈ Journal.touchShards replicas index, write.isRetag = false := by
  simp [Journal.touchShards, Write.isRetag]

theorem plain_touchHosts {replicas : List Replica} {index : ℕ} :
    ∀ write ∈ Journal.touchHosts replicas index, write.isRetag = false := by
  simp [Journal.touchHosts, Write.isRetag]

theorem plain_touchOwners {replica : Replica} {index : ℕ} :
    ∀ write ∈ Journal.touchOwners replica index, write.isRetag = false := by
  simp [Journal.touchOwners, Write.isRetag]

end Frames

end Store

end Zongzi
