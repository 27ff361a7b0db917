import Zongzi.Proofs.TagWrites
import Zongzi.Proofs.Runs

/-! # Tag lookups

Every command but a tag action makes only writes that see the records as they were filed. Lookups are exact
along a run when, and only when, no tag action takes a tag from a record or gives it another value.
-/

namespace Zongzi

open Std Machine ExceptFold

namespace Fsm

/-- A tag command takes no tag from a record and gives none another value. -/
def Spares (action : Action) (stored named : Tags) : Prop :=
  ∀ key old value, key ≠ "" → lookup stored key = some old → lookup named key = some value →
    match action with
    | .tagsSet => value = old
    | .tagsRemove => False
    | _ => True

/-- The entry is no tag command that takes a tag from a record or gives it another value. -/
def SparesTags (state : State) (entry : Entry) : Prop :=
  match entry.cmd with
  | .host action cmd =>
    ∀ key stored, uuidKey cmd.id = some key → state.hosts.id[key]? = some stored →
      Spares action stored.tags cmd.tags
  | .shard action cmd => ∀ stored, state.shard cmd.id = some stored → Spares action stored.tags cmd.tags
  | .replica action cmd =>
    ∀ stored, state.replica cmd.id = some stored → Spares action stored.tags cmd.tags
  | _ => True

section SparesTags

variable {state : State} {entry : Entry} {action : Action}

theorem sparesTags_host_iff {cmd stored : Host} {key : String} (is : entry.cmd = .host action cmd)
    (parsed : uuidKey cmd.id = some key) (found : state.hosts.id[key]? = some stored) :
    SparesTags state entry ↔ Spares action stored.tags cmd.tags := by
  simp only [SparesTags, is]
  constructor
  · intro spares
    exact spares key stored parsed found
  · intro spares other host valid present
    cases parsed.symm.trans valid
    cases found.symm.trans present
    exact spares

theorem sparesTags_shard_iff {cmd stored : Shard} (is : entry.cmd = .shard action cmd)
    (found : state.shard cmd.id = some stored) :
    SparesTags state entry ↔ Spares action stored.tags cmd.tags := by
  simp [SparesTags, is, found]

theorem sparesTags_replica_iff {cmd stored : Replica} (is : entry.cmd = .replica action cmd)
    (found : state.replica cmd.id = some stored) :
    SparesTags state entry ↔ Spares action stored.tags cmd.tags := by
  simp [SparesTags, is, found]

end SparesTags

variable {action : Action} {fn : TagFn} {stored named tags : Tags} {changed : Bool}

theorem spares_of_none (other : action.tagFn = none) : Spares action stored named := by
  intro key old value _ _ _
  cases action with
  | tagsSet => cases other
  | tagsSetNX => cases other
  | tagsRemove => cases other
  | _ => trivial

/-- A tag function keeps every label exactly when it spares the tags. -/
theorem labels_subset_iff_spares (tagFn : action.tagFn = some fn)
    (done : fn stored named = .ok (tags, changed)) :
    tagLabels stored ⊆ tagLabels tags ↔ Spares action stored named := by
  have subset : tagLabels stored ⊆ tagLabels tags ↔
      ∀ key old, key ≠ "" → lookup stored key = some old → lookup tags key = some old := by
    constructor
    · intro kept key old named held
      exact (mem_tagLabels.mp (kept (mem_tagLabels.mpr ⟨named, held⟩))).2
    · rintro kept ⟨key, old⟩ member
      obtain ⟨named, held⟩ := mem_tagLabels.mp member
      exact mem_tagLabels.mpr ⟨named, kept key old named held⟩
  rw [subset]
  cases action with
  | tagsSet =>
    cases tagFn
    obtain ⟨-, -, looked⟩ := tagsSet_spec done
    refine ⟨fun kept key old value nonempty held wanted => ?_, fun spares key old nonempty held => ?_⟩
    · have same := kept key old nonempty held
      rw [looked, wanted] at same
      exact Option.some.inj same
    · rw [looked]
      cases wanted : lookup named key with
      | none => exact held
      | some value => exact congrArg some (spares key old value nonempty held wanted)
  | tagsSetNX =>
    cases tagFn
    obtain ⟨-, -, looked⟩ := tagsSetNX_spec done
    refine iff_of_true (fun key old nonempty held => ?_) fun _ _ _ _ _ _ => trivial
    rw [looked, held, Option.some_or]
  | tagsRemove =>
    cases tagFn
    obtain ⟨-, -, looked⟩ := tagsRemove_spec done
    refine ⟨fun kept key old value nonempty held wanted => ?_, fun spares key old nonempty held => ?_⟩
    · have same := kept key old nonempty held
      rw [looked, wanted] at same
      cases same
    · rw [looked]
      cases wanted : lookup named key with
      | none => exact held
      | some value => exact (spares key old value nonempty held wanted).elim
  | _ => cases tagFn

theorem spares_of_unwritten (tagFn : action.tagFn = some fn)
    (done : fn stored named = .ok (tags, false)) : Spares action stored named := by
  have same := tags_of_unwritten tagFn done
  rw [← labels_subset_iff_spares tagFn done, same]

end Fsm

namespace Journal

open Fsm

variable {state : State} {entry : Entry} {writes : List Write}

/-- The writes of a command: none that changes a record in place, and then it spares the tags, or touches
and at last the insert of a tag action. -/
inductive Shape (state : State) (entry : Entry) : List Write → Prop
  | plain {writes : List Write} (plain : ∀ write ∈ writes, write.isRetag = false)
      (spares : SparesTags state entry) : Shape state entry writes
  | host {action : Action} {cmd stored : Host} {fn : TagFn} {key : String} {tags : Tags}
      (is : entry.cmd = .host action cmd) (tagFn : action.tagFn = some fn)
      (parsed : uuidKey cmd.id = some key) (found : state.hosts.id[key]? = some stored)
      (changed : fn stored.tags cmd.tags = .ok (tags, true)) (replicas : List Replica) :
      Shape state entry (touchShards replicas entry.index ++ [.hostRetag { stored with tags }])
  | shard {action : Action} {cmd stored : Shard} {fn : TagFn} {tags : Tags}
      (is : entry.cmd = .shard action cmd) (tagFn : action.tagFn = some fn)
      (found : state.shard cmd.id = some stored) (changed : fn stored.tags cmd.tags = .ok (tags, true))
      (replicas : List Replica) :
      Shape state entry (touchHosts replicas entry.index ++ [.shardRetag { stored with tags }])
  | replica {action : Action} {cmd stored : Replica} {fn : TagFn} {tags : Tags}
      (is : entry.cmd = .replica action cmd) (tagFn : action.tagFn = some fn)
      (found : state.replica cmd.id = some stored)
      (changed : fn stored.tags cmd.tags = .ok (tags, true)) :
      Shape state entry (touchOwners stored entry.index ++ [.replicaRetag { stored with tags }])

/-- No write of the journal changes a record in place. -/
def PlainWrites (journal : Writes) : Prop :=
  ∀ writes, journal = .ok writes → ∀ write ∈ writes, write.isRetag = false

section Plain

theorem PlainWrites.nil : PlainWrites (pure []) := by
  rintro _ ⟨⟩ write ⟨⟩

theorem PlainWrites.pure (plain : ∀ write ∈ writes, write.isRetag = false) : PlainWrites (pure writes) := by
  rintro _ ⟨⟩
  exact plain

theorem PlainWrites.bind {α : Type} {reads : Except Panic α} {journal : α → Writes}
    (rest : ∀ value, PlainWrites (journal value)) : PlainWrites (reads >>= journal) := by
  intro writes found
  obtain ⟨value, -, found⟩ := bind_eq_ok_iff.mp found
  exact rest value writes found

theorem plain_cons {write : Write} (head : write.isRetag = false)
    (rest : ∀ write ∈ writes, write.isRetag = false) :
    ∀ other ∈ write :: writes, other.isRetag = false :=
  List.forall_mem_cons.mpr ⟨head, rest⟩

theorem plain_append {first : List Write} (head : ∀ write ∈ first, write.isRetag = false)
    (rest : ∀ write ∈ writes, write.isRetag = false) :
    ∀ write ∈ first ++ writes, write.isRetag = false :=
  List.forall_mem_append.mpr ⟨head, rest⟩

theorem plain_single {write : Write} (plain : write.isRetag = false) :
    ∀ other ∈ [write], other.isRetag = false :=
  plain_cons plain (by simp)

theorem plain_deletes {replicas : List Replica} {touch : Replica → Write}
    (touches : ∀ replica, (touch replica).isRetag = false) :
    ∀ write ∈ replicas.flatMap fun replica => [.replicaDelete replica, touch replica],
      write.isRetag = false := by
  intro write member
  obtain ⟨replica, -, member⟩ := List.mem_flatMap.mp member
  exact plain_cons rfl (plain_single (touches replica)) write member

variable (state entry)

theorem plain_hostCmdPut (host : Host) : PlainWrites (hostCmdPut state entry host) := by
  unfold hostCmdPut
  refine .bind fun found => ?_
  cases found with
  | none =>
    change PlainWrites (state.replicaIterateByHostID host.id >>= _)
    exact .bind fun replicas =>
      .pure (plain_append (plain_cons rfl Store.plain_touchShards) (plain_single rfl))
  | some old =>
    change PlainWrites (tagsSetNX host.tags old.tags >>= _)
    refine .bind fun (tags, changed) => ?_
    change PlainWrites (state.replicaIterateByHostID host.id >>= _)
    exact .bind fun replicas => .pure (plain_append Store.plain_touchShards (plain_single rfl))

theorem plain_hostCmdDel (host : Host) : PlainWrites (hostCmdDel state entry host) := by
  unfold hostCmdDel
  refine .bind fun found => ?_
  cases found with
  | none => exact .nil
  | some host =>
    exact .bind fun replicas => .pure (plain_append (plain_deletes fun _ => rfl) (plain_single rfl))

theorem plain_hostUpdate {action : Action} (other : action.tagFn = none) (host : Host) :
    PlainWrites (hostUpdate state entry action host) := by
  cases action with
  | put => exact plain_hostCmdPut state entry host
  | del => exact plain_hostCmdDel state entry host
  | tagsSet => cases other
  | tagsSetNX => cases other
  | tagsRemove => cases other
  | _ => exact .nil

theorem plain_shardCmdPut (shard : Shard) : PlainWrites (shardCmdPut state entry shard) := by
  unfold shardCmdPut
  cases state.shard shard.id with
  | some old => exact .bind fun _ => .pure (plain_cons rfl Store.plain_touchHosts)
  | none =>
    dsimp only
    split
    · exact .pure (plain_cons rfl Store.plain_touchHosts)
    · exact .nil

theorem plain_shardUpdate {action : Action} (other : action.tagFn = none) (shard : Shard) :
    PlainWrites (shardUpdate state entry action shard) := by
  cases action with
  | post =>
    simp only [shardUpdate, shardCmdPost]
    split
    · exact .nil
    · exact .pure (plain_cons rfl (plain_single rfl))
  | touch => exact .pure (plain_cons rfl Store.plain_touchHosts)
  | put => exact plain_shardCmdPut state entry shard
  | statusUpdate =>
    simp only [shardUpdate, shardCmdStatusUpdate]
    split
    · exact .nil
    · exact .pure (plain_cons rfl Store.plain_touchHosts)
  | leaderSet =>
    simp only [shardUpdate, shardCmdLeaderSet]
    split
    · exact .nil
    · exact .pure (plain_single rfl)
  | del =>
    simp only [shardUpdate, shardCmdDel]
    split
    · exact .nil
    · exact .pure (plain_append (plain_deletes fun _ => rfl) (plain_single rfl))
  | tagsSet => cases other
  | tagsSetNX => cases other
  | tagsRemove => cases other
  | _ => exact .nil

theorem plain_replicaUpdate {action : Action} (other : action.tagFn = none) (replica : Replica) :
    PlainWrites (replicaUpdate state entry action replica) := by
  cases action with
  | post => exact .pure (plain_cons rfl (plain_cons rfl Store.plain_touchOwners))
  | statusUpdate =>
    simp only [replicaUpdate, replicaCmdStatusUpdate]
    split
    · exact .nil
    · exact .pure (plain_cons rfl Store.plain_touchOwners)
  | put =>
    simp only [replicaUpdate, replicaCmdPut]
    split
    · exact .nil
    · exact .bind fun _ => .pure (plain_cons rfl Store.plain_touchOwners)
  | del =>
    simp only [replicaUpdate, replicaCmdDel]
    split
    · exact .nil
    · exact .pure (plain_append Store.plain_touchOwners (plain_single rfl))
  | tagsSet => cases other
  | tagsSetNX => cases other
  | tagsRemove => cases other
  | _ => exact .nil

end Plain

section Shapes

theorem shape_hostTagAction {action : Action} {fn : TagFn} {cmd : Host}
    (is : entry.cmd = .host action cmd) (tagFn : action.tagFn = some fn)
    (journal : hostTagAction fn state entry cmd = .ok writes) : Shape state entry writes := by
  obtain ⟨found, looked, journal⟩ := bind_eq_ok_iff.mp journal
  obtain ⟨key, parsed, looked⟩ := State.host_eq_ok_iff.mp looked
  cases found with
  | none =>
    cases journal
    refine .plain (by simp) ?_
    simp only [SparesTags, is]
    intro other stored valid present
    cases parsed.symm.trans valid
    cases looked.symm.trans present
  | some host =>
    obtain ⟨⟨tags, written⟩, merged, journal⟩ := bind_eq_ok_iff.mp journal
    cases written with
    | false =>
      cases journal
      exact .plain (by simp) ((sparesTags_host_iff is parsed looked).mpr (spares_of_unwritten tagFn merged))
    | true =>
      obtain ⟨replicas, -, journal⟩ := bind_eq_ok_iff.mp journal
      cases journal
      exact .host is tagFn parsed looked merged replicas

theorem shape_shardTagAction {action : Action} {fn : TagFn} {cmd : Shard}
    (is : entry.cmd = .shard action cmd) (tagFn : action.tagFn = some fn)
    (journal : shardTagAction fn state entry cmd = .ok writes) : Shape state entry writes := by
  unfold shardTagAction at journal
  cases found : state.shard cmd.id with
  | none =>
    rw [found] at journal
    cases journal
    exact .plain (by simp) (by simp [SparesTags, is, found])
  | some shard =>
    rw [found] at journal
    obtain ⟨⟨tags, written⟩, merged, journal⟩ := bind_eq_ok_iff.mp journal
    cases written with
    | false =>
      cases journal
      exact .plain (by simp) ((sparesTags_shard_iff is found).mpr (spares_of_unwritten tagFn merged))
    | true =>
      cases journal
      exact .shard is tagFn found merged _

theorem shape_replicaTagAction {action : Action} {fn : TagFn} {cmd : Replica}
    (is : entry.cmd = .replica action cmd) (tagFn : action.tagFn = some fn)
    (journal : replicaTagAction fn state entry cmd = .ok writes) : Shape state entry writes := by
  unfold replicaTagAction at journal
  cases found : state.replica cmd.id with
  | none =>
    rw [found] at journal
    cases journal
    exact .plain (by simp) (by simp [SparesTags, is, found])
  | some replica =>
    rw [found] at journal
    obtain ⟨⟨tags, written⟩, merged, journal⟩ := bind_eq_ok_iff.mp journal
    cases written with
    | false =>
      cases journal
      exact .plain (by simp) ((sparesTags_replica_iff is found).mpr (spares_of_unwritten tagFn merged))
    | true =>
      cases journal
      exact .replica is tagFn found merged

theorem shape_apply (journal : apply state entry = .ok writes) : Shape state entry writes := by
  unfold apply at journal
  split at journal
  · next is =>
    cases journal
    exact .plain (by simp) (by simp [SparesTags, is])
  · next is =>
    cases journal
    exact .plain (by simp) (by simp [SparesTags, is])
  · next action cmd is =>
    cases tagFn : action.tagFn with
    | none =>
      refine .plain (plain_hostUpdate state entry tagFn cmd writes journal) ?_
      simp only [SparesTags, is]
      exact fun _ _ _ _ => spares_of_none tagFn
    | some fn =>
      cases action <;> cases tagFn <;> exact shape_hostTagAction is rfl journal
  · next action cmd is =>
    cases tagFn : action.tagFn with
    | none =>
      refine .plain (plain_shardUpdate state entry tagFn cmd writes journal) ?_
      simp only [SparesTags, is]
      exact fun _ _ => spares_of_none tagFn
    | some fn =>
      cases action <;> cases tagFn <;> exact shape_shardTagAction is rfl journal
  · next action cmd is =>
    cases tagFn : action.tagFn with
    | none =>
      refine .plain (plain_replicaUpdate state entry tagFn cmd writes journal) ?_
      simp only [SparesTags, is]
      exact fun _ _ => spares_of_none tagFn
    | some fn =>
      cases action <;> cases tagFn <;> exact shape_replicaTagAction is rfl journal

end Shapes

end Journal

namespace Store

open Fsm

variable {store next middle last : Store} {entry : Entry} {log : List Entry}

theorem replay_append {first second : List Write} :
    store.replay (first ++ second) = store.replay first >>= fun middle => middle.replay second :=
  List.foldlM_append

theorem replay_singleton {write : Write} : store.replay [write] = store.write write := by
  simp [replay]

section Step

/-- One entry that does not panic. -/
def Steps (store : Store) (entry : Entry) (next : Store) : Prop :=
  ∃ result, store.update entry = .ok (next, result)

theorem steps_determined : Determined Steps := by
  rintro store entry left right ⟨result, updated⟩ ⟨other, again⟩
  rw [updated] at again
  cases again
  rfl

theorem steps_iff : store.Steps entry next ↔
    (∃ state, Applies store.state entry state) ∧
      ∃ writes, Journal.update store.state entry = .ok writes ∧ store.replay writes = .ok next := by
  simp only [Steps, Applies, Store.update, bind_eq_ok_iff, pure_eq_ok_iff, Prod.exists, Prod.mk.injEq]
  constructor
  · rintro ⟨_, state, result, updated, writes, journal, _, replayed, rfl, rfl⟩
    exact ⟨⟨state, result, updated⟩, writes, journal, replayed⟩
  · rintro ⟨⟨state, result, updated⟩, writes, journal, replayed⟩
    exact ⟨result, state, result, updated, writes, journal, next, replayed, rfl, rfl⟩

/-- What the store replays leaves the registry that the state machine computes. -/
theorem state_replay_update {writes : List Write} (journal : Journal.update store.state entry = .ok writes) :
    Store.state <$> store.replay writes = Prod.fst <$> Fsm.update store.state entry := by
  have agreed := Journal.replays_update store.state entry
  rw [Journal.Replays, journal] at agreed
  exact (state_replay store writes).trans agreed

theorem journal_of_applies {state : State} (applies : Applies store.state entry state) :
    ∃ writes, Journal.update store.state entry = .ok writes := by
  obtain ⟨result, updated⟩ := applies
  have agreed := Journal.replays_update store.state entry
  rw [Journal.Replays, updated] at agreed
  cases journal : Journal.update store.state entry with
  | ok writes => exact ⟨writes, rfl⟩
  | error panic =>
    rw [journal] at agreed
    cases agreed

/-- A step of the store is a step of its registry. -/
theorem Steps.applies (step : store.Steps entry next) : Applies store.state entry next.state := by
  obtain ⟨⟨state, result, updated⟩, writes, journal, replayed⟩ := steps_iff.mp step
  have agreed := state_replay_update journal
  rw [replayed, updated] at agreed
  cases agreed
  exact ⟨result, updated⟩

/-- Whenever the registry takes an entry, so does the store. -/
theorem steps_of_applies {state : State} (applies : Applies store.state entry state) :
    ∃ next, store.Steps entry next ∧ next.state = state := by
  obtain ⟨writes, journal⟩ := journal_of_applies applies
  have agreed := state_replay_update journal
  obtain ⟨result, updated⟩ := applies
  rw [updated] at agreed
  cases replayed : store.replay writes with
  | error panic =>
    rw [replayed] at agreed
    cases agreed
  | ok next =>
    rw [replayed] at agreed
    cases agreed
    exact ⟨next, steps_iff.mpr ⟨⟨_, result, updated⟩, writes, journal, replayed⟩, rfl⟩

theorem path_state (path : Path Steps store log last) : Path Applies store.state log last.state := by
  induction path with
  | nil => exact .nil
  | snoc before step ih => exact .snoc ih step.applies

theorem path_of_state (store : Store) {state : State} (path : Path Applies store.state log state) :
    ∃ last, Path Steps store log last ∧ last.state = state := by
  induction path with
  | nil => exact ⟨store, .nil, rfl⟩
  | snoc before step ih =>
    obtain ⟨middle, reached, rfl⟩ := ih
    obtain ⟨last, moved, rfl⟩ := steps_of_applies step
    exact ⟨last, .snoc reached moved, rfl⟩

/-- A condition on the registry holds along the runs of the store when it holds along its own. -/
theorem alwaysStep_state_iff (store : Store) {condition : State → Entry → Prop} :
    AlwaysStep Steps store log (fun store entry => condition store.state entry) ↔
      AlwaysStep Applies store.state log condition := by
  constructor
  · intro always front event back state split reached
    obtain ⟨middle, path, rfl⟩ := path_of_state store reached
    exact always front event back middle split path
  · intro always front event back middle split reached
    exact always front event back middle.state split (path_state reached)

theorem covers_replay {writes : List Write} (replayed : store.replay writes = .ok next)
    (covers : store.Covers) : next.Covers :=
  foldlM_invariant Store.Covers replayed covers fun _ _ _ _ held written => covers_write written held

theorem Steps.covers (step : store.Steps entry next) (covers : store.Covers) : next.Covers := by
  obtain ⟨-, writes, -, replayed⟩ := steps_iff.mp step
  exact covers_replay replayed covers

/-- A tag action first touches records of other tables, then inserts its own. -/
private theorem replay_retag {touches : List Write} {write : Write}
    (touch : ∀ other ∈ touches, other.isRetag = false)
    (replayed : store.replay (touches ++ [write]) = .ok next) (exact : store.Exact) :
    ∃ middle, store.replay touches = .ok middle ∧ middle.Exact ∧ middle.write write = .ok next := by
  rw [replay_append] at replayed
  obtain ⟨middle, touched, written⟩ := bind_eq_ok_iff.mp replayed
  exact ⟨middle, touched, plain_replay touch touched exact, replay_singleton ▸ written⟩

theorem exact_of_shape {writes : List Write} (shape : Journal.Shape store.state entry writes)
    (replayed : store.replay writes = .ok next) (exact : store.Exact) :
    next.Exact ↔ SparesTags store.state entry := by
  cases shape with
  | plain plain spares => exact iff_of_true (plain_replay plain replayed exact) spares
  | host is tagFn parsed found changed replicas =>
    obtain ⟨middle, touched, exact, written⟩ := replay_retag plain_touchShards replayed exact
    have present := (congrFun (hosts_of_touchShards touched) _).trans found
    have keyed := store.state.hosts.keyed _ _ found
    rw [exact_hostRetag written keyed present exact, sparesTags_host_iff is parsed found]
    exact labels_subset_iff_spares tagFn changed
  | shard is tagFn found changed replicas =>
    obtain ⟨middle, touched, exact, written⟩ := replay_retag plain_touchHosts replayed exact
    have present := (congrFun (shards_of_touchHosts touched) _).trans found
    rw [← State.shard_id found] at present
    rw [exact_shardRetag written present exact, sparesTags_shard_iff is found]
    exact labels_subset_iff_spares tagFn changed
  | replica is tagFn found changed =>
    obtain ⟨middle, touched, exact, written⟩ := replay_retag plain_touchOwners replayed exact
    have present := (congrFun (replicas_of_touchOwners touched) _).trans found
    rw [← State.replica_id found] at present
    rw [exact_replicaRetag written present exact, sparesTags_replica_iff is found]
    exact labels_subset_iff_spares tagFn changed

theorem exact_setIndex {index : ℕ} (written : store.write (.metaSetIndex index) = .ok next) :
    next.Exact ↔ store.Exact := by
  obtain ⟨_, ⟨⟩, rfl⟩ := write_eq_ok_iff.mp written
  exact ⟨fun exact => ⟨exact.hosts, exact.shards, exact.replicas⟩,
    fun exact => ⟨exact.hosts, exact.shards, exact.replicas⟩⟩

/-- One entry keeps the indexes exact exactly when it spares the tags. -/
theorem Steps.exact_iff (step : store.Steps entry next) (exact : store.Exact) :
    next.Exact ↔ SparesTags store.state entry := by
  obtain ⟨-, writes, journal, replayed⟩ := steps_iff.mp step
  unfold Journal.update at journal
  split at journal
  · next is =>
    cases journal
    cases replayed
    exact iff_of_true exact (by simp [SparesTags, is])
  · obtain ⟨writes, applied, rest⟩ := bind_eq_ok_iff.mp journal
    cases rest
    rw [replay_append] at replayed
    obtain ⟨middle, replayed, written⟩ := bind_eq_ok_iff.mp replayed
    rw [exact_setIndex (replay_singleton ▸ written)]
    exact exact_of_shape (Journal.shape_apply applied) replayed exact

end Step

section Lookups

/-- For every tag, the lookups call back each record that has it once, and no other. -/
def TagLookupsExact (store : Store) : Prop :=
  ∀ tag, tag ≠ "" →
    (∀ key, (store.hostIterateByTag tag).count key =
      if (store.state.hosts.id[key]?).any fun host => (lookup host.tags tag).isSome then 1 else 0) ∧
    (∀ id, (store.shardIterateByTag tag).count id =
      if (store.state.shard id).any fun shard => (lookup shard.tags tag).isSome then 1 else 0) ∧
    ∀ id, (store.replicaIterateByTag tag).count id =
      if (store.state.replica id).any fun replica => (lookup replica.tags tag).isSome then 1 else 0

/-- How often a lookup calls back, for one table. -/
theorem visitsExactly_tags_iff {ι α : Type} [DecidableEq ι] {tags : α → Tags}
    {index : MultiIndex.Index ι String String} {table : ι → Option α} {tag : String} (named : tag ≠ "") :
    MultiIndex.VisitsExactly (fun object => tagLabels (tags object)) index table tag ↔
      ∀ id, (MultiIndex.visit index tag).count id =
        if (table id).any fun object => (lookup (tags object) tag).isSome then 1 else 0 := by
  refine forall_congr' fun id => ?_
  have has : (∃ object value, table id = some object ∧ (tag, value) ∈ tagLabels (tags object)) ↔
      (table id).any fun object => (lookup (tags object) tag).isSome := by
    simp [mem_tagLabels, named, Option.any_eq_true, Option.isSome_iff_exists]
  rw [has]
  split
  · next holds => simp [holds]
  · next fails => simp [fails]

theorem exact_iff_lookups {ι α : Type} [DecidableEq ι] {tags : α → Tags}
    {index : MultiIndex.Index ι String String} {table : ι → Option α}
    (covers : MultiIndex.Covers (fun object => tagLabels (tags object)) index table) :
    MultiIndex.Exact (fun object => tagLabels (tags object)) index table ↔
      ∀ tag, tag ≠ "" → ∀ id, (MultiIndex.visit index tag).count id =
        if (table id).any fun object => (lookup (tags object) tag).isSome then 1 else 0 := by
  rw [← covers.visitsExactly_iff (· ≠ "")]
  · exact forall₂_congr fun tag named => visitsExactly_tags_iff named
  · intro object key left right first second
    have same := (mem_tagLabels.mp first).2.symm.trans (mem_tagLabels.mp second).2
    exact Option.some.inj same
  · rintro object ⟨key, value⟩ member
    exact (mem_tagLabels.mp member).1

theorem Covers.tagLookupsExact_iff (covers : store.Covers) : store.TagLookupsExact ↔ store.Exact := by
  constructor
  · intro lookups
    exact ⟨(exact_iff_lookups covers.hosts).mpr fun tag named => (lookups tag named).1,
      (exact_iff_lookups covers.shards).mpr fun tag named => (lookups tag named).2.1,
      (exact_iff_lookups covers.replicas).mpr fun tag named => (lookups tag named).2.2⟩
  · intro exact tag named
    exact ⟨(exact_iff_lookups covers.hosts).mp exact.hosts tag named,
      (exact_iff_lookups covers.shards).mp exact.shards tag named,
      (exact_iff_lookups covers.replicas).mp exact.replicas tag named⟩

theorem exact_empty : ({} : Store).Exact := by
  refine ⟨?_, ?_, ?_⟩ <;> exact MultiIndex.exact_empty

theorem covers_of_path (path : Path Steps {} log last) : last.Covers :=
  path.invariant ⟨exact_empty.hosts.covers, exact_empty.shards.covers, exact_empty.replicas.covers⟩
    fun _ _ _ _ covers step => step.covers covers

/-- Lookups are exact in every state of a run when, and only when, no tag command of it takes a tag that a
record has or gives it another value. -/
theorem tag_lookups_exact_iff {final : State} {results : List Result}
    (ran : Fsm.run {} log = .ok (final, results)) :
    (∃ last, Path Steps {} log last ∧ last.state = final) ∧
      (Always Steps {} log TagLookupsExact ↔ AlwaysStep Applies {} log SparesTags) := by
  obtain ⟨last, path, same⟩ := path_of_state {} (path_iff_run.mpr ⟨results, ran⟩)
  refine ⟨⟨last, path, same⟩, ?_⟩
  rw [← alwaysStep_state_iff {}]
  have initial := (covers_of_path .nil).tagLookupsExact_iff.mpr exact_empty
  refine always_iff steps_determined path initial fun front entry back before after _ reached lookups step => ?_
  have covers := covers_of_path reached
  rw [(step.covers covers).tagLookupsExact_iff]
  exact step.exact_iff (covers.tagLookupsExact_iff.mp lookups)

/-- A shard is posted and gets a tag, which a second command does not replace. -/
theorem lookups_of_new_tags :
    Always Steps {} [
      { index := 1, cmd := newCmdShardPost { name := "a", tags := some ∅ } },
      { index := 2, cmd := newCmdTagsSet (.shard { id := 1 }) ["zone=a"] },
      { index := 3, cmd := newCmdTagsSetNX (.shard { id := 1 }) ["zone=b", "rack=c"] }] TagLookupsExact := by
  refine (tag_lookups_exact_iff rfl).2.mpr (.cons ?_ ?_)
  · exact fun _ _ => spares_of_none rfl
  · rintro _ ⟨_, ⟨⟩⟩
    refine .cons ?_ fun next _ => .cons ?_ fun _ _ => .nil
    · rintro _ ⟨⟩ key old value - held -
      simp [lookup] at held
    · exact fun _ _ _ _ _ _ _ _ => trivial

/-- A shard is posted, gets a tag and loses it again. -/
def untaggedLog : List Entry :=
  [{ index := 1, cmd := newCmdShardPost { name := "a", tags := some ∅ } },
    { index := 2, cmd := newCmdTagsSet (.shard { id := 1 }) ["zone=a"] },
    { index := 3, cmd := newCmdTagsRemove (.shard { id := 1 }) ["zone"] }]

/-- The shard no longer has the tag, and a lookup still calls it back. -/
theorem removed_tag_is_found :
    (∃ last results, Fsm.run {} untaggedLog = .ok (last, results)) ∧
      ¬ Always Steps {} untaggedLog TagLookupsExact := by
  refine ⟨⟨_, _, rfl⟩, fun always => ?_⟩
  have path : Path Steps {} untaggedLog _ :=
    .snoc (.snoc (.snoc .nil ⟨_, rfl⟩) ⟨_, rfl⟩) ⟨_, rfl⟩
  have counted := (always.last path "zone" (by decide)).2.1 1
  exact absurd counted (by decide)

end Lookups

end Store

end Zongzi
