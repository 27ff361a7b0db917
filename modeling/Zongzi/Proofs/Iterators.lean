import Zongzi.Model.Iterators
import Zongzi.Proofs.TagLookups

/-! # Iterators and their contracts

An iterator is documented to call back the records that it looks up, ordered by identifier. The schema of the host table
has no index of shard types, so this iterator panics. The tag indexes order their entries by value before identifier:
iterators by tag call back the right records, in the order of their identifiers only if the values ascend with them.
-/

namespace Zongzi

open Std ExceptFold

namespace Lookup

variable {store : Store} {lookup : Lookup}

/-- All records of the table in ascending order of identifier. -/
def records (store : Store) : (lookup : Lookup) → List lookup.Record
  | .hostShardType _ => store.state.hostIterate
  | .hostTag _ => store.state.hostIterate
  | .shardTag _ => store.state.shardIterate

/-- The record is one of those that are looked up. -/
def wanted : (lookup : Lookup) → lookup.Record → Bool
  | .hostShardType shardType => fun host : Host => (host.shardTypes.getD []).contains shardType
  | .hostTag tag => fun host : Host => (Fsm.lookup host.tags tag).isSome
  | .shardTag tag => fun shard : Shard => (Fsm.lookup shard.tags tag).isSome

/-- The value of the tag that is looked up, if the iterator goes by a tag. -/
def value : (lookup : Lookup) → lookup.Record → Option String
  | .hostShardType _ => fun _ => none
  | .hostTag tag => fun host : Host => Fsm.lookup host.tags tag
  | .shardTag tag => fun shard : Shard => Fsm.lookup shard.tags tag

/-- The iterator goes by a tag. -/
def byTag : Lookup → Bool
  | .hostShardType _ => false
  | .hostTag _ => true
  | .shardTag _ => true

/-- The tag that is looked up is not empty. -/
def isNamed : Lookup → Bool
  | .hostShardType _ => true
  | .hostTag tag => tag ≠ ""
  | .shardTag tag => tag ≠ ""

/-- A callback that always continues gets the records that are looked up, each once and in ascending order. -/
def Keeps (store : Store) (lookup : Lookup) : Prop :=
  lookup.run store (fun _ => true) = .ok ((lookup.records store).filter lookup.wanted)

/-- Along the records that have the tag, in ascending order, its value does not descend. -/
def Ascends (store : Store) (lookup : Lookup) : Prop :=
  (lookup.records store).Pairwise fun record other => ∀ first second, lookup.value record = some first →
    lookup.value other = some second → first ≤ second

/-- The iterators by tag look up what `Store` does, in the order of the index. -/
theorem coe_scan_tags (store : Store) (tag : String) :
    (MultiIndex.scan store.hostTags tag : Multiset String) = store.hostIterateByTag tag ∧
      (MultiIndex.scan store.shardTags tag : Multiset ℕ) = store.shardIterateByTag tag :=
  ⟨MultiIndex.coe_scan _ _, MultiIndex.coe_scan _ _⟩

theorem iterate_true {α : Type} (records : List α) : iterate (fun _ => true) records = records := by
  induction records with
  | nil => rfl
  | cons record records ih => rw [iterate, if_pos rfl, ih]

/-- Records that are read by identifier are the ones listed if and only if their identifiers are. -/
theorem filterMap_eq_iff {ι α : Type} {table : ι → Option α} {idOf : α → Option ι}
    (keyed : ∀ id object, table id = some object → idOf object = some id) {ids : List ι} {entries : List (ι × α)}
    (present : ∀ id ∈ ids, (table id).isSome) (listed : ∀ entry ∈ entries, table entry.1 = some entry.2) :
    ids.filterMap table = entries.map Prod.snd ↔ ids = entries.map Prod.fst := by
  constructor
  · intro same
    have left : (ids.filterMap table).filterMap idOf = ids := by
      rw [List.filterMap_filterMap]
      refine (List.filterMap_congr fun id member => ?_).trans List.filterMap_some
      obtain ⟨object, found⟩ := Option.isSome_iff_exists.mp (present id member)
      rw [found, Option.bind_some, keyed id object found]
    have right : (entries.map Prod.snd).filterMap idOf = entries.map Prod.fst := by
      rw [List.filterMap_map, ← List.filterMap_eq_map]
      exact List.filterMap_congr fun entry member => keyed _ _ (listed entry member)
    rw [← left, same, right]
  · rintro rfl
    rw [List.filterMap_map, ← List.filterMap_eq_map]
    exact List.filterMap_congr fun entry member => listed entry member

/-- The lookup of a tag in one table. -/
theorem scan_reads_iff {ι α : Type} [LinearOrder ι] (tags : α → Tags) (idOf : α → Option ι)
    {index : MultiIndex.Index ι String String} {table : ι → Option α} {entries : List (ι × α)} {tag : String}
    (named : tag ≠ "")
    (exact : MultiIndex.Exact (fun object => tagLabels (tags object)) index table)
    (keyed : ∀ id object, table id = some object → idOf object = some id)
    (ascends : entries.Pairwise fun one other => one.1 < other.1)
    (listed : ∀ id object, (id, object) ∈ entries ↔ table id = some object) :
    (MultiIndex.scan index tag).filterMap table =
        (entries.map Prod.snd).filter (fun object => (Fsm.lookup (tags object) tag).isSome) ↔
      (entries.map Prod.snd).Pairwise fun record other => ∀ first second, Fsm.lookup (tags record) tag = some first →
        Fsm.lookup (tags other) tag = some second → first ≤ second := by
  have values (object : α) (value : String) :
      (tag, value) ∈ tagLabels (tags object) ↔ Fsm.lookup (tags object) tag = some value := by
    rw [mem_tagLabels, and_iff_right named]
  have single (object : α) (left right : String) (one : (tag, left) ∈ tagLabels (tags object))
      (two : (tag, right) ∈ tagLabels (tags object)) : left = right :=
    Option.some.inj (((values _ _).mp one).symm.trans ((values _ _).mp two))
  have has (object : α) : (Fsm.lookup (tags object) tag).isSome ↔ ∃ value, (tag, value) ∈ tagLabels (tags object) := by
    simp only [values, Option.isSome_iff_exists]
  have visited := MultiIndex.scan_eq_iff exact single has ascends listed
  simp only [values] at visited
  rw [List.pairwise_map, ← visited, List.filter_map]
  refine filterMap_eq_iff keyed (fun id member => ?_) fun entry member => ?_
  · obtain ⟨value, filed⟩ := MultiIndex.mem_scan.mp member
    obtain ⟨object, found, -⟩ := (exact _ _).mp filed
    rw [found]
    rfl
  · exact (listed _ _).mp (List.mem_of_mem_filter member)

theorem hosts_ascend (state : State) : state.hosts.id.toList.Pairwise fun one other => one.1 < other.1 :=
  ExtTreeMap.ordered_keys_toList.imp fun before => compare_lt_iff_lt.mp before

theorem shards_ascend (state : State) : state.shards.id.toList.Pairwise fun one other => one.1 < other.1 :=
  ExtTreeMap.ordered_keys_toList.imp fun before => compare_lt_iff_lt.mp before

theorem keeps_hostTag_iff (exact : store.Exact) {tag : String} (named : tag ≠ "") :
    (Lookup.hostTag tag).Keeps store ↔ (Lookup.hostTag tag).Ascends store := by
  have read := scan_reads_iff Host.tags (fun host => uuidKey host.id) named exact.hosts
    (fun id host found => store.state.hosts.keyed id host found) (hosts_ascend store.state)
    (fun id host => ExtTreeMap.mem_toList_iff_getElem?_eq_some)
  refine Iff.trans ?_ read
  change Except.ok (iterate _ _) = Except.ok _ ↔ _
  rw [iterate_true, Except.ok.injEq]
  rfl

theorem keeps_shardTag_iff (exact : store.Exact) {tag : String} (named : tag ≠ "") :
    (Lookup.shardTag tag).Keeps store ↔ (Lookup.shardTag tag).Ascends store := by
  have read := scan_reads_iff Shard.tags (fun shard => some shard.id) named exact.shards
    (fun id shard found => congrArg some (store.state.shards.keyed id shard found)) (shards_ascend store.state)
    (fun id shard => ExtTreeMap.mem_toList_iff_getElem?_eq_some)
  refine Iff.trans ?_ read
  change Except.ok (iterate _ _) = Except.ok _ ↔ _
  rw [iterate_true, Except.ok.injEq]
  rfl

/-- In every store that is filled by puts and deletes, an iterator calls back what it should, each record once and by
ascending identifier, if and only if it goes by a tag and the values of the tag ascend with the identifiers. -/
theorem iterator_keeps_iff {writes : List Write} (plain : ∀ write ∈ writes, write.isRetag = false)
    (filled : ({} : Store).replay writes = .ok store) (lookup : Lookup) (named : lookup.isNamed) :
    lookup.Keeps store ↔ lookup.byTag ∧ lookup.Ascends store := by
  have exact := Store.plain_replay plain filled Store.exact_empty
  cases lookup with
  | hostShardType shardType =>
    refine iff_of_false (fun keeps => ?_) fun both => nomatch both.1
    cases keeps
  | hostTag tag =>
    rw [keeps_hostTag_iff exact (of_decide_eq_true named)]
    exact (and_iff_right rfl).symm
  | shardTag tag =>
    rw [keeps_shardTag_iff exact (of_decide_eq_true named)]
    exact (and_iff_right rfl).symm

/-- Only the values of the tag matter. -/
theorem ascends_iff (store : Store) (lookup : Lookup) : lookup.Ascends store ↔
    ((lookup.records store).map lookup.value).Pairwise fun record other => ∀ first second, record = some first →
      other = some second → first ≤ second := by
  rw [List.pairwise_map, Ascends]

private def zonedShards (first second : String) : List Write :=
  [.shardPut { id := 1, tags := some (tagMapFromList [first]) },
    .shardPut { id := 2, tags := some (tagMapFromList [second]) }]

private theorem plain_zonedShards (first second : String) :
    ∀ write ∈ zonedShards first second, write.isRetag = false := by simp [zonedShards, Write.isRetag]

/-- Two shards whose zones are in the order of their identifiers. -/
theorem zones_ascend : ∃ store, ({} : Store).replay (zonedShards "zone=a" "zone=b") = .ok store ∧
    (Lookup.shardTag "zone").Ascends store ∧ (Lookup.shardTag "zone").Keeps store := by
  obtain ⟨store, filled, values⟩ : ∃ store, ({} : Store).replay (zonedShards "zone=a" "zone=b") = .ok store ∧
      ((Lookup.shardTag "zone").records store).map (Lookup.shardTag "zone").value = [some "a", some "b"] :=
    ⟨_, rfl, by decide +kernel⟩
  have ascends : (Lookup.shardTag "zone").Ascends store := by
    rw [ascends_iff, values]
    simp
  have plain := plain_zonedShards "zone=a" "zone=b"
  exact ⟨store, filled, ascends, (iterator_keeps_iff plain filled (.shardTag "zone") rfl).mpr ⟨rfl, ascends⟩⟩

/-- Two shards whose zones are in the other order are called back in the wrong order. The iterator by shard type
panics. -/
theorem zones_descend : ∃ store, ({} : Store).replay (zonedShards "zone=b" "zone=a") = .ok store ∧
    (∀ write ∈ zonedShards "zone=b" "zone=a", write.isRetag = false) ∧ ¬(Lookup.shardTag "zone").Keeps store ∧
    (Lookup.hostShardType "kv").run store (fun _ => true) = .error "invalid index 'ShardTypes'" ∧
    ¬(Lookup.hostShardType "kv").Keeps store := by
  obtain ⟨store, filled, values⟩ : ∃ store, ({} : Store).replay (zonedShards "zone=b" "zone=a") = .ok store ∧
      ((Lookup.shardTag "zone").records store).map (Lookup.shardTag "zone").value = [some "b", some "a"] :=
    ⟨_, rfl, by decide +kernel⟩
  have plain := plain_zonedShards "zone=b" "zone=a"
  have exact := Store.plain_replay plain filled Store.exact_empty
  refine ⟨store, filled, plain, fun keeps => ?_, rfl, fun keeps => nomatch keeps⟩
  have ascends := (keeps_shardTag_iff exact (by decide)).mp keeps
  rw [ascends_iff, values] at ascends
  simp at ascends

end Lookup

end Zongzi
