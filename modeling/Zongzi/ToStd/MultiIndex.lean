import Mathlib

/-! # An index with several entries for one object

Every object of a table has labels, which are keys with values, and the index holds one entry for each label of
each object. An insert drops the entries computed from the object stored so far and adds those of the new
one. That is exact as long as the object stored so far is the one that was filed (`Exact.insert`). When the
stored object has been changed in place before the insert looks at it, the entries of labels it lost
stay behind, and the index is exact afterwards only if it lost none (`Exact.refresh_iff`).

Entries are ordered by key, then value, then object. So a lookup of a key with any value visits the objects in their
own order only if their values ascend with them (`scan_eq_iff`).
-/

namespace MultiIndex

variable {ι κ ν α : Type} [DecidableEq ι] [DecidableEq κ] [DecidableEq ν]

/-- A key with its value, and the object that has it. -/
abbrev Index (ι κ ν : Type) : Type := Finset ((κ × ν) × ι)

/-- The entries computed from an object. -/
def entries (labels : α → Finset (κ × ν)) (id : ι) (object : α) : Index ι κ ν :=
  labels object ×ˢ ({id} : Finset ι)

def insert (labels : α → Finset (κ × ν)) (index : Index ι κ ν) (id : ι) (existing : Option α)
    (object : α) : Index ι κ ν :=
  (index \ existing.elim ∅ (entries labels id)) ∪ entries labels id object

def delete (labels : α → Finset (κ × ν)) (index : Index ι κ ν) (id : ι) (existing : α) :
    Index ι κ ν :=
  index \ entries labels id existing

/-- The objects visited by a lookup of a key with any value. -/
def visit (index : Index ι κ ν) (key : κ) : Multiset ι :=
  (index.filter fun entry => entry.1.1 = key).val.map Prod.snd

variable {labels : α → Finset (κ × ν)} {index : Index ι κ ν} {table : ι → Option α} {id other : ι}
  {object stored : α} {label : κ × ν}

/-- Every label of every object is filed, and only labels are. -/
structure Covers (labels : α → Finset (κ × ν)) (index : Index ι κ ν) (table : ι → Option α) : Prop where
  filed : ∀ id object, table id = some object → ∀ label ∈ labels object, (label, id) ∈ index
  labels : ∀ label id, (label, id) ∈ index → ∃ object, label ∈ labels object

/-- The labels of the objects are filed, and nothing else. -/
def Exact (labels : α → Finset (κ × ν)) (index : Index ι κ ν) (table : ι → Option α) : Prop :=
  ∀ label id, (label, id) ∈ index ↔
    ∃ object, table id = some object ∧ label ∈ labels object

omit [DecidableEq ι] [DecidableEq κ] [DecidableEq ν] in
theorem mem_entries :
    (label, other) ∈ entries labels id object ↔ other = id ∧ label ∈ labels object := by
  rw [entries, Finset.mem_product, Finset.mem_singleton, and_comm]

theorem mem_insert {existing : Option α} :
    (label, other) ∈ insert labels index id existing object ↔
      (other = id ∧ label ∈ labels object) ∨ ((label, other) ∈ index ∧
        ¬ (other = id ∧ ∃ old, existing = some old ∧ label ∈ labels old)) := by
  rw [insert, Finset.mem_union, Finset.mem_sdiff, mem_entries, or_comm]
  cases existing with
  | none => simp
  | some old => simp [mem_entries]

theorem mem_delete :
    (label, other) ∈ delete labels index id object ↔
      (label, other) ∈ index ∧ ¬ (other = id ∧ label ∈ labels object) := by
  rw [delete, Finset.mem_sdiff, mem_entries]

omit [DecidableEq ι] [DecidableEq κ] [DecidableEq ν] in
theorem Exact.covers (exact : Exact labels index table) : Covers labels index table where
  filed id object found label member := (exact label id).mpr ⟨object, found, member⟩
  labels label id filed := by
    obtain ⟨object, -, member⟩ := (exact label id).mp filed
    exact ⟨object, member⟩

omit [DecidableEq ι] [DecidableEq κ] [DecidableEq ν] in
theorem exact_empty : Exact labels (∅ : Index ι κ ν) fun _ => none := by
  intro label id
  simp

section Insert

/-- An insert files the new object, whatever it takes for the one stored so far. -/
theorem Covers.insert (covers : Covers labels index table) {existing : Option α} :
    Covers labels (insert labels index id existing object)
      (Function.update table id (some object)) := by
  refine ⟨fun other found present label member => ?_, fun label other filed => ?_⟩
  · rw [mem_insert]
    by_cases same : other = id
    · subst same
      rw [Function.update_self] at present
      cases present
      exact .inl ⟨rfl, member⟩
    · rw [Function.update_of_ne same] at present
      exact .inr ⟨covers.filed other found present label member, fun dropped => same dropped.1⟩
  · obtain ⟨-, member⟩ | ⟨kept, -⟩ := mem_insert.mp filed
    · exact ⟨object, member⟩
    · exact covers.labels label other kept

theorem Covers.delete (covers : Covers labels index table) :
    Covers labels (delete labels index id object) (Function.update table id none) := by
  refine ⟨fun other found present label member => ?_, fun label other filed => ?_⟩
  · rw [mem_delete]
    by_cases same : other = id
    · subst same
      rw [Function.update_self] at present
      cases present
    · rw [Function.update_of_ne same] at present
      exact ⟨covers.filed other found present label member, fun dropped => same dropped.1⟩
  · exact covers.labels label other (mem_delete.mp filed).1

/-- An insert that sees the object as it was filed leaves the index exact. -/
theorem Exact.insert (exact : Exact labels index table) :
    Exact labels (insert labels index id (table id) object)
      (Function.update table id (some object)) := by
  intro label other
  rw [mem_insert, exact]
  by_cases same : other = id
  · subst same
    rw [Function.update_self]
    constructor
    · rintro (⟨-, member⟩ | ⟨⟨old, found, member⟩, kept⟩)
      · exact ⟨object, rfl, member⟩
      · exact absurd ⟨rfl, old, found, member⟩ kept
    · rintro ⟨_, ⟨⟩, member⟩
      exact .inl ⟨rfl, member⟩
  · rw [Function.update_of_ne same]
    constructor
    · rintro (⟨here, -⟩ | ⟨found, -⟩)
      · exact absurd here same
      · exact found
    · intro found
      exact .inr ⟨found, fun dropped => same dropped.1⟩

theorem Exact.delete (exact : Exact labels index table) (found : table id = some object) :
    Exact labels (delete labels index id object) (Function.update table id none) := by
  intro label other
  rw [mem_delete, exact]
  by_cases same : other = id
  · subst same
    rw [Function.update_self]
    constructor
    · rintro ⟨⟨old, present, member⟩, kept⟩
      cases found.symm.trans present
      exact absurd ⟨rfl, member⟩ kept
    · rintro ⟨_, gone, -⟩
      cases gone
  · rw [Function.update_of_ne same]
    constructor
    · exact And.left
    · intro present
      exact ⟨present, fun dropped => same dropped.1⟩

/-- An insert that sees the new object as the one stored so far leaves the index exact when the object has
lost no label. -/
theorem Exact.refresh_iff (exact : Exact labels index table) (found : table id = some stored)
    (object : α) :
    Exact labels (MultiIndex.insert labels index id (some object) object)
        (Function.update table id (some object)) ↔
      labels stored ⊆ labels object := by
  constructor
  · intro refreshed label member
    have filed : (label, id) ∈ MultiIndex.insert labels index id (some object) object := by
      rw [mem_insert]
      by_cases kept : label ∈ labels object
      · exact .inl ⟨rfl, kept⟩
      · refine .inr ⟨exact.covers.filed id stored found label member, ?_⟩
        rintro ⟨-, _, ⟨⟩, there⟩
        exact kept there
    obtain ⟨_, present, there⟩ := (refreshed label id).mp filed
    rw [Function.update_self] at present
    cases present
    exact there
  · intro kept label other
    rw [mem_insert, exact]
    by_cases same : other = id
    · subst same
      rw [Function.update_self]
      constructor
      · rintro (⟨-, member⟩ | ⟨⟨old, present, member⟩, -⟩)
        · exact ⟨object, rfl, member⟩
        · cases found.symm.trans present
          exact ⟨object, rfl, kept member⟩
      · rintro ⟨_, ⟨⟩, member⟩
        exact .inl ⟨rfl, member⟩
    · rw [Function.update_of_ne same]
      constructor
      · rintro (⟨here, -⟩ | ⟨present, -⟩)
        · exact absurd here same
        · exact present
      · intro present
        exact .inr ⟨present, fun dropped => same dropped.1⟩

/-- One write to a table and its index that sees the objects as they were filed. -/
inductive Step (labels : α → Finset (κ × ν)) (table : ι → Option α) (index : Index ι κ ν) :
    (ι → Option α) → Index ι κ ν → Prop
  | keep : Step labels table index table index
  | insert (id : ι) (object : α) :
      Step labels table index (Function.update table id (some object))
        (insert labels index id (table id) object)
  | delete {id : ι} {object : α} (found : table id = some object) :
      Step labels table index (Function.update table id none) (delete labels index id object)

variable {table' : ι → Option α} {index' : Index ι κ ν}

theorem Step.exact (step : Step labels table index table' index') (exact : Exact labels index table) :
    Exact labels index' table' := by
  cases step with
  | keep => exact exact
  | insert => exact exact.insert
  | delete found => exact exact.delete found

theorem Step.covers (step : Step labels table index table' index')
    (covers : Covers labels index table) : Covers labels index' table' := by
  cases step with
  | keep => exact covers
  | insert => exact covers.insert
  | delete => exact covers.delete

end Insert

section Visit

/-- A lookup of the key visits every object that has it exactly once, and no other. -/
def VisitsExactly (labels : α → Finset (κ × ν)) (index : Index ι κ ν) (table : ι → Option α)
    (key : κ) : Prop :=
  ∀ id, (visit index key).count id = 1 ∧
      (∃ object value, table id = some object ∧ (key, value) ∈ labels object) ∨
    (visit index key).count id = 0 ∧
      ¬ ∃ object value, table id = some object ∧ (key, value) ∈ labels object

omit [DecidableEq ν] in
theorem count_visit (index : Index ι κ ν) (key : κ) (id : ι) :
    (visit index key).count id = (index.filter fun entry => entry.1.1 = key ∧ entry.2 = id).card := by
  rw [visit, Multiset.count_map, ← Finset.filter_val, Finset.filter_filter]
  simp only [eq_comm, Finset.card_val]

omit [DecidableEq ν] in
/-- Where no object has a key twice, the lookups of all keys that occur are exact when the index is. -/
theorem Covers.visitsExactly_iff (covers : Covers labels index table) (occurs : κ → Prop)
    (functional : ∀ object key left right, (key, left) ∈ labels object →
      (key, right) ∈ labels object → left = right)
    (only : ∀ object label, label ∈ labels object → occurs label.1) :
    (∀ key, occurs key → VisitsExactly labels index table key) ↔ Exact labels index table := by
  constructor
  · intro visits label id
    obtain ⟨key, value⟩ := label
    refine ⟨fun filed => ?_, fun ⟨object, found, member⟩ => covers.filed id object found _ member⟩
    have here : ((key, value), id) ∈ index.filter fun entry => entry.1.1 = key ∧ entry.2 = id := by
      simp [filed]
    obtain ⟨other, member⟩ := covers.labels _ id filed
    obtain ⟨once, object, current, found, member⟩ | ⟨never, -⟩ := visits key (only other _ member) id
    · rw [count_visit, Finset.card_eq_one] at once
      obtain ⟨entry, single⟩ := once
      have there : ((key, current), id) ∈ index.filter fun entry => entry.1.1 = key ∧ entry.2 = id := by
        simp [covers.filed id object found _ member]
      rw [single, Finset.mem_singleton] at here there
      cases here.trans there.symm
      exact ⟨object, found, member⟩
    · rw [count_visit, Finset.card_eq_zero] at never
      rw [never] at here
      cases here
  · intro exact key _ id
    rw [count_visit]
    by_cases has : ∃ object value, table id = some object ∧ (key, value) ∈ labels object
    · refine .inl ⟨Finset.card_eq_one.mpr ?_, has⟩
      obtain ⟨object, value, found, member⟩ := has
      refine ⟨((key, value), id), Finset.ext fun entry => ?_⟩
      obtain ⟨⟨key', value'⟩, id'⟩ := entry
      simp only [Finset.mem_filter, Finset.mem_singleton, Prod.mk.injEq, exact _ _]
      constructor
      · rintro ⟨⟨other, present, also⟩, rfl, rfl⟩
        cases found.symm.trans present
        exact ⟨⟨rfl, functional object _ _ _ also member⟩, rfl⟩
      · rintro ⟨⟨rfl, rfl⟩, rfl⟩
        exact ⟨⟨object, found, member⟩, rfl, rfl⟩
    · refine .inr ⟨Finset.card_eq_zero.mpr (Finset.filter_eq_empty_iff.mpr ?_), has⟩
      rintro ⟨⟨key', value⟩, id'⟩ filed ⟨rfl, rfl⟩
      obtain ⟨object, found, member⟩ := (exact _ _).mp filed
      exact has ⟨object, value, found, member⟩

end Visit

end MultiIndex

namespace MultiIndex

section Scan

variable {ι κ ν α : Type} [LinearOrder ι] [LinearOrder ν] [DecidableEq κ]
  {labels : α → Finset (κ × ν)} {index : Index ι κ ν} {table : ι → Option α} {key : κ}

/-- The entries of a key in the order of the index: by value, then by object. -/
def scanEntries (index : Index ι κ ν) (key : κ) : List (ν ×ₗ ι) :=
  ((index.filter fun entry => entry.1.1 = key).image fun entry => toLex (entry.1.2, entry.2)).sort

/-- The objects that a lookup of a key visits, in this order. -/
def scan (index : Index ι κ ν) (key : κ) : List ι := (scanEntries index key).map fun entry => (ofLex entry).2

theorem mem_scanEntries {entry : ν ×ₗ ι} :
    entry ∈ scanEntries index key ↔ ((key, (ofLex entry).1), (ofLex entry).2) ∈ index := by
  rw [scanEntries, Finset.mem_sort, Finset.mem_image]
  constructor
  · rintro ⟨⟨⟨_, value⟩, id⟩, found, rfl⟩
    obtain ⟨filed, rfl⟩ := Finset.mem_filter.mp found
    exact filed
  · intro filed
    exact ⟨_, Finset.mem_filter.mpr ⟨filed, rfl⟩, rfl⟩

theorem mem_scan {id : ι} : id ∈ scan index key ↔ ∃ value, ((key, value), id) ∈ index := by
  rw [scan, List.mem_map]
  constructor
  · rintro ⟨entry, member, rfl⟩
    exact ⟨_, mem_scanEntries.mp member⟩
  · rintro ⟨value, filed⟩
    exact ⟨toLex (value, id), mem_scanEntries.mpr filed, rfl⟩

/-- A lookup visits the same objects as often, in whatever order. -/
theorem coe_scan (index : Index ι κ ν) (key : κ) : (scan index key : Multiset ι) = visit index key := by
  have injective : Set.InjOn (fun entry : (κ × ν) × ι => (toLex (entry.1.2, entry.2) : ν ×ₗ ι))
      (index.filter fun entry => entry.1.1 = key) := by
    rintro ⟨⟨_, value⟩, id⟩ one ⟨⟨_, other⟩, another⟩ two same
    obtain ⟨-, rfl⟩ := Finset.mem_filter.mp one
    obtain ⟨-, keyed⟩ := Finset.mem_filter.mp two
    cases keyed
    cases same
    rfl
  rw [scan, scanEntries, ← Multiset.map_coe, Finset.sort_eq, Finset.image_val_of_injOn injective,
    Multiset.map_map, visit]
  rfl

theorem pairwise_scanEntries : (scanEntries index key).Pairwise (· < ·) := (Finset.sortedLT_sort _).pairwise

/-- Two members of a list that are in its order come in this order. -/
theorem rel_of_pairwise {β : Type} {list : List β} {before relation : β → β → Prop}
    (asymm : ∀ first second, before first second → ¬before second first) (ordered : list.Pairwise before)
    (related : list.Pairwise relation) {first second : β} (one : first ∈ list) (two : second ∈ list)
    (less : before first second) : relation first second := by
  obtain ⟨i, bound, rfl⟩ := List.mem_iff_getElem.mp one
  obtain ⟨j, other, rfl⟩ := List.mem_iff_getElem.mp two
  obtain ahead | rfl | behind := lt_trichotomy i j
  · exact List.pairwise_iff_getElem.mp related i j bound other ahead
  · exact absurd less (asymm _ _ less)
  · exact absurd less (asymm _ _ (List.pairwise_iff_getElem.mp ordered j i other bound behind))

theorem pairwise_scan_iff (functional : ∀ id left right, ((key, left), id) ∈ index → ((key, right), id) ∈ index →
      left = right) :
    (scan index key).Pairwise (· < ·) ↔ ∀ id other left right, ((key, left), id) ∈ index →
      ((key, right), other) ∈ index → id < other → left ≤ right := by
  rw [scan, List.pairwise_map]
  constructor
  · intro ascends id other left right one two less
    by_contra! descends
    have before : (toLex (right, other) : ν ×ₗ ι) < toLex (left, id) := Prod.Lex.toLex_lt_toLex.mpr (.inl descends)
    have first : toLex (right, other) ∈ scanEntries index key := mem_scanEntries.mpr two
    have second : toLex (left, id) ∈ scanEntries index key := mem_scanEntries.mpr one
    exact lt_asymm less (rel_of_pairwise (fun _ _ => lt_asymm) pairwise_scanEntries ascends first second before)
  · intro ordered
    refine pairwise_scanEntries.imp_of_mem fun {first second} one two before => ?_
    have one := mem_scanEntries.mp one
    have two := mem_scanEntries.mp two
    obtain less | ⟨-, less⟩ := Prod.Lex.lt_iff.mp before
    · obtain ahead | same | behind := lt_trichotomy (ofLex first).2 (ofLex second).2
      · exact ahead
      · rw [same] at one
        exact absurd (functional _ _ _ one two) less.ne
      · exact absurd (ordered _ _ _ _ two one behind) (not_le.mpr less)
    · exact less

/-- Where no object has a key twice, a lookup visits the objects that have it in ascending order if and only if their
values ascend with them. -/
theorem scan_eq_iff (exact : Exact labels index table)
    (functional : ∀ object left right, (key, left) ∈ labels object → (key, right) ∈ labels object → left = right)
    {has : α → Bool} (has_iff : ∀ object, has object ↔ ∃ value, (key, value) ∈ labels object)
    {listing : List (ι × α)} (ascends : listing.Pairwise fun one other => one.1 < other.1)
    (listed : ∀ id object, (id, object) ∈ listing ↔ table id = some object) :
    scan index key = (listing.filter fun entry => has entry.2).map Prod.fst ↔
      listing.Pairwise fun one other => ∀ left right, (key, left) ∈ labels one.2 → (key, right) ∈ labels other.2 →
        left ≤ right := by
  have target : ((listing.filter fun entry => has entry.2).map Prod.fst).Pairwise (· < ·) :=
    List.pairwise_map.mpr (ascends.filter _)
  have single (id : ι) (left right : ν) (one : ((key, left), id) ∈ index) (two : ((key, right), id) ∈ index) :
      left = right := by
    obtain ⟨object, found, labeled⟩ := (exact _ _).mp one
    obtain ⟨_, again, also⟩ := (exact _ _).mp two
    cases found.symm.trans again
    exact functional object left right labeled also
  have ordered := pairwise_scan_iff single
  constructor
  · intro same
    rw [← same, ordered] at target
    refine ascends.imp_of_mem fun {one other} first second less left right labeled also => ?_
    exact target _ _ left right ((exact _ _).mpr ⟨_, (listed _ _).mp first, labeled⟩)
      ((exact _ _).mpr ⟨_, (listed _ _).mp second, also⟩) less
  · intro values
    have sorted : (scan index key).Pairwise (· < ·) := by
      refine ordered.mpr fun id other left right one two less => ?_
      obtain ⟨object, found, labeled⟩ := (exact _ _).mp one
      obtain ⟨another, again, also⟩ := (exact _ _).mp two
      exact rel_of_pairwise (fun _ _ => lt_asymm) ascends values ((listed _ _).mpr found) ((listed _ _).mpr again) less
        left right labeled also
    refine sorted.eq_of_mem_iff target fun id => ?_
    rw [mem_scan, List.mem_map]
    constructor
    · rintro ⟨value, filed⟩
      obtain ⟨object, found, labeled⟩ := (exact _ _).mp filed
      exact ⟨(id, object), List.mem_filter.mpr ⟨(listed _ _).mpr found, (has_iff object).mpr ⟨value, labeled⟩⟩, rfl⟩
    · rintro ⟨⟨_, object⟩, member, rfl⟩
      obtain ⟨member, holds⟩ := List.mem_filter.mp member
      obtain ⟨value, labeled⟩ := (has_iff object).mp holds
      exact ⟨value, (exact _ _).mpr ⟨object, (listed _ _).mp member, labeled⟩⟩

end Scan

end MultiIndex
