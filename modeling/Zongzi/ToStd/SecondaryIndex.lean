import Mathlib

/-! # Secondary indexes over ordered maps

Std supplies extensional ordered maps but no maintained secondary index. An index files every
object of a primary map under the keys computed from it. Replacing an object first drops the
entries of the version stored under the same identifier, then overwrites the entries of the new
version; deleting drops the stored version's entries. Overwriting is unconditional, so an index
whose keys do not determine the identifier may lose an object: `Sound` always survives
maintenance, `Mirrors` needs the new keys to be free. Keys paired with the identifier are always
free, and selecting on such an index is filtering the primary map. A scan goes by how the entries are
spelt, and may find more than the objects of one value.
-/

namespace SecondaryIndex

open Std

section Maintenance

variable {ι κ α : Type} {order : ι → ι → Ordering} [TransCmp order] [LawfulEqCmp order]
  [DecidableEq ι]
variable {cmp : κ → κ → Ordering} [TransCmp cmp] [LawfulEqCmp cmp] [DecidableEq κ]

/-- Drop the entries an object is filed under. -/
def unfile (keys : α → List κ) (index : ExtTreeMap κ α cmp) (object : α) : ExtTreeMap κ α cmp :=
  (keys object).foldl (fun index key => index.erase key) index

/-- File an object under each of its keys, overwriting what is there. -/
def file (keys : α → List κ) (index : ExtTreeMap κ α cmp) (object : α) : ExtTreeMap κ α cmp :=
  (keys object).foldl (fun index key => index.insert key object) index

/-- Replace the stored version of an object, if there is one. -/
def refile (keys : α → List κ) (index : ExtTreeMap κ α cmp) (existing : Option α) (object : α) :
    ExtTreeMap κ α cmp :=
  file keys (existing.elim index (unfile keys index)) object

theorem getElem?_unfile (keys : α → List κ) (index : ExtTreeMap κ α cmp) (object : α) (key : κ) :
    (unfile keys index object)[key]? = if key ∈ keys object then none else index[key]? := by
  unfold unfile
  generalize keys object = filed
  induction filed generalizing index with
  | nil => simp
  | cons head rest ih =>
    rw [List.foldl_cons, ih, ExtTreeMap.getElem?_erase]
    simp only [LawfulEqCmp.compare_eq_iff_eq]
    by_cases inRest : key ∈ rest
    · simp [inRest]
    · by_cases same : head = key
      · simp [same]
      · simp [inRest, same, Ne.symm same]

theorem getElem?_file (keys : α → List κ) (index : ExtTreeMap κ α cmp) (object : α) (key : κ) :
    (file keys index object)[key]? = if key ∈ keys object then some object else index[key]? := by
  unfold file
  generalize keys object = filed
  induction filed generalizing index with
  | nil => simp
  | cons head rest ih =>
    rw [List.foldl_cons, ih, ExtTreeMap.getElem?_insert]
    simp only [LawfulEqCmp.compare_eq_iff_eq]
    by_cases inRest : key ∈ rest
    · simp [inRest]
    · by_cases same : head = key
      · simp [same]
      · simp [inRest, same, Ne.symm same]

/-- A lookup after replacement sees the new version, then the gap left by the stored one. -/
theorem getElem?_refile (keys : α → List κ) (index : ExtTreeMap κ α cmp) (existing : Option α)
    (object : α) (key : κ) :
    (refile keys index existing object)[key]? =
      if key ∈ keys object then some object
      else if existing.any (fun old => key ∈ keys old) then none else index[key]? := by
  rw [refile, getElem?_file]
  cases existing with
  | none => simp
  | some old => simp [getElem?_unfile]

/-- The primary map stores every object under its own identifier. -/
def Keyed (id : α → ι) (primary : ExtTreeMap ι α order) : Prop :=
  ∀ i object, primary[i]? = some object → id object = i

/-- Every entry is the current version of an object filed under that key. -/
def Sound (id : α → ι) (keys : α → List κ) (primary : ExtTreeMap ι α order)
    (index : ExtTreeMap κ α cmp) : Prop :=
  ∀ key object, index[key]? = some object → key ∈ keys object ∧ primary[id object]? = some object

/-- Every object of the primary map is found under each of its keys. -/
def Complete (id : α → ι) (keys : α → List κ) (primary : ExtTreeMap ι α order)
    (index : ExtTreeMap κ α cmp) : Prop :=
  ∀ object, primary[id object]? = some object → ∀ key ∈ keys object, index[key]? = some object

/-- The index is a function of the primary map. -/
structure Mirrors (id : α → ι) (keys : α → List κ) (primary : ExtTreeMap ι α order)
    (index : ExtTreeMap κ α cmp) : Prop where
  sound : Sound id keys primary index
  complete : Complete id keys primary index

variable {id : α → ι} {keys : α → List κ} {primary : ExtTreeMap ι α order}
  {index : ExtTreeMap κ α cmp}

omit [LawfulEqCmp order] [DecidableEq ι] in
theorem keyed_empty : Keyed id (∅ : ExtTreeMap ι α order) := by
  intro i object present
  simp at present

theorem Keyed.insert (keyed : Keyed id primary) (object : α) :
    Keyed id (primary.insert (id object) object) := by
  intro i other present
  simp only [ExtTreeMap.getElem?_insert, LawfulEqCmp.compare_eq_iff_eq] at present
  split at present
  · next same => cases present; exact same
  · exact keyed i other present

omit [LawfulEqCmp order] [DecidableEq ι] in
theorem Keyed.erase (keyed : Keyed id primary) (i : ι) : Keyed id (primary.erase i) := by
  intro j other present
  rw [ExtTreeMap.getElem?_erase] at present
  split at present
  · contradiction
  · exact keyed j other present

omit [DecidableEq ι] in
theorem Keyed.mem_values (keyed : Keyed id primary) {object : α} :
    object ∈ primary.toList.map Prod.snd ↔ primary[id object]? = some object := by
  simp only [List.mem_map, Prod.exists, exists_eq_right]
  constructor
  · rintro ⟨i, listed⟩
    have stored := ExtTreeMap.mem_toList_iff_getElem?_eq_some.mp listed
    rw [keyed i object stored]
    exact stored
  · intro stored
    exact ⟨id object, ExtTreeMap.mem_toList_iff_getElem?_eq_some.mpr stored⟩

omit [DecidableEq ι] in
theorem Keyed.nodup_values (keyed : Keyed id primary) : (primary.toList.map Prod.snd).Nodup := by
  refine List.Nodup.of_map id ?_
  have keys : (primary.toList.map Prod.snd).map id = primary.keys := by
    rw [← ExtTreeMap.map_fst_toList_eq_keys, List.map_map]
    refine List.map_congr_left fun entry member => ?_
    exact keyed entry.1 entry.2 (ExtTreeMap.mem_toList_iff_getElem?_eq_some.mp member)
  rw [keys]
  exact ExtTreeMap.nodup_keys

/-- Inserting versions stored in one primary map into another copies exactly their entries. -/
theorem getElem?_foldl_insert {source : ExtTreeMap ι α order} {objects : List α}
    (stored : ∀ object ∈ objects, source[id object]? = some object) (i : ι) :
    (objects.foldl (fun target object => target.insert (id object) object) primary)[i]? =
      if i ∈ objects.map id then source[i]? else primary[i]? := by
  induction objects generalizing primary with
  | nil => simp
  | cons head rest ih =>
    rw [List.foldl_cons, ih (fun object member => stored object (List.mem_cons_of_mem _ member))]
    by_cases inRest : i ∈ rest.map id
    · simp only [inRest, ↓reduceIte, List.map_cons, List.mem_cons, or_true]
    · by_cases same : id head = i
      · subst same
        simp [inRest, stored head (List.mem_cons_self ..)]
      · simp [inRest, same, Ne.symm same, ExtTreeMap.getElem?_insert]

/-- Inserting every object of one primary map into another lays the first over the second. -/
theorem Keyed.getElem?_foldl_insert {source : ExtTreeMap ι α order} (keyed : Keyed id source) (i : ι) :
    ((source.toList.map Prod.snd).foldl (fun target object => target.insert (id object) object)
      primary)[i]? = source[i]?.or primary[i]? := by
  rw [SecondaryIndex.getElem?_foldl_insert (fun object => keyed.mem_values.mp)]
  cases found : source[i]? with
  | some object =>
    have atId := keyed i object found
    subst atId
    rw [if_pos (List.mem_map_of_mem (keyed.mem_values.mpr found))]
    rfl
  | none =>
    rw [if_neg]
    · rfl
    · intro member
      obtain ⟨object, listed, rfl⟩ := List.mem_map.mp member
      rw [keyed.mem_values.mp listed] at found
      cases found

omit [LawfulEqCmp order] [DecidableEq ι] [LawfulEqCmp cmp] [DecidableEq κ] in
theorem mirrors_empty : Mirrors id keys (∅ : ExtTreeMap ι α order) (∅ : ExtTreeMap κ α cmp) := by
  refine ⟨?_, ?_⟩
  · intro key object present
    simp at present
  · intro object present
    simp at present

omit [LawfulEqCmp order] [DecidableEq ι] [DecidableEq κ] in
/-- Two indexes mirroring one primary map are the same index. -/
theorem Mirrors.unique {other : ExtTreeMap κ α cmp} (left : Mirrors id keys primary index)
    (right : Mirrors id keys primary other) : index = other := by
  apply ExtTreeMap.ext_getElem?
  intro key
  apply Option.ext
  intro object
  constructor
  · intro present
    obtain ⟨filed, stored⟩ := left.sound key object present
    exact right.complete object stored key filed
  · intro present
    obtain ⟨filed, stored⟩ := right.sound key object present
    exact left.complete object stored key filed

/-- Replacement never leaves an entry that points to a stale version. -/
theorem Sound.refile (sound : Sound id keys primary index) (object : α) :
    Sound id keys (primary.insert (id object) object)
      (refile keys index primary[id object]? object) := by
  intro key other present
  rw [getElem?_refile] at present
  simp only [ExtTreeMap.getElem?_insert, LawfulEqCmp.compare_eq_iff_eq]
  split at present
  · next filed =>
    cases present
    exact ⟨filed, if_pos rfl⟩
  · split at present
    · contradiction
    · next gone =>
      obtain ⟨filed, stored⟩ := sound key other present
      refine ⟨filed, ?_⟩
      rw [if_neg]
      · exact stored
      · intro same
        rw [same, stored] at gone
        simp [filed] at gone

/-- A replacement whose keys no other object holds keeps every object findable. -/
theorem Complete.refile (keyed : Keyed id primary) (complete : Complete id keys primary index)
    (object : α)
    (free : ∀ other, primary[id other]? = some other → id other ≠ id object →
      ∀ key ∈ keys object, key ∉ keys other) :
    Complete id keys (primary.insert (id object) object)
      (refile keys index primary[id object]? object) := by
  intro other stored key filed
  simp only [ExtTreeMap.getElem?_insert, LawfulEqCmp.compare_eq_iff_eq] at stored
  rw [getElem?_refile]
  split at stored
  · cases stored
    rw [if_pos filed]
  · next different =>
    rw [if_neg (fun taken => free other stored (Ne.symm different) key taken filed), if_neg]
    · exact complete other stored key filed
    · intro taken
      cases found : primary[id object]? with
      | none => simp [found] at taken
      | some old =>
        have held : key ∈ keys old := by simpa [found] using taken
        have atObject : id old = id object := keyed _ _ found
        have stale := complete old (by rw [atObject]; exact found) key held
        rw [complete other stored key filed] at stale
        cases stale
        exact different atObject.symm

theorem Mirrors.refile (keyed : Keyed id primary) (mirrors : Mirrors id keys primary index)
    (object : α)
    (free : ∀ other, primary[id other]? = some other → id other ≠ id object →
      ∀ key ∈ keys object, key ∉ keys other) :
    Mirrors id keys (primary.insert (id object) object)
      (refile keys index primary[id object]? object) :=
  ⟨mirrors.sound.refile object, mirrors.complete.refile keyed object free⟩

/-- Deletion drops the stored version's entries, and nothing pointed to an older one. -/
theorem Sound.unfile (sound : Sound id keys primary index) {i : ι} {object : α}
    (stored : primary[i]? = some object) :
    Sound id keys (primary.erase i) (unfile keys index object) := by
  intro key other present
  rw [getElem?_unfile] at present
  split at present
  · contradiction
  · next kept =>
    obtain ⟨filed, found⟩ := sound key other present
    refine ⟨filed, ?_⟩
    simp only [ExtTreeMap.getElem?_erase, LawfulEqCmp.compare_eq_iff_eq]
    rw [if_neg]
    · exact found
    · intro same
      rw [← same, stored] at found
      cases found
      exact kept filed

theorem Complete.unfile (complete : Complete id keys primary index) {i : ι} {object : α}
    (keyed : Keyed id primary) (stored : primary[i]? = some object) :
    Complete id keys (primary.erase i) (unfile keys index object) := by
  intro other remains key filed
  simp only [ExtTreeMap.getElem?_erase, LawfulEqCmp.compare_eq_iff_eq] at remains
  split at remains
  · contradiction
  · next different =>
    rw [getElem?_unfile, if_neg]
    · exact complete other remains key filed
    · intro taken
      have stale := complete object (by rw [keyed i object stored]; exact stored) key taken
      rw [complete other remains key filed] at stale
      cases stale
      exact different (keyed i _ stored).symm

theorem Mirrors.unfile (keyed : Keyed id primary) (mirrors : Mirrors id keys primary index)
    {i : ι} {object : α} (stored : primary[i]? = some object) :
    Mirrors id keys (primary.erase i) (unfile keys index object) :=
  ⟨mirrors.sound.unfile stored, mirrors.complete.unfile keyed stored⟩

section Change

variable {change : α → α}

omit [DecidableEq ι] in
theorem Keyed.map (keyed : Keyed id primary) (sameID : ∀ object, id (change object) = id object) :
    Keyed id (primary.map fun _ => change) := by
  intro i object present
  rw [ExtTreeMap.getElem?_map, Option.map_eq_some_iff] at present
  obtain ⟨old, stored, rfl⟩ := present
  rw [sameID, keyed i old stored]

omit [DecidableEq ι] [DecidableEq κ] in
/-- A change of every object that keeps its keys may be made in the index as well. -/
theorem Sound.map (sound : Sound id keys primary index) (sameID : ∀ object, id (change object) = id object)
    (sameKeys : ∀ object, keys (change object) = keys object) :
    Sound id keys (primary.map fun _ => change) (index.map fun _ => change) := by
  intro key object present
  rw [ExtTreeMap.getElem?_map, Option.map_eq_some_iff] at present
  obtain ⟨old, found, rfl⟩ := present
  obtain ⟨filed, stored⟩ := sound key old found
  rw [sameKeys, sameID, ExtTreeMap.getElem?_map, stored]
  exact ⟨filed, rfl⟩

omit [DecidableEq ι] [DecidableEq κ] in
theorem Mirrors.map (mirrors : Mirrors id keys primary index)
    (sameID : ∀ object, id (change object) = id object)
    (sameKeys : ∀ object, keys (change object) = keys object) :
    Mirrors id keys (primary.map fun _ => change) (index.map fun _ => change) := by
  refine ⟨mirrors.sound.map sameID sameKeys, fun object present key filed => ?_⟩
  rw [ExtTreeMap.getElem?_map, Option.map_eq_some_iff] at present
  obtain ⟨old, stored, rfl⟩ := present
  rw [sameID] at stored
  rw [sameKeys] at filed
  rw [ExtTreeMap.getElem?_map, mirrors.complete old stored key filed]
  rfl

end Change

end Maintenance

section Grouped

variable {ι κ α : Type} [Ord ι] [TransOrd ι] [LawfulEqOrd ι]
variable [Ord κ] [TransOrd κ] [LawfulEqOrd κ] [DecidableEq κ]

/-- A non-unique index orders its entries by the indexed value, then by the identifier. -/
abbrev Grouped (κ ι α : Type) [Ord κ] [Ord ι] : Type := ExtTreeMap (κ × ι) α (@compare _ lexOrd)

/-- An object with an indexed value has one entry, made unique by its identifier. -/
def groupKeys (key? : α → Option κ) (id : α → ι) (object : α) : List (κ × ι) :=
  (key? object).toList.map fun key => (key, id object)

/-- The objects filed under one value, in the order of their identifiers. -/
def select (index : Grouped κ ι α) (key : κ) : List α :=
  (index.toList.filter fun entry => entry.1.1 = key).map Prod.snd

variable {key? : α → Option κ} {id : α → ι} {primary : ExtTreeMap ι α} {index : Grouped κ ι α}

omit [Ord ι] [TransOrd ι] [LawfulEqOrd ι] [Ord κ] [TransOrd κ] [LawfulEqOrd κ]
  [DecidableEq κ] in
theorem mem_groupKeys {object : α} {entry : κ × ι} :
    entry ∈ groupKeys key? id object ↔ key? object = some entry.1 ∧ id object = entry.2 := by
  rcases entry with ⟨key, i⟩
  simp [groupKeys, Option.mem_toList]

omit [Ord ι] [TransOrd ι] [LawfulEqOrd ι] [Ord κ] [TransOrd κ] [LawfulEqOrd κ]
  [DecidableEq κ] in
/-- Keys that carry the identifier are never held by another object. -/
theorem groupKeys_free {object other : α} (different : id other ≠ id object) :
    ∀ entry ∈ groupKeys key? id object, entry ∉ groupKeys key? id other := by
  intro entry filed taken
  exact different ((mem_groupKeys.mp taken).2.trans (mem_groupKeys.mp filed).2.symm)

omit [LawfulEqOrd ι] in
private theorem eq_of_ordered {left right : List α}
    (leftOrdered : left.Pairwise fun a b => compare (id a) (id b) = .lt)
    (rightOrdered : right.Pairwise fun a b => compare (id a) (id b) = .lt)
    (members : ∀ object, object ∈ left ↔ object ∈ right) : left = right := by
  have : Antisymm fun a b : α => compare (id a) (id b) = .lt :=
    ⟨fun a b before after => by
      rw [OrientedCmp.gt_of_lt before] at after
      contradiction⟩
  have : Irrefl fun a b : α => compare (id a) (id b) = .lt := ⟨fun a => by simp⟩
  exact leftOrdered.eq_of_mem_iff rightOrdered members

private theorem select_ordered (mirrors : Mirrors id (groupKeys key? id) primary index) (key : κ) :
    (select index key).Pairwise fun a b => compare (id a) (id b) = .lt := by
  rw [select, List.pairwise_map]
  refine ((ExtTreeMap.ordered_keys_toList (t := index)).filter _).imp_of_mem ?_
  rintro ⟨⟨keyA, idA⟩, a⟩ ⟨⟨keyB, idB⟩, b⟩ memA memB before
  obtain ⟨memA, sameA⟩ := List.mem_filter.mp memA
  obtain ⟨memB, sameB⟩ := List.mem_filter.mp memB
  have filedA := (mirrors.sound _ _ (ExtTreeMap.mem_toList_iff_getElem?_eq_some.mp memA)).1
  have filedB := (mirrors.sound _ _ (ExtTreeMap.mem_toList_iff_getElem?_eq_some.mp memB)).1
  have same : keyA = keyB := (of_decide_eq_true sameA).trans (of_decide_eq_true sameB).symm
  have lexical : (compare keyA keyB).then (compare idA idB) = .lt := before
  rw [same, ReflOrd.compare_self] at lexical
  rw [(mem_groupKeys.mp filedA).2, (mem_groupKeys.mp filedB).2]
  exact lexical

private theorem values_ordered (keyed : Keyed id primary) :
    (primary.toList.map Prod.snd).Pairwise fun a b => compare (id a) (id b) = .lt := by
  rw [List.pairwise_map]
  refine ExtTreeMap.ordered_keys_toList.imp_of_mem ?_
  rintro ⟨i, a⟩ ⟨j, b⟩ memA memB before
  rw [keyed i a (ExtTreeMap.mem_toList_iff_getElem?_eq_some.mp memA),
    keyed j b (ExtTreeMap.mem_toList_iff_getElem?_eq_some.mp memB)]
  exact before

/-- Selecting on a maintained non-unique index is filtering the primary map. -/
theorem select_eq_filter (keyed : Keyed id primary)
    (mirrors : Mirrors id (groupKeys key? id) primary index) (key : κ) :
    select index key =
      (primary.toList.map Prod.snd).filter fun object => key? object = some key := by
  apply eq_of_ordered (select_ordered mirrors key) ((values_ordered keyed).filter _)
  intro object
  simp only [select, List.mem_map, List.mem_filter, decide_eq_true_eq]
  constructor
  · rintro ⟨⟨⟨group, i⟩, found⟩, ⟨member, same⟩, rfl⟩
    obtain ⟨filed, stored⟩ := mirrors.sound _ _ (ExtTreeMap.mem_toList_iff_getElem?_eq_some.mp member)
    refine ⟨⟨(id found, found), ExtTreeMap.mem_toList_iff_getElem?_eq_some.mpr stored, rfl⟩, ?_⟩
    rw [(mem_groupKeys.mp filed).1]
    exact congrArg some same
  · rintro ⟨⟨⟨i, found⟩, member, rfl⟩, same⟩
    have stored := ExtTreeMap.mem_toList_iff_getElem?_eq_some.mp member
    have atId := keyed i found stored
    subst atId
    have filed := mirrors.complete found stored (key, id found) (mem_groupKeys.mpr ⟨same, rfl⟩)
    exact ⟨((key, id found), found), ⟨ExtTreeMap.mem_toList_iff_getElem?_eq_some.mpr filed, rfl⟩, rfl⟩

section Scans

variable {σ : Type} [DecidableEq σ] [LT σ] [DecidableLT σ] (spell : κ × ι → List σ)

/-- The objects whose entries are spelt with the given start, in the order of the spellings. -/
def scan (index : Grouped κ ι α) (start : List σ) : List α :=
  ((index.toList.filter fun entry => start <+: spell entry.1).insertionSort
    fun left right => spell left.1 ≤ spell right.1).map Prod.snd

omit [DecidableEq κ] in
/-- A scan finds what is spelt with its start, under whatever value it is filed. -/
theorem mem_scan (mirrors : Mirrors id (groupKeys key? id) primary index) {start : List σ} {object : α} :
    object ∈ scan spell index start ↔ primary[id object]? = some object ∧
      ∃ key, key? object = some key ∧ start <+: spell (key, id object) := by
  simp only [scan, List.mem_map, List.mem_insertionSort, List.mem_filter, decide_eq_true_eq]
  constructor
  · rintro ⟨⟨⟨key, i⟩, found⟩, ⟨member, spelt⟩, rfl⟩
    obtain ⟨filed, stored⟩ := mirrors.sound _ _ (ExtTreeMap.mem_toList_iff_getElem?_eq_some.mp member)
    obtain ⟨same, atId⟩ := mem_groupKeys.mp filed
    exact ⟨stored, key, same, by rwa [atId]⟩
  · rintro ⟨stored, key, same, spelt⟩
    have filed := mirrors.complete object stored (key, id object) (mem_groupKeys.mpr ⟨same, rfl⟩)
    exact ⟨((key, id object), object), ⟨ExtTreeMap.mem_toList_iff_getElem?_eq_some.mpr filed, spelt⟩, rfl⟩

end Scans

end Grouped

end SecondaryIndex
