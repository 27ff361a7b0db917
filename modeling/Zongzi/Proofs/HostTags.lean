import Zongzi.Model.ShardController

/-! # Tags of a host and filters

The tags of a host are split by `tagMapFromList`, the tags of a filter by `parseTag`. Both split at the first equals
sign, and the last of several tags with one key counts. They differ for a tag without a key: one takes the key to be
empty, the other takes the whole text for the key, which no host has.
-/

namespace Zongzi

open Std

variable {tags filter : List String} {tag key : String}

section Split

/-- Only what follows the key can have an equals sign. -/
theorem separator_notMem_key (tag : String) : '=' ∉ (splitTag tag).1.toList := by
  unfold splitTag
  split
  · rw [String.toList_ofList]
    intro member
    simpa using List.mem_takeWhile_imp member
  · next plain => exact plain

/-- The tag has no key before its equals sign. -/
def isUnnamed (tag : String) : Bool := tag.toList.head? = some '='

theorem parseTag_eq (tag : String) : parseTag tag = if isUnnamed tag then (tag, "") else splitTag tag := by
  unfold parseTag isUnnamed
  cases chars : tag.toList with
  | nil => simp [splitTag, chars]
  | cons char rest =>
    by_cases separator : char = '='
    · simp [separator]
    · simp [separator, List.idxOf_cons_ne _ separator]

end Split

section Map

/-- The last of the tags that have a key. -/
def lastTag (tags : List String) (key : String) : Option String :=
  tags.reverse.find? fun tag => (splitTag tag).1 = key

theorem getElem?_tagMapFromList (tags : List String) (key : String) :
    (tagMapFromList tags)[key]? = (lastTag tags key).map fun tag => (splitTag tag).2 := by
  induction tags using List.reverseRecOn with
  | nil => rfl
  | append_singleton tags tag ih =>
    rw [tagMapFromList, List.foldl_append]
    change ((tagMapFromList tags).insert (splitTag tag).1 (splitTag tag).2)[key]? = _
    rw [ExtTreeMap.getElem?_insert, ih, lastTag, lastTag, List.reverse_append]
    by_cases same : (splitTag tag).1 = key
    · simp [same]
    · simp [same]

/-- The last of the tags that have the key of this one has its value. -/
def Carries (tags : List String) (tag : String) : Prop :=
  (lastTag tags (splitTag tag).1).map (fun tag => (splitTag tag).2) = some (splitTag tag).2

/-- A tag with a key matches if it is carried, and a tag without one never does. -/
theorem getElem?_parseTag_iff (tags : List String) (tag : String) :
    (tagMapFromList tags)[(parseTag tag).1]? = some (parseTag tag).2 ↔ ¬isUnnamed tag ∧ Carries tags tag := by
  rw [getElem?_tagMapFromList, parseTag_eq]
  by_cases unnamed : isUnnamed tag
  · have absent : lastTag tags tag = none := by
      refine List.find?_eq_none.mpr fun other _ same => ?_
      have plain := separator_notMem_key other
      rw [of_decide_eq_true same] at plain
      exact plain (List.mem_of_mem_head? (of_decide_eq_true unnamed))
    simp [unnamed, absent]
  · simp [unnamed, Carries]

theorem matchTagFilter_iff : matchTagFilter (some (tagMapFromList tags)) filter ↔
    ∀ tag ∈ filter, tag ≠ "" → ¬isUnnamed tag ∧ Carries tags tag := by
  rw [matchTagFilter, List.all_eq_true]
  refine forall₂_congr fun tag _ => ?_
  rw [Bool.or_eq_true, decide_eq_true_eq, decide_eq_true_eq, ← getElem?_parseTag_iff, or_iff_not_imp_left]
  rfl

theorem not_isUnnamed_empty : ¬isUnnamed "" := by decide

/-- Among tags with distinct keys each is the last with its own. -/
theorem carries_of_mem (distinct : (tags.map fun tag => (splitTag tag).1).Nodup) (member : tag ∈ tags) :
    Carries tags tag := by
  unfold Carries
  cases found : lastTag tags (splitTag tag).1 with
  | none => simpa using List.find?_eq_none.mp found tag (List.mem_reverse.mpr member)
  | some last =>
    rw [lastTag] at found
    have keyed : (splitTag last).1 = (splitTag tag).1 := by simpa using List.find?_some found
    have listed := List.mem_reverse.mp (List.mem_of_find?_eq_some found)
    rw [List.inj_on_of_nodup_map distinct listed member keyed]
    rfl

end Map

/-- A host matches a filter if and only if it carries all of its tags, unless a tag of the filter has no key although
the host carries them all. Of tags with distinct keys, each that has a key matches itself. -/
theorem matches_carried_iff (tags filter : List String) :
    ((matchTagFilter (some (tagMapFromList tags)) filter ↔ ∀ tag ∈ filter, tag ≠ "" → Carries tags tag) ↔
      (∀ tag ∈ filter, ¬isUnnamed tag) ∨ ∃ tag ∈ filter, tag ≠ "" ∧ ¬Carries tags tag) ∧
    ((tags.map fun tag => (splitTag tag).1).Nodup → ∀ tag ∈ tags,
      matchTagFilter (some (tagMapFromList tags)) [tag] ↔ ¬isUnnamed tag) := by
  constructor
  · rw [matchTagFilter_iff]
    constructor
    · intro same
      by_cases carried : ∀ tag ∈ filter, tag ≠ "" → Carries tags tag
      · refine .inl fun tag member => ?_
        by_cases empty : tag = ""
        · rw [empty]
          exact not_isUnnamed_empty
        · exact (same.mpr carried tag member empty).1
      · push Not at carried
        exact .inr carried
    · rintro (named | ⟨tag, member, nonempty, missing⟩)
      · exact forall₃_congr fun tag member _ => and_iff_right (named tag member)
      · exact iff_of_false (fun all => missing (all tag member nonempty).2) fun all => missing (all tag member nonempty)
  · intro distinct tag member
    rw [matchTagFilter_iff]
    constructor
    · intro all
      by_cases empty : tag = ""
      · rw [empty]
        exact not_isUnnamed_empty
      · exact (all tag (by simp) empty).1
    · intro named other listed _
      rw [List.mem_singleton.mp listed]
      exact ⟨named, carries_of_mem distinct member⟩

/-- A host with two tags. -/
theorem zone_matches : (["zone=a", "class"].map fun tag => (splitTag tag).1).Nodup ∧
    (∀ tag ∈ ["zone=a"], ¬isUnnamed tag) ∧
    (matchTagFilter (some (tagMapFromList ["zone=a", "class"])) ["zone=a"] ↔
      ∀ tag ∈ ["zone=a"], tag ≠ "" → Carries ["zone=a", "class"] tag) ∧
    matchTagFilter (some (tagMapFromList ["zone=a", "class"])) ["class"] := by
  have distinct : (["zone=a", "class"].map fun tag => (splitTag tag).1).Nodup := by decide
  have named : ∀ tag ∈ ["zone=a"], ¬isUnnamed tag := by decide
  have both := matches_carried_iff ["zone=a", "class"] ["zone=a"]
  exact ⟨distinct, named, both.1.mpr (.inl named), (both.2 distinct "class" (by decide)).mpr (by decide)⟩

/-- A host with the one tag `=x` carries it and does not match it. -/
theorem unnamed_tag_unmatched : Carries ["=x"] "=x" ∧ (["=x"].map fun tag => (splitTag tag).1).Nodup ∧
    matchTagFilter (some (tagMapFromList ["=x"])) ["=x"] = false := by
  have distinct : (["=x"].map fun tag => (splitTag tag).1).Nodup := List.nodup_singleton _
  refine ⟨carries_of_mem distinct (by decide), distinct, Bool.eq_false_iff.mpr fun matched => ?_⟩
  exact (matchTagFilter_iff.mp matched "=x" (by decide) (by decide)).1 (by decide)

end Zongzi
