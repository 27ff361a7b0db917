import Zongzi.Machine.Loops
import Zongzi.Model.ShardController

/-! # What the tags of a shard ask for

The controller ranges over the tags of a shard in any order. Every tag writes to one group of the demand, and
no two tags to the same one, unless the shard has a cover tag and names a replica group `cover` as well. So
without these two together the order does not matter.
-/

namespace Zongzi

open Std Machine

/-- The calls that only ask in which order a map is visited. -/
def ControlOp.isOrder : ControlOp → Bool
  | .order _ => true
  | _ => false

theorem rangeOver_ends {κ β : Type} [Ord κ] [TransOrd κ] (entries : ExtTreeMap κ β) :
    (rangeOver entries).Ends (·.isOrder) fun visited => visited.Perm entries.toList :=
  ⟨rfl, Program.perm_visited entries.length_toList⟩

/-- A range loop visits no key twice. -/
theorem key_not_mem_front {β : Type} {entries : ExtTreeMap String β} {visited front back : List (String × β)}
    {entry : String × β} (perm : visited.Perm entries.toList) (split : visited = front ++ entry :: back) :
    entry.1 ∉ front.map Prod.fst := by
  have nodup := (perm.map Prod.fst).nodup_iff.mpr (by
    rw [ExtTreeMap.map_fst_toList_eq_keys]
    exact ExtTreeMap.nodup_keys)
  rw [split, List.map_append, List.nodup_append] at nodup
  exact fun member => nodup.2.2 entry.1 member entry.1 (by simp) rfl

section Split

variable {separator : Char} {part : List Char}

theorem splitChars_of_notMem (free : separator ∉ part) : splitChars separator part = [part] := by
  induction part with
  | nil => rfl
  | cons char rest ih =>
    rw [List.mem_cons, not_or] at free
    rw [splitChars, if_neg (Ne.symm free.1), ih free.2]

theorem splitChars_append (free : separator ∉ part) (rest : List Char) :
    splitChars separator (part ++ separator :: rest) = part :: splitChars separator rest := by
  induction part with
  | nil => simp [splitChars]
  | cons char part ih =>
    rw [List.mem_cons, not_or] at free
    rw [List.cons_append, splitChars, if_neg (Ne.symm free.1), ih free.2]

/-- Parts that are joined are split again. -/
theorem splitChars_intercalate {parts : List (List Char)} (free : ∀ other ∈ part :: parts, separator ∉ other) :
    splitChars separator (List.intercalate [separator] (part :: parts)) = part :: parts := by
  induction parts generalizing part with
  | nil => simpa using splitChars_of_notMem (free part (by simp))
  | cons next parts ih =>
    rw [List.intercalate_cons_cons, List.append_assoc, List.singleton_append,
      splitChars_append (free part (by simp)), ih fun other member => free other (List.mem_cons_of_mem _ member)]

end Split

/-- The tags give the group `cover` in at most one way. -/
def Tags.coversOnce (tags : Tags) : Bool :=
  !(tags.getD ∅).contains "placement:cover" || !(tags.getD ∅).contains "placement:replica:cover"

def Tags.varies (tags : Tags) : Bool := (tags.getD ∅).contains "placement:vary"

namespace Demand

variable {demand : Demand} {hostIterateByTag : String → List Host}

/-- The demand of a shard whose tags are taken in the order of their keys. -/
def ofTags (hostIterateByTag : String → List Host) (tags : Tags) : Demand :=
  (tags.getD ∅).toList.foldl (fun demand (tagKey, tagValue) => demand.addTag hostIterateByTag tagKey tagValue) {}

section Table

variable {β : Type} {name other : String} {table : ExtTreeMap String β} {f g : Option β → Option β}

private theorem alter_id_eq : table.alter name id = table := by
  ext1 key
  rw [ExtTreeMap.getElem?_alter]
  split
  · next equal => rw [Std.compare_eq_iff_eq.mp equal, id]
  · rfl

private theorem alter_alter_self : (table.alter name f).alter name g = table.alter name (g ∘ f) := by
  ext1 key
  simp only [ExtTreeMap.getElem?_alter, compare_self, ↓reduceIte, Function.comp_apply]
  split <;> rfl

private theorem alter_alter_comm (distinct : name ≠ other) :
    (table.alter name f).alter other g = (table.alter other g).alter name f := by
  ext1 key
  simp only [ExtTreeMap.getElem?_alter, Std.compare_eq_iff_eq]
  grind

private theorem insert_eq_alter (f : Option β → β) :
    table.insert name (f table[name]?) = table.alter name fun stored => some (f stored) := by
  ext1 key
  simp only [ExtTreeMap.getElem?_insert, ExtTreeMap.getElem?_alter]

end Table

/-- Change the size and the filter of one group. -/
def alter (demand : Demand) (name : String) (size : Option ℤ → Option ℤ)
    (filter : Option (List String) → Option (List String)) : Demand :=
  { demand with
    desired := demand.desired.alter name size
    filters := demand.filters.alter name filter }

section Alter

variable {name other : String} {size again : Option ℤ → Option ℤ}
  {filter more : Option (List String) → Option (List String)}

theorem alter_comm (distinct : name ≠ other) :
    (demand.alter name size filter).alter other again more =
      (demand.alter other again more).alter name size filter := by
  simp only [alter, alter_alter_comm distinct]

theorem alter_alter :
    (demand.alter name size filter).alter name again more =
      demand.alter name (again ∘ size) (more ∘ filter) := by
  simp only [alter, alter_alter_self]

theorem alter_id : demand.alter name id id = demand := by
  simp only [alter, alter_id_eq]

end Alter

section Tags

theorem group_eq_alter (name value : String) :
    ∃ size filter, ∀ demand : Demand, demand.group name value = demand.alter name size filter := by
  unfold group
  cases split ';' value with
  | nil => exact ⟨id, id, fun _ => alter_id.symm⟩
  | cons first rest =>
    dsimp only
    cases atoi first with
    | none => exact ⟨id, id, fun _ => alter_id.symm⟩
    | some count =>
      refine ⟨fun _ => some count, fun _ => some rest, fun demand => ?_⟩
      simp only [alter, ← insert_eq_alter]

theorem add_eq_alter (counts : Counts) (name : String) (amount : ℤ) :
    counts.add name amount = counts.alter name fun stored => some (stored.getD 0 + amount) := by
  rw [Counts.add, ExtTreeMap.getD_eq_getD_getElem?, ← insert_eq_alter]

/-- Counting hosts adds to the size of the group, which stays without one if there are none. -/
theorem count_eq_alter (hosts : List Host) (covered : Host → Bool) :
    ∃ size, ∀ desired : Counts, hosts.foldl
      (fun desired host => if covered host then Counts.add desired "cover" 1 else desired) desired =
        desired.alter "cover" size := by
  induction hosts with
  | nil => exact ⟨id, fun _ => alter_id_eq.symm⟩
  | cons host hosts ih =>
    obtain ⟨size, same⟩ := ih
    cases counts : covered host with
    | false => exact ⟨size, fun desired => by simp [counts, same]⟩
    | true =>
      refine ⟨size ∘ fun stored => some (stored.getD 0 + 1), fun desired => ?_⟩
      simp only [List.foldl_cons, counts, ↓reduceIte]
      rw [same, add_eq_alter, alter_alter_self]

theorem cover_eq_alter (hostIterateByTag : String → List Host) (tag : String) :
    ∃ size filter, ∀ demand : Demand, demand.cover hostIterateByTag tag = demand.alter "cover" size filter := by
  obtain ⟨size, same⟩ := count_eq_alter (hostIterateByTag (parseTag tag).1) fun host =>
    (parseTag tag).2 = "" || (host.tags.bind (·[(parseTag tag).1]?)).getD "" = (parseTag tag).2
  refine ⟨size, fun filter => some (filter.getD [] ++ [tag]), fun demand => ?_⟩
  simp only [cover, alter, same, ← insert_eq_alter, ExtTreeMap.getD_eq_getD_getElem?]

theorem covers_eq_alter (hostIterateByTag : String → List Host) (tags : List String) :
    ∃ size filter, ∀ demand : Demand,
      tags.foldl (fun demand tag => demand.cover hostIterateByTag tag) demand =
        demand.alter "cover" size filter := by
  induction tags with
  | nil => exact ⟨id, id, fun _ => alter_id.symm⟩
  | cons tag tags ih =>
    obtain ⟨size, filter, rest⟩ := ih
    obtain ⟨first, added, covers⟩ := cover_eq_alter hostIterateByTag tag
    refine ⟨size ∘ first, filter ∘ added, fun demand => ?_⟩
    rw [List.foldl_cons, covers, rest, alter_alter]

theorem after?_eq_some_iff {start text rest : String} : after? start text = some rest ↔ text = start ++ rest := by
  rw [after?, Option.ite_none_right_eq_some, List.isPrefixOf_iff_prefix, Option.some_inj]
  constructor
  · rintro ⟨⟨tail, split⟩, rfl⟩
    rw [← split, List.drop_left, ← String.toList_inj, String.toList_append, String.toList_ofList, split]
  · rintro rfl
    rw [String.toList_append, List.drop_left, String.ofList_toList]
    exact ⟨List.prefix_append _ _, rfl⟩

/-- The tag with this key is about a group. -/
def Names (tagKey name : String) : Prop :=
  tagKey = "placement:member" ∧ name = "member" ∨
    tagKey = "placement:replica:" ++ name ∧ name ≠ "member" ∨ tagKey = "placement:cover" ∧ name = "cover"

/-- A tag changes nothing, or it names a tag to vary, or it is about one group. -/
theorem addTag_cases (hostIterateByTag : String → List Host) (tagKey tagValue : String) :
    (∀ demand : Demand, demand.addTag hostIterateByTag tagKey tagValue = demand) ∨
    (tagKey = "placement:vary" ∧ ∀ demand : Demand, demand.addTag hostIterateByTag tagKey tagValue =
      { demand with vary := demand.vary.insert tagValue true }) ∨
    ∃ name size filter, Names tagKey name ∧ ∀ demand : Demand,
      demand.addTag hostIterateByTag tagKey tagValue = demand.alter name size filter := by
  unfold addTag
  cases starts : after? "placement:" tagKey with
  | none => exact .inl fun _ => rfl
  | some rest =>
    rw [after?_eq_some_iff] at starts
    subst starts
    dsimp only
    split
    · next vary =>
      subst vary
      exact .inr (.inl ⟨rfl, fun _ => rfl⟩)
    · split
      · next member =>
        subst member
        obtain ⟨size, filter, same⟩ := group_eq_alter "member" tagValue
        exact .inr (.inr ⟨_, size, filter, .inl ⟨rfl, rfl⟩, same⟩)
      · cases replica : after? "replica:" rest with
        | some group =>
          rw [after?_eq_some_iff] at replica
          subst replica
          dsimp only
          split
          · exact .inl fun _ => rfl
          · next reserved =>
            obtain ⟨size, filter, same⟩ := group_eq_alter group tagValue
            refine .inr (.inr ⟨_, size, filter, .inr (.inl ⟨?_, (not_or.mp reserved).2⟩), same⟩)
            rw [← String.append_assoc]
            rfl
        | none =>
          dsimp only
          split
          · next cover =>
            subst cover
            obtain ⟨size, filter, same⟩ := covers_eq_alter hostIterateByTag (split ';' tagValue)
            exact .inr (.inr ⟨_, size, filter, .inr (.inr ⟨rfl, rfl⟩), same⟩)
          · exact .inl fun _ => rfl

/-- Only the group `cover` has two tags. -/
theorem Names.eq_or_cover {left right name : String} (first : Names left name) (second : Names right name) :
    left = right ∨ left = "placement:cover" ∧ right = "placement:replica:cover" ∨
      left = "placement:replica:cover" ∧ right = "placement:cover" := by
  obtain ⟨rfl, rfl⟩ | ⟨rfl, reserved⟩ | ⟨rfl, rfl⟩ := first
  · obtain ⟨rfl, -⟩ | ⟨-, reserved⟩ | ⟨-, other⟩ := second
    · exact .inl rfl
    · exact absurd rfl reserved
    · exact absurd other (by decide)
  · obtain ⟨-, other⟩ | ⟨rfl, -⟩ | ⟨rfl, rfl⟩ := second
    · exact absurd other reserved
    · exact .inl rfl
    · exact .inr (.inr ⟨rfl, rfl⟩)
  · obtain ⟨-, other⟩ | ⟨rfl, -⟩ | ⟨rfl, -⟩ := second
    · exact absurd other (by decide)
    · exact .inr (.inl ⟨rfl, rfl⟩)
    · exact .inl rfl

/-- Two tags that are not about the same group can be taken in either order. -/
theorem addTag_comm {left right leftValue rightValue : String} (distinct : left ≠ right)
    (once : ¬ (left = "placement:cover" ∧ right = "placement:replica:cover") ∧
      ¬ (left = "placement:replica:cover" ∧ right = "placement:cover")) (demand : Demand) :
    (demand.addTag hostIterateByTag left leftValue).addTag hostIterateByTag right rightValue =
      (demand.addTag hostIterateByTag right rightValue).addTag hostIterateByTag left leftValue := by
  obtain first | ⟨rfl, first⟩ | ⟨name, size, filter, names, first⟩ :=
    addTag_cases hostIterateByTag left leftValue
  · rw [first, first]
  · obtain second | ⟨rfl, second⟩ | ⟨name, size, filter, names, second⟩ :=
      addTag_cases hostIterateByTag right rightValue
    · rw [second, second]
    · exact absurd rfl distinct
    · rw [first, first, second, second]
      rfl
  · obtain second | ⟨rfl, second⟩ | ⟨other, again, more, others, second⟩ :=
      addTag_cases hostIterateByTag right rightValue
    · rw [second, second]
    · rw [first, first, second, second]
      rfl
    · rw [first, first, second, second]
      refine alter_comm ?_
      rintro rfl
      obtain same | both | both := names.eq_or_cover others
      · exact distinct same
      · exact once.1 both
      · exact once.2 both

end Tags

/-- The value of a group's tag starts with a number. -/
def isSized (value : String) : Bool := (atoi ((split ';' value).headD "")).isSome

end Demand

/-- A cover tag meets a replica group of the same name. -/
def Tags.mixesCover (tags : Tags) : Bool :=
  (tags.getD ∅).contains "placement:cover" && (tags.getD ∅)["placement:replica:cover"]?.any Demand.isSized

namespace Demand

section Order

variable {hostIterateByTag : String → List Host} {tags : Tags} {demand : Demand}

theorem group_of_not_isSized {name value : String} (unsized : isSized value = false) :
    demand.group name value = demand := by
  unfold group
  unfold isSized at unsized
  cases parts : split ';' value with
  | nil => rfl
  | cons size filter =>
    rw [parts, List.headD_cons, Option.isSome_eq_false_iff, Option.isNone_iff_eq_none] at unsized
    dsimp only
    rw [unsized]

theorem addTag_cover (value : String) : demand.addTag hostIterateByTag "placement:cover" value =
    (split ';' value).foldl (fun demand tag => demand.cover hostIterateByTag tag) demand := rfl

theorem addTag_replicaCover (value : String) :
    demand.addTag hostIterateByTag "placement:replica:cover" value = demand.group "cover" value := rfl

/-- The tags of the map can be taken in either order. -/
theorem addTag_swap (unmixed : tags.mixesCover = false) {left right : String × String}
    (first : (tags.getD ∅)[left.1]? = some left.2) (second : (tags.getD ∅)[right.1]? = some right.2)
    (demand : Demand) :
    (demand.addTag hostIterateByTag left.1 left.2).addTag hostIterateByTag right.1 right.2 =
      (demand.addTag hostIterateByTag right.1 right.2).addTag hostIterateByTag left.1 left.2 := by
  have unsized {cover group : String × String} (is : cover.1 = "placement:cover")
      (here : (tags.getD ∅)[cover.1]? = some cover.2) (names : group.1 = "placement:replica:cover")
      (there : (tags.getD ∅)[group.1]? = some group.2) (demand : Demand) :
      demand.addTag hostIterateByTag group.1 group.2 = demand := by
    rw [is] at here
    rw [names] at there
    have small : isSized group.2 = false := by
      simpa [Tags.mixesCover, ExtTreeMap.contains_eq_isSome_getElem?, here, there] using unmixed
    rw [names, addTag_replicaCover, group_of_not_isSized small]
  by_cases same : left.1 = right.1
  · have equal : left = right := Prod.ext same (Option.some.inj (first.symm.trans (same ▸ second)))
    rw [equal]
  by_cases forward : left.1 = "placement:cover" ∧ right.1 = "placement:replica:cover"
  · rw [unsized forward.1 first forward.2 second, unsized forward.1 first forward.2 second]
  by_cases backward : left.1 = "placement:replica:cover" ∧ right.1 = "placement:cover"
  · rw [unsized backward.2 second backward.1 first, unsized backward.2 second backward.1 first]
  · exact addTag_comm same ⟨forward, backward⟩ demand

/-- The demand of tags that are visited in an order. -/
def resolve (hostIterateByTag : String → List Host) (visited : List (String × String)) : Demand :=
  visited.foldl (fun demand (tagKey, tagValue) => demand.addTag hostIterateByTag tagKey tagValue) {}

/-- Every order of the tags asks for the same. -/
theorem resolve_of_perm (unmixed : tags.mixesCover = false) {first second : List (String × String)}
    (perm : first.Perm second) (listed : second.Perm (tags.getD ∅).toList) :
    resolve hostIterateByTag first = resolve hostIterateByTag second := by
  have stored {tag : String × String} (member : tag ∈ first) : (tags.getD ∅)[tag.1]? = some tag.2 :=
    ExtTreeMap.mem_toList_iff_getElem?_eq_some.mp ((perm.trans listed).mem_iff.mp member)
  exact perm.foldl_eq' (fun left member right other demand =>
    addTag_swap unmixed (stored member) (stored other) demand) _

theorem mixesCover_of_coversOnce (once : tags.coversOnce) : tags.mixesCover = false := by
  rw [Tags.coversOnce, Bool.or_eq_true, Bool.not_eq_true', Bool.not_eq_true'] at once
  obtain uncovered | unnamed := once
  · rw [Tags.mixesCover, uncovered, Bool.false_and]
  · rw [ExtTreeMap.contains_eq_isSome_getElem?, Option.isSome_eq_false_iff, Option.isNone_iff_eq_none] at unnamed
    rw [Tags.mixesCover, unnamed, Option.any_none, Bool.and_false]

theorem resolve_eq_ofTags (once : tags.coversOnce) {visited : List (String × String)}
    (listed : visited.Perm (tags.getD ∅).toList) : resolve hostIterateByTag visited = ofTags hostIterateByTag tags :=
  resolve_of_perm (mixesCover_of_coversOnce once) listed (.refl _)

end Order

section Vary

variable {hostIterateByTag : String → List Host}

/-- Only the tag `placement:vary` names a tag that varies. -/
theorem mem_vary_ofTags {tags : Tags} {tag : String} (varies : tag ∈ (ofTags hostIterateByTag tags).vary) :
    (tags.getD ∅)["placement:vary"]? = some tag := by
  have steps : ∀ demand : Demand, (tag ∈ demand.vary → (tags.getD ∅)["placement:vary"]? = some tag) →
      ∀ entry ∈ (tags.getD ∅).toList, tag ∈ (demand.addTag hostIterateByTag entry.1 entry.2).vary →
        (tags.getD ∅)["placement:vary"]? = some tag := by
    rintro demand ih ⟨tagKey, tagValue⟩ member varies
    obtain same | ⟨rfl, same⟩ | ⟨name, size, filter, -, same⟩ := addTag_cases hostIterateByTag tagKey tagValue
    · rw [same] at varies
      exact ih varies
    · rw [same, ExtTreeMap.mem_insert, Std.compare_eq_iff_eq] at varies
      obtain rfl | old := varies
      · exact ExtTreeMap.mem_toList_iff_getElem?_eq_some.mp member
      · exact ih old
    · rw [same] at varies
      exact ih varies
  exact List.foldlRecOn (motive := fun demand : Demand => tag ∈ demand.vary → _) _ _ (by simp) steps varies

theorem vary_ofTags {tags : Tags} (unvaried : tags.varies = false) :
    (ofTags hostIterateByTag tags).vary = ∅ := by
  rw [ExtTreeMap.eq_empty_iff_forall_not_mem]
  intro tag varies
  simp [Tags.varies, ExtTreeMap.contains_eq_isSome_getElem?, mem_vary_ofTags varies] at unvaried

/-- Only the tags of the hosts that the tag index returns matter. -/
theorem ofTags_congr {other : String → List Host} {tags : Tags}
    (same : ∀ key, (hostIterateByTag key).map Host.tags = (other key).map Host.tags) :
    ofTags hostIterateByTag tags = ofTags other tags := by
  have cover_eq (demand : Demand) (tag : String) : demand.cover hostIterateByTag tag = demand.cover other tag := by
    have counted (answer : String → List Host) : (answer (parseTag tag).1).foldl (fun desired host =>
        if (parseTag tag).2 = "" || (host.tags.bind (·[(parseTag tag).1]?)).getD "" = (parseTag tag).2 then
          Counts.add desired "cover" 1 else desired) demand.desired =
        ((answer (parseTag tag).1).map Host.tags).foldl (fun desired tags =>
          if (parseTag tag).2 = "" || (tags.bind (·[(parseTag tag).1]?)).getD "" = (parseTag tag).2 then
            Counts.add desired "cover" 1 else desired) demand.desired := by
      rw [List.foldl_map]
    unfold cover
    dsimp only
    rw [counted, counted, same]
  have covers_eq (demand : Demand) (tags : List String) :
      tags.foldl (fun demand tag => demand.cover hostIterateByTag tag) demand =
        tags.foldl (fun demand tag => demand.cover other tag) demand := by
    simp only [cover_eq]
  have addTag_eq (demand : Demand) (tagKey tagValue : String) :
      demand.addTag hostIterateByTag tagKey tagValue = demand.addTag other tagKey tagValue := by
    simp only [addTag, covers_eq]
  simp only [ofTags, addTag_eq]

end Vary

end Demand

theorem resolveDesired_resolves {snapshot : Snapshot} {shard : Shard} :
    (resolveDesired snapshot shard).Ends (·.isOrder) fun demand => ∃ visited,
      visited.Perm (shard.tags.getD ∅).toList ∧ demand = .resolve snapshot.hostIterateByTag visited :=
  (rangeOver_ends _).bind fun visited perm => ⟨visited, perm, rfl⟩

end Zongzi
