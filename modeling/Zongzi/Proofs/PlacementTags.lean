import Zongzi.Proofs.ReconcilePass

/-! # Placement tags in any order

A shard's tags are visited in any order. All orders ask for the same unless a cover tag meets a replica group that is
called `cover` and has a size: the group replaces what the cover tag has counted so far, and the cover tag adds to what
the group has written.

A cover tag asks for one replica on every host that one of its tags finds. Its filter selects the hosts that have all of
them, with an empty value where a tag has none.
-/

namespace Zongzi

open Std Machine

namespace Demand

section Order

variable {hostIterateByTag : String → List Host} {tags : Tags} {demand : Demand}

theorem filters_covers (tags : List String) (demand : Demand) :
    (tags.foldl (fun demand tag => demand.cover hostIterateByTag tag) demand).filters.getD "cover" [] =
      demand.filters.getD "cover" [] ++ tags := by
  induction tags generalizing demand with
  | nil => simp
  | cons tag tags ih =>
    rw [List.foldl_cons, ih]
    simp [cover]

theorem split_ne_nil (separator : Char) (text : String) : split separator text ≠ [] := by
  have parts : ∀ chars : List Char, splitChars separator chars ≠ [] := by
    intro chars
    cases chars with
    | nil => simp [splitChars]
    | cons char rest =>
      unfold splitChars
      split
      · simp
      · split <;> simp
  simp [split, parts]

theorem filters_group {value : String} (sized : isSized value) :
    (demand.group "cover" value).filters.getD "cover" [] = (split ';' value).tail := by
  unfold group
  unfold isSized at sized
  cases parts : split ';' value with
  | nil => exact absurd parts (split_ne_nil ';' value)
  | cons size filter =>
    rw [parts, List.headD_cons] at sized
    obtain ⟨count, parsed⟩ := Option.isSome_iff_exists.mp sized
    dsimp only
    rw [parsed]
    simp

/-- All orders of the tags ask for the same exactly if no cover tag meets a group of the same name. -/
theorem resolve_order_iff (hostIterateByTag : String → List Host) (tags : Tags) :
    (∀ first second, first.Perm (tags.getD ∅).toList → second.Perm (tags.getD ∅).toList →
      resolve hostIterateByTag first = resolve hostIterateByTag second) ↔ tags.mixesCover = false := by
  constructor
  · intro same
    by_contra mixes
    rw [Bool.not_eq_false, Tags.mixesCover, Bool.and_eq_true, ExtTreeMap.contains_eq_isSome_getElem?] at mixes
    obtain ⟨covers, groups⟩ := mixes
    obtain ⟨cover, here⟩ := Option.isSome_iff_exists.mp covers
    obtain ⟨group, there, sized⟩ := (Option.any_eq_true _ _).mp groups
    have first := ExtTreeMap.mem_toList_iff_getElem?_eq_some.mpr here
    have second := ExtTreeMap.mem_toList_iff_getElem?_eq_some.mpr there
    have perm := (List.perm_cons_erase first).trans
      ((List.perm_cons_erase ((List.mem_erase_of_ne (by simp)).mpr second)).cons _)
    generalize ((tags.getD ∅).toList.erase _).erase _ = rest at perm
    have before := same (rest ++ [("placement:cover", cover), ("placement:replica:cover", group)])
      (rest ++ [("placement:replica:cover", group), ("placement:cover", cover)])
      (List.perm_append_comm.trans perm.symm)
      ((List.perm_append_comm.trans (.swap ..)).trans perm.symm)
    have filters := congrArg (fun demand : Demand => demand.filters.getD "cover" []) before
    simp only [resolve, List.foldl_append, List.foldl_cons, List.foldl_nil, addTag_cover, addTag_replicaCover,
      filters_group sized, filters_covers] at filters
    exact split_ne_nil ';' cover (List.append_right_eq_self.mp filters.symm)
  · exact fun unmixed first second left right => resolve_of_perm unmixed (left.trans right.symm) right

/-- A cover tag and a group of the same name. -/
def mixedTags : Tags := some {("placement:cover", "zone"), ("placement:replica:cover", "1;rack")}

/-- The filter of the group depends on which of the two tags is visited first. -/
theorem mixed_order_matters :
    ∃ first second, first.Perm (mixedTags.getD ∅).toList ∧ second.Perm (mixedTags.getD ∅).toList ∧
      resolve (fun _ => []) first ≠ resolve (fun _ => []) second := by
  refine ⟨_, _, .refl _, List.reverse_perm _, fun same => ?_⟩
  have filters := congrArg (fun demand : Demand => demand.filters.getD "cover" []) same
  revert filters
  decide +kernel

end Order

section Cover

variable {hostIterateByTag : String → List Host} {tags : Tags} {demand : Demand}

/-- The tag finds the host: the host has its key, with the same value if the tag has one. -/
def covers (tag : String) (host : Host) : Bool :=
  (host.tags.bind (·[(parseTag tag).1]?)).any fun value => (parseTag tag).2 = "" || value = (parseTag tag).2

/-- The hosts that a lookup of the tag key visits. An empty key is not indexed. -/
def tagged (hosts : List Host) (key : String) : List Host :=
  hosts.filter fun host => key ≠ "" && (host.tags.bind (·[key]?)).isSome

theorem desired_cover (tag : String) (demand : Demand) :
    (demand.cover hostIterateByTag tag).desired.getD "cover" 0 = demand.desired.getD "cover" 0 +
      ((hostIterateByTag (parseTag tag).1).countP fun host =>
        (parseTag tag).2 = "" || (host.tags.bind (·[(parseTag tag).1]?)).getD "" = (parseTag tag).2 : ℕ) := by
  simp only [cover]
  generalize hostIterateByTag (parseTag tag).1 = hosts
  generalize demand.desired = desired
  induction hosts generalizing desired with
  | nil => simp
  | cons host hosts ih =>
    rw [List.foldl_cons, ih, List.countP_cons]
    split
    · rw [getD_add, if_pos rfl]
      push_cast
      omega
    · simp

theorem parseTag_fst_ne_empty {tag : String} (named : tag ≠ "") : (parseTag tag).1 ≠ "" := by
  unfold parseTag splitTag
  split
  · exact named
  · next late =>
    split
    · intro empty
      cases chars : tag.toList with
      | nil => exact late (by simp [chars])
      | cons char rest =>
        have other : char ≠ '=' := by
          rintro rfl
          exact late (by simp [chars])
        rw [chars, List.takeWhile_cons_of_pos (by simpa using other)] at empty
        simpa using congrArg String.toList empty
    · exact named

/-- A host is counted for a tag that finds it. -/
theorem countP_tagged (hosts : List Host) (tag : String) :
    ((tagged hosts (parseTag tag).1).countP fun host =>
      (parseTag tag).2 = "" || (host.tags.bind (·[(parseTag tag).1]?)).getD "" = (parseTag tag).2) =
      hosts.countP fun host => tag ≠ "" && covers tag host := by
  rw [tagged, List.countP_filter]
  refine List.countP_congr fun host _ => ?_
  have named : (parseTag tag).1 ≠ "" ↔ tag ≠ "" := by
    refine ⟨?_, parseTag_fst_ne_empty⟩
    rintro key rfl
    exact key (by decide)
  cases found : host.tags.bind (·[(parseTag tag).1]?) <;> simp [covers, found, named, and_comm]

theorem desired_covers (hosts : List Host)
    (indexed : ∀ key, (hostIterateByTag key).Perm (tagged hosts key)) (tags : List String) (demand : Demand) :
    (tags.foldl (fun demand tag => demand.cover hostIterateByTag tag) demand).desired.getD "cover" 0 =
      demand.desired.getD "cover" 0 +
        ((tags.map fun tag => hosts.countP fun host => tag ≠ "" && covers tag host).sum : ℕ) := by
  induction tags generalizing demand with
  | nil => simp
  | cons tag tags ih =>
    rw [List.foldl_cons, ih, desired_cover, (indexed _).countP_eq, countP_tagged]
    simp
    omega

theorem addTag_keeps_cover {tag : String × String} (other : tag.1 ≠ "placement:cover")
    (unsized : tag.1 = "placement:replica:cover" → isSized tag.2 = false) (demand : Demand) :
    (demand.addTag hostIterateByTag tag.1 tag.2).desired["cover"]? = demand.desired["cover"]? ∧
      (demand.addTag hostIterateByTag tag.1 tag.2).filters["cover"]? = demand.filters["cover"]? := by
  obtain ⟨tagKey, tagValue⟩ := tag
  by_cases group : tagKey = "placement:replica:cover"
  · subst group
    rw [addTag_replicaCover, group_of_not_isSized (unsized rfl)]
    exact ⟨rfl, rfl⟩
  obtain same | ⟨rfl, same⟩ | ⟨name, size, filter, names, same⟩ := addTag_cases hostIterateByTag tagKey tagValue
  · rw [same]
    exact ⟨rfl, rfl⟩
  · rw [same]
    exact ⟨rfl, rfl⟩
  · have distinct : name ≠ "cover" := by
      rintro rfl
      obtain ⟨-, member⟩ | ⟨rfl, -⟩ | ⟨rfl, -⟩ := names
      · exact absurd member (by decide)
      · exact group rfl
      · exact other rfl
    rw [same]
    simp [alter, ExtTreeMap.getElem?_alter, distinct]

/-- Other tags leave the group of a cover tag. -/
theorem resolve_cover (unmixed : tags.mixesCover = false) {value : String}
    (covers : (tags.getD ∅)["placement:cover"]? = some value) {visited : List (String × String)}
    (listed : visited.Perm (tags.getD ∅).toList) :
    (resolve hostIterateByTag visited).desired.getD "cover" 0 = ((split ';' value).foldl
      (fun demand tag => demand.cover hostIterateByTag tag) ({} : Demand)).desired.getD "cover" 0 ∧
    (resolve hostIterateByTag visited).filters.getD "cover" [] = split ';' value := by
  have first := ExtTreeMap.mem_toList_iff_getElem?_eq_some.mpr covers
  have perm := List.perm_cons_erase first
  rw [resolve_of_perm unmixed (listed.trans perm) perm.symm, resolve, List.foldl_cons]
  dsimp only
  rw [addTag_cover]
  generalize start : (split ';' value).foldl (fun demand tag => demand.cover hostIterateByTag tag) ({} : Demand) = begun
  have filter : begun.filters.getD "cover" [] = split ';' value := by
    rw [← start, filters_covers]
    simp
  have kept := List.foldlRecOn (motive := fun demand : Demand =>
      demand.desired["cover"]? = begun.desired["cover"]? ∧ demand.filters["cover"]? = begun.filters["cover"]?)
    ((tags.getD ∅).toList.erase ("placement:cover", value))
    (fun demand (tag : String × String) => demand.addTag hostIterateByTag tag.1 tag.2) ⟨rfl, rfl⟩ ?_
  · simp only [ExtTreeMap.getD_eq_getD_getElem?] at filter ⊢
    rw [kept.1, kept.2]
    exact ⟨rfl, filter⟩
  · intro demand same tag member
    have stored := ExtTreeMap.mem_toList_iff_getElem?_eq_some.mp (List.mem_of_mem_erase member)
    have distinct : tag.1 ≠ "placement:cover" := by
      intro is
      rw [is, covers] at stored
      have equal : tag = ("placement:cover", value) := Prod.ext is (Option.some.inj stored).symm
      have nodup : (tags.getD ∅).toList.Nodup := by
        refine ExtTreeMap.distinct_keys_toList.imp fun different same => different ?_
        rw [same, compare_self]
      exact (nodup.mem_erase_iff.mp member).1 equal
    have unsized (is : tag.1 = "placement:replica:cover") : isSized tag.2 = false := by
      rw [is] at stored
      simpa [Tags.mixesCover, ExtTreeMap.contains_eq_isSome_getElem?, covers, stored] using unmixed
    obtain ⟨desired, filters⟩ := addTag_keeps_cover distinct unsized demand
    exact ⟨desired.trans same.1, filters.trans same.2⟩

theorem covers_of_matchTagFilter {named : List String} {tag : String} (member : tag ∈ named) (nonempty : tag ≠ "")
    {host : Host} (selected : matchTagFilter host.tags named) : covers tag host := by
  have has := List.all_eq_true.mp selected tag member
  simp only [Bool.or_eq_true, decide_eq_true_eq, nonempty, false_or] at has
  simp [covers, has]

theorem matchTagFilter_filter (tags : Tags) (filter : List String) :
    matchTagFilter tags (filter.filter (· ≠ "")) = matchTagFilter tags filter := by
  rw [matchTagFilter, matchTagFilter, List.all_filter]
  refine List.all_congr rfl fun tag => ?_
  by_cases empty : tag = "" <;> simp [empty]

theorem sum_named (hosts : List Host) (tags : List String) :
    (tags.map fun tag => hosts.countP fun host => tag ≠ "" && covers tag host).sum =
      ((tags.filter (· ≠ "")).map fun tag => hosts.countP (covers tag)).sum := by
  induction tags with
  | nil => rfl
  | cons tag tags ih =>
    by_cases empty : tag = ""
    · simp only [List.map_cons, List.sum_cons, ih]
      simp [empty]
    · simp only [List.map_cons, List.sum_cons, ih]
      simp [empty]

private theorem countP_eq_iff {α : Type} {few many : α → Bool} {list : List α}
    (among : ∀ item ∈ list, few item → many item) :
    list.countP many = list.countP few ↔ ∀ item ∈ list, many item → few item := by
  induction list with
  | nil => simp
  | cons item list ih =>
    obtain ⟨here, rest⟩ := List.forall_mem_cons.mp among
    have le := List.countP_mono_left rest
    rw [List.countP_cons, List.countP_cons, List.forall_mem_cons, ← ih rest]
    cases isFew : few item with
    | true => simp [here isFew]
    | false => cases many item <;> simp; omega

/-- The tags of a cover group find the hosts that have all of them, each once: there is one tag, and the hosts that it
finds have it with its value; or there is none, and no hosts; or there are several, which find no host. -/
def FindsOnce (hosts : List Host) (tags : List String) : Prop :=
  match tags.filter (· ≠ "") with
  | [] => hosts = []
  | [tag] => ∀ host ∈ hosts, covers tag host → matchTagFilter host.tags [tag]
  | named => ∀ tag ∈ named, ∀ host ∈ hosts, ¬ covers tag host

theorem sum_eq_countP_iff (hosts : List Host) (tags : List String) :
    (tags.map fun tag => hosts.countP fun host => tag ≠ "" && covers tag host).sum =
      hosts.countP (fun host => matchTagFilter host.tags tags) ↔ FindsOnce hosts tags := by
  have nonempty : ∀ tag ∈ tags.filter (· ≠ ""), tag ≠ "" := fun tag member => by
    simpa using (List.mem_filter.mp member).2
  simp only [sum_named, ← matchTagFilter_filter _ tags, FindsOnce]
  generalize tags.filter (· ≠ "") = named at nonempty
  match named with
  | [] => simp [matchTagFilter, eq_comm]
  | [tag] =>
    rw [List.map_singleton, List.sum_singleton]
    exact countP_eq_iff fun host _ => covers_of_matchTagFilter List.mem_cons_self (nonempty tag List.mem_cons_self)
  | first :: second :: rest =>
    have less (tag : String) (member : tag ∈ first :: second :: rest) :
        hosts.countP (fun host => matchTagFilter host.tags (first :: second :: rest)) ≤ hosts.countP (covers tag) :=
      List.countP_mono_left fun host _ => covers_of_matchTagFilter member (nonempty tag member)
    have one := less first (by simp)
    have two := less second (by simp)
    have none_iff : ((first :: second :: rest).map fun tag => hosts.countP (covers tag)).sum = 0 ↔
        ∀ tag ∈ first :: second :: rest, ∀ host ∈ hosts, ¬ covers tag host := by
      simp only [List.sum_eq_zero_iff, List.forall_mem_map, List.countP_eq_zero]
    dsimp only
    rw [← none_iff]
    simp only [List.map_cons, List.sum_cons]
    omega

/-- The size that a cover tag asks for is the number of hosts that its filter selects exactly if its tags find these
hosts, each once. -/
theorem cover_counts_iff {hosts : List Host} (indexed : ∀ key, (hostIterateByTag key).Perm (tagged hosts key))
    (unmixed : tags.mixesCover = false) {value : String} (given : (tags.getD ∅)["placement:cover"]? = some value)
    {visited : List (String × String)} (listed : visited.Perm (tags.getD ∅).toList) :
    (resolve hostIterateByTag visited).desired.getD "cover" 0 = (hosts.countP fun host =>
      matchTagFilter host.tags ((resolve hostIterateByTag visited).filters.getD "cover" []) : ℕ) ↔
    FindsOnce hosts (split ';' value) := by
  obtain ⟨desired, filters⟩ := resolve_cover unmixed given listed
  have none_yet : ({} : Demand).desired.getD "cover" 0 = 0 := by simp
  rw [desired, filters, desired_covers hosts indexed, ← sum_eq_countP_iff, none_yet, zero_add, Nat.cast_inj]

/-- Two hosts in one zone, one of which also has a rack. -/
def zoneHosts : List Host :=
  [{ tags := some {("zone", "a")} }, { tags := some {("zone", "a"), ("rack", "b")} }]

theorem cover_counts_one_tag :
    (resolve (tagged zoneHosts) [("placement:cover", "zone=a")]).desired.getD "cover" 0 = (zoneHosts.countP fun host =>
      matchTagFilter host.tags
        ((resolve (tagged zoneHosts) [("placement:cover", "zone=a")]).filters.getD "cover" []) : ℕ) := by
  have given : ((some {("placement:cover", "zone=a")} : Tags).getD ∅)["placement:cover"]? = some "zone=a" := by decide
  have once : FindsOnce zoneHosts (split ';' "zone=a") := by
    rw [show split ';' "zone=a" = ["zone=a"] by decide]
    change ∀ host ∈ zoneHosts, covers "zone=a" host → matchTagFilter host.tags ["zone=a"]
    decide +kernel
  exact (cover_counts_iff (fun _ => .refl _) (by decide) given (.refl _)).mpr once

/-- With two tags one host is found twice and the other one is not selected. -/
theorem cover_counts_too_many :
    (resolve (tagged zoneHosts) [("placement:cover", "zone=a;rack=b")]).desired.getD "cover" 0 = 3 ∧
      zoneHosts.countP (fun host => matchTagFilter host.tags
        ((resolve (tagged zoneHosts) [("placement:cover", "zone=a;rack=b")]).filters.getD "cover" [])) = 1 := by
  decide +kernel

end Cover

section OneTag

variable {β : Type} (part : Demand → β) {hostIterateByTag : String → List Host} {tags : Tags}
  {tagKey value : String} {visited : List (String × String)} {result : β}

private theorem foldl_keeps (others : ∀ (demand : Demand) (name text : String), name ∈ visited.map Prod.fst →
      name ≠ tagKey → part (demand.addTag hostIterateByTag name text) = part demand) (demand : Demand)
    (absent : tagKey ∉ visited.map Prod.fst) :
    part (visited.foldl (fun demand (name, text) => demand.addTag hostIterateByTag name text) demand) =
      part demand := by
  induction visited generalizing demand with
  | nil => rfl
  | cons tag visited ih =>
    simp only [List.map_cons, List.mem_cons, not_or] at absent
    rw [List.foldl_cons, ih (fun demand name text member => others demand name text (List.mem_cons_of_mem _ member)) _
      absent.2]
    exact others demand tag.1 tag.2 List.mem_cons_self (Ne.symm absent.1)

/-- A part of the demand that one tag writes is what this tag writes, wherever it is visited. -/
theorem resolve_of_tag (others : ∀ (demand : Demand) (name text : String), name ∈ tags.getD ∅ → name ≠ tagKey →
      part (demand.addTag hostIterateByTag name text) = part demand)
    (writes : ∀ demand : Demand, part demand = part {} → part (demand.addTag hostIterateByTag tagKey value) = result)
    (stored : (tags.getD ∅)[tagKey]? = some value) (listed : visited.Perm (tags.getD ∅).toList) :
    part (resolve hostIterateByTag visited) = result := by
  have member : (tagKey, value) ∈ visited :=
    listed.mem_iff.mpr (ExtTreeMap.mem_toList_iff_getElem?_eq_some.mpr stored)
  have keys (name : String) (visits : name ∈ visited.map Prod.fst) : name ∈ tags.getD ∅ := by
    rw [(listed.map Prod.fst).mem_iff, ExtTreeMap.map_fst_toList_eq_keys] at visits
    exact ExtTreeMap.mem_keys.mp visits
  obtain ⟨front, back, rfl⟩ := List.append_of_mem member
  have nodup : ((front ++ (tagKey, value) :: back).map Prod.fst).Nodup := by
    rw [(listed.map Prod.fst).nodup_iff, ExtTreeMap.map_fst_toList_eq_keys]
    exact ExtTreeMap.nodup_keys
  rw [List.map_append, List.map_cons, List.nodup_append, List.nodup_cons] at nodup
  obtain ⟨-, ⟨later, -⟩, apart⟩ := nodup
  have earlier : tagKey ∉ front.map Prod.fst := fun here => apart tagKey here tagKey (by simp) rfl
  have within (piece : List (String × String)) (among : piece ⊆ front ++ (tagKey, value) :: back) (name : String)
      (visits : name ∈ piece.map Prod.fst) : name ∈ tags.getD ∅ :=
    keys name (List.map_subset _ among visits)
  rw [resolve, List.foldl_append, List.foldl_cons, foldl_keeps part (fun demand name text visits =>
    others demand name text (within back (by simp) name visits)) _ later]
  exact writes _ (foldl_keeps part (fun demand name text visits =>
    others demand name text (within front (by simp) name visits)) _ earlier)

theorem resolve_of_not_tag (others : ∀ (demand : Demand) (name text : String), name ∈ tags.getD ∅ → name ≠ tagKey →
      part (demand.addTag hostIterateByTag name text) = part demand)
    (absent : tagKey ∉ tags.getD ∅) (listed : visited.Perm (tags.getD ∅).toList) :
    part (resolve hostIterateByTag visited) = part {} := by
  have keys (name : String) (visits : name ∈ visited.map Prod.fst) : name ∈ tags.getD ∅ := by
    rw [(listed.map Prod.fst).mem_iff, ExtTreeMap.map_fst_toList_eq_keys] at visits
    exact ExtTreeMap.mem_keys.mp visits
  exact foldl_keeps part (fun demand name text visits => others demand name text (keys name visits)) _
    fun member => absent (keys tagKey member)

private theorem addTag_keeps_vary (demand : Demand) (name text : String) (_ : name ∈ tags.getD ∅)
    (other : name ≠ "placement:vary") : (demand.addTag hostIterateByTag name text).vary = demand.vary := by
  obtain same | ⟨rfl, -⟩ | ⟨_, _, _, -, same⟩ := addTag_cases hostIterateByTag name text
  · rw [same]
  · exact absurd rfl other
  · rw [same]
    rfl

theorem vary_resolve (varies : (tags.getD ∅)["placement:vary"]? = some value)
    (listed : visited.Perm (tags.getD ∅).toList) :
    (resolve hostIterateByTag visited).vary = (∅ : ExtTreeMap String Bool).insert value true := by
  refine resolve_of_tag vary addTag_keeps_vary (fun demand none_yet => ?_) varies listed
  exact congrArg (·.insert value true) none_yet

theorem unvaried_resolve (unvaried : tags.varies = false) (listed : visited.Perm (tags.getD ∅).toList) :
    (resolve hostIterateByTag visited).vary = ∅ := by
  refine resolve_of_not_tag vary addTag_keeps_vary ?_ listed
  rwa [ExtTreeMap.mem_iff_contains, Bool.not_eq_true]

/-- A tag that gives the size of a group writes its size and its filter. -/
theorem group_eq (demand : Demand) {group : String} {size : ℤ} (sized : atoi ((split ';' value).headD "") = some size) :
    demand.group group value = { demand with
      desired := demand.desired.insert group size
      filters := demand.filters.insert group (split ';' value).tail } := by
  unfold Demand.group
  cases parts : split ';' value with
  | nil => exact absurd parts (split_ne_nil _ _)
  | cons first rest =>
    rw [parts, List.headD_cons] at sized
    simp [sized]

/-- A group that one tag names has the size and the filter of this tag. -/
theorem group_resolve {group : String} {size : ℤ}
    (writes : ∀ demand : Demand, demand.addTag hostIterateByTag tagKey value = demand.group group value)
    (only : ∀ name ∈ tags.getD ∅, Names name group → name = tagKey)
    (sized : atoi ((split ';' value).headD "") = some size) (given : (tags.getD ∅)[tagKey]? = some value)
    (listed : visited.Perm (tags.getD ∅).toList) :
    (resolve hostIterateByTag visited).desired[group]? = some size ∧
      (resolve hostIterateByTag visited).filters.getD group [] = (split ';' value).tail := by
  refine Prod.mk_inj.mp (resolve_of_tag (fun demand => (demand.desired[group]?, demand.filters.getD group []))
    (fun demand name text present other => ?_) (fun demand _ => ?_) given listed)
  · obtain same | ⟨rfl, same⟩ | ⟨another, grow, filter, names, same⟩ := addTag_cases hostIterateByTag name text
    · rw [same]
    · rw [same]
    · have distinct : another ≠ group := by
        rintro rfl
        exact other (only name present names)
      rw [same]
      simp [alter, ExtTreeMap.getElem?_alter, ExtTreeMap.getD_alter, distinct]
  · rw [writes, group_eq demand sized]
    simp

/-- Only its own tag is about the member group. -/
theorem member_resolve {size : ℤ} (sized : atoi ((split ';' value).headD "") = some size)
    (given : (tags.getD ∅)["placement:member"]? = some value) (listed : visited.Perm (tags.getD ∅).toList) :
    (resolve hostIterateByTag visited).desired["member"]? = some size ∧
      (resolve hostIterateByTag visited).filters.getD "member" [] = (split ';' value).tail := by
  refine group_resolve (fun demand => rfl) (fun name _ names => ?_) sized given listed
  obtain ⟨is, -⟩ | ⟨-, reserved⟩ | ⟨-, cover⟩ := names
  · exact is
  · exact absurd rfl reserved
  · exact absurd cover (by decide)

end OneTag

end Demand

end Zongzi
