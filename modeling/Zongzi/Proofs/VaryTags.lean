import Zongzi.Proofs.AddingReplicas

/-! # Replicas that vary by a tag

A shard has at most one tag to vary by. The controller counts the replicas of a group by their values of it,
and the free hosts too. It goes on only if every value that has a replica also has a free host, and as it
compares the number of tag keys with the number of values, only if there is at most one such value.
-/

namespace Zongzi

open Std Machine

section Keys

variable {key value other : String}

/-- The text is the key of a tag: a tag that is written with it parses to it. -/
def isTagKey (key : String) : Bool := key ≠ "" && !key.toList.contains '='

/-- A tag as it is written. -/
def writeTag (key value : String) : String := key ++ "=" ++ value

theorem toList_writeTag : (writeTag key value).toList = key.toList ++ '=' :: value.toList := by
  simp [writeTag]

theorem parseTag_writeTag (named : isTagKey key) : parseTag (writeTag key value) = (key, value) := by
  simp only [isTagKey, Bool.and_eq_true, decide_eq_true_eq, Bool.not_eq_true', List.contains_eq_mem,
    decide_eq_false_iff_not] at named
  have before : ∀ char ∈ key.toList, char ≠ '=' := fun char member same => named.2 (same ▸ member)
  have first : (writeTag key value).toList.idxOf '=' = key.toList.length := by
    rw [toList_writeTag, List.idxOf_append, if_neg named.2]
    simp
  have some_key : key.toList ≠ [] := fun empty => named.1 (by rw [← String.toList_inj, empty]; rfl)
  have taken : (writeTag key value).toList.takeWhile (· ≠ '=') = key.toList := by
    rw [toList_writeTag, List.takeWhile_append_of_pos (by simpa using before)]
    simp
  have dropped : (writeTag key value).toList.dropWhile (· ≠ '=') = '=' :: value.toList := by
    rw [toList_writeTag, List.dropWhile_append_of_pos (by simpa using before)]
    simp
  have long : ¬ key.toList.length < 1 := by
    have := List.length_pos_iff.mpr some_key
    omega
  rw [parseTag, first, if_neg long, splitTag, if_pos (by simp [toList_writeTag]), taken, dropped]
  simp

theorem writeTag_inj (same : writeTag key value = writeTag key other) : value = other := by
  have lists := congrArg String.toList same
  rw [toList_writeTag, toList_writeTag] at lists
  exact String.toList_inj.mp (by simpa using lists)

theorem writeTag_ne_key : writeTag key value ≠ key := by
  intro same
  have lengths := congrArg (fun text => text.toList.length) same
  simp [toList_writeTag] at lengths

end Keys

/-- The value that a host has for a tag. -/
def Host.value (host : Host) (key : String) : Option String := host.tags.bind (·[key]?)

section Tally

variable {state : State} {demand : Demand} {tally : Tally} {replicas : List Replica} {key : String}

/-- Replicas that count for a group and have the tag. -/
def heldBy (state : State) (demand : Demand) (key group tag : String) (replica : Replica) : Bool :=
  demand.selects group (state.hostOrZero replica.hostID) &&
    ((state.hostOrZero replica.hostID).value key).map (writeTag key) = some tag

/-- A count that is stored only if it is not zero. -/
def positive (count : ℕ) : Option ℤ := if count = 0 then none else some count

/-- The replicas of each group are counted by their values. -/
structure Tally.Spread (state : State) (demand : Demand) (key : String) (replicas : List Replica) (tally : Tally) :
    Prop where
  counted : ∀ group ∈ demand.desired, ∀ tag, (tally.varyCount.getD group ∅)[tag]? =
    positive (replicas.countP (heldBy state demand key group tag))
  rest : ∀ group ∉ demand.desired, tally.varyCount.getD group ∅ = ∅

/-- One replica adds to the count of its own value. -/
def Counts.bump (counts : Counts) (tag : Option String) : Counts :=
  tag.elim counts fun tag => counts.add tag 1

theorem getElem?_bump {counts : Counts} {tag : Option String} {name : String} {count : ℕ}
    (counted : counts[name]? = positive count) :
    (counts.bump tag)[name]? = positive (count + if tag = some name then 1 else 0) := by
  cases tag with
  | none => simpa [Counts.bump] using counted
  | some tag =>
    simp only [Counts.bump, Option.elim, Counts.add, ExtTreeMap.getElem?_insert, Std.compare_eq_iff_eq,
      ExtTreeMap.getD_eq_getD_getElem?]
    by_cases same : tag = name
    · subst same
      rw [counted]
      simp only [↓reduceIte, positive]
      split <;> simp_all
    · simp [same, counted]

theorem tallyReplica_varyCount (vary : demand.vary.toList = [(key, true)]) (tally : Tally) (replica : Replica) :
    (tallyReplica state demand tally replica).Ends (·.isOrder) fun next => ∀ group,
      next.varyCount.getD group ∅ = (tally.varyCount.getD group ∅).bump
        (if group ∈ demand.desired then if demand.selects group (state.hostOrZero replica.hostID) then
          ((state.hostOrZero replica.hostID).value key).map (writeTag key) else none else none) := by
  unfold tallyReplica
  generalize state.hostOrZero replica.hostID = host
  let tag (group : String) : Option String :=
    if demand.selects group host then (host.value key).map (writeTag key) else none
  -- After some groups: theirs are bumped and the others are as they were.
  refine .bind (rangeOver_ends _) fun groups perm => .bind (.forIn
    (fun front (_, varyCount, _) => ∀ group, varyCount.getD group ∅ =
      (tally.varyCount.getD group ∅).bump (if group ∈ front.map Prod.fst then tag group else none))
    (fun (_, varyCount, _) => ∀ group, varyCount.getD group ∅ =
      (tally.varyCount.getD group ∅).bump (if group ∈ groups.map Prod.fst then tag group else none))
    (by simp [Counts.bump]) ?_ fun _ done => done) ?_
  · rintro front ⟨group, size⟩ back ⟨found, varyCount, names⟩ split bumped
    have fresh : group ∉ front.map Prod.fst := key_not_mem_front perm split
    have kept (next : ExtTreeMap String Counts) (unchanged : ∀ name ≠ group, next.getD name ∅ = varyCount.getD name ∅)
        (here : next.getD group ∅ = (varyCount.getD group ∅).bump (tag group)) (name : String) :
        next.getD name ∅ = (tally.varyCount.getD name ∅).bump
          (if name ∈ (front ++ [(group, size)]).map Prod.fst then tag name else none) := by
      by_cases same : name = group
      · subst same
        rw [here, bumped, if_neg fresh, if_pos (by simp)]
        rfl
      · rw [unchanged name same, bumped]
        simp only [List.map_append, List.mem_append, List.map_cons, List.map_nil, List.mem_singleton, same, or_false]
    dsimp only
    split
    · next selected =>
      refine .bind (rangeOver_ends _) fun tags varied => ?_
      rw [vary, List.perm_singleton] at varied
      subst varied
      have selected : demand.selects group host = true := selected
      have same : (varyCount.insert group (varyCount.getD group ∅)).getD group ∅ = varyCount.getD group ∅ :=
        ExtTreeMap.getD_insert_self
      have other {counts : Counts} {name : String} (different : name ≠ group) :
          (varyCount.insert group counts).getD name ∅ = varyCount.getD name ∅ := by
        rw [ExtTreeMap.getD_insert, if_neg (by simpa using different.symm)]
      rw [List.forIn_cons]
      cases valued : host.tags.bind (·[key]?) with
      | none =>
        refine kept _ (fun name different => other different) ?_
        rw [same]
        simp [tag, Host.value, valued, Counts.bump]
      | some value =>
        have added : (addTo (varyCount.insert group (varyCount.getD group ∅)) group (writeTag key value) 1) =
            varyCount.insert group ((varyCount.getD group ∅).add (writeTag key value) 1) := by
          rw [addTo, same]
          ext1 name
          simp only [ExtTreeMap.getElem?_insert]
          split <;> rfl
        refine kept (addTo (varyCount.insert group (varyCount.getD group ∅)) group (writeTag key value) 1)
          (fun name different => by rw [added, other different]) ?_
        rw [added, ExtTreeMap.getD_insert_self]
        simp [tag, selected, Host.value, valued, Counts.bump]
    · next unselected =>
      refine kept _ (fun _ _ => rfl) ?_
      have unselected : demand.selects group host = false := Bool.eq_false_iff.mpr unselected
      simp [tag, unselected, Counts.bump]
  · rintro ⟨found, varyCount, names⟩ bumped
    have final (group : String) : varyCount.getD group ∅ =
        (tally.varyCount.getD group ∅).bump (if group ∈ demand.desired then tag group else none) := by
      rw [bumped]
      congr 1
      refine if_congr ?_ rfl rfl
      rw [(perm.map Prod.fst).mem_iff, ExtTreeMap.map_fst_toList_eq_keys]
      exact ExtTreeMap.mem_keys
    dsimp only
    split
    · exact final
    · exact final

theorem tally_spread (vary : demand.vary.toList = [(key, true)]) (replicas : List Replica) :
    (replicas.foldlM (tallyReplica state demand) {}).Ends (·.isOrder) (Tally.Spread state demand key replicas) := by
  refine .foldlM _ ⟨fun group _ tag => by simp [positive], fun group _ => by simp⟩
    fun front replica back tally _ spread => ?_
  refine (tallyReplica_varyCount vary tally replica).mono fun next bumped => ⟨fun group wanted tag => ?_, ?_⟩
  · rw [bumped, if_pos wanted, getElem?_bump (spread.counted group wanted tag), List.countP_append,
      List.countP_singleton]
    congr 2
    simp only [heldBy]
    split <;> simp_all
  · intro group unwanted
    rw [bumped, if_neg unwanted, spread.rest group unwanted]
    rfl

end Tally

section Matches

variable {state : State} {demand : Demand} {tally : Tally} {key : String}

/-- The free hosts of each group are counted by their values, where a host without the tag has the empty one. -/
def Matched (key : String) (hosts : ExtTreeMap String (List Host)) (counts : ExtTreeMap String Counts) : Prop :=
  ∀ group tag, (counts.getD group ∅).getD tag 0 =
    ((hosts.getD group []).countP fun host => writeTag key ((host.value key).getD "") = tag : ℕ)

theorem Matched.add {hosts : ExtTreeMap String (List Host)} {counts : ExtTreeMap String Counts}
    (matched : Matched key hosts counts) (group : String) (host : Host) :
    Matched key (hosts.insert group (hosts.getD group [] ++ [host]))
      (addTo counts group (writeTag key ((host.value key).getD "")) 1) := by
  intro name tag
  rw [addTo, ExtTreeMap.getD_insert, ExtTreeMap.getD_insert]
  split
  · next same =>
    rw [Std.compare_eq_iff_eq] at same
    subst same
    rw [getD_add, matched, List.countP_append, List.countP_singleton, Nat.cast_add]
    simp
  · exact matched name tag

theorem findMatches_matched (vary : demand.vary.toList = [(key, true)]) :
    (findMatches state demand tally).Ends (·.isOrder) fun candidates =>
      Matched key candidates.matches_ candidates.varyMatch := by
  unfold findMatches
  refine .bind (.forIn (fun _ (candidates : Candidates) => Matched key candidates.matches_ candidates.varyMatch) _
    (fun group tag => by simp) ?_ fun _ done => done) fun _ done => done
  intro _ host _ candidates _ matched
  dsimp only
  split
  · exact matched
  · refine .bind (rangeOver_ends _) fun groups _ => .bind (.forIn
      (fun _ (candidates : Candidates) => Matched key candidates.matches_ candidates.varyMatch)
      (fun (candidates : Candidates) => Matched key candidates.matches_ candidates.varyMatch)
      matched ?_ fun _ done => done) fun _ done => done
    rintro _ ⟨group, count⟩ _ candidates _ matched
    dsimp only
    split
    · exact matched
    · split
      · refine .bind (rangeOver_ends _) fun tags varied => ?_
        rw [vary, List.perm_singleton] at varied
        subst varied
        exact matched.add group host
      · exact matched

end Matches

section Choose

variable {placing next : Placing} {group key : String} {one : Placed}

namespace Placing

/-- What the controller chooses when all counted values are of one key. -/
def choice (placing : Placing) (group : String) : Option (List String) :=
  match (placing.varyCount.getD group ∅).toList with
  | [] => some []
  | [(tag, _)] =>
    if (placing.varyMatch.getD group ∅).getD tag 0 = 0 then none
    else some (if group = "member" then [] else [tag])
  | _ => none

/-- The counted values are of one key. -/
def Keyed (key : String) (placing : Placing) : Prop :=
  ∀ group tag count, (placing.varyCount.getD group ∅)[tag]? = some count → 0 < count ∧ ∃ value, tag = writeTag key value

/-- The choice, as far as it is known. -/
def Chooses (key : String) (placing : Placing) (group : String) (chosen : Option (List String)) : Prop :=
  placing.Keyed key → chosen = placing.choice group

end Placing

theorem toList_insert_empty (name : String) {β : Type} (value : β) :
    ((∅ : ExtTreeMap String β).insert name value).toList = [(name, value)] := by
  have single : ((∅ : ExtTreeMap String β).insert name value).toList.length = 1 := by
    rw [ExtTreeMap.length_toList, ExtTreeMap.size_insert]
    simp
  obtain ⟨entry, same⟩ := List.length_eq_one_iff.mp single
  have member : (name, value) ∈ ((∅ : ExtTreeMap String β).insert name value).toList :=
    ExtTreeMap.mem_toList_iff_getElem?_eq_some.mpr ExtTreeMap.getElem?_insert_self
  rw [same, List.mem_singleton] at member
  rw [same, member]

theorem chooseVaryTags_chooses (named : isTagKey key) (placing : Placing) (group : String) :
    (chooseVaryTags placing group).Ends (·.isOrder) (placing.Chooses key group) := by
  unfold Placing.Chooses Placing.choice
  by_cases keyed : placing.Keyed key
  swap
  · exact (chooseVaryTags_ends placing group).mono fun _ _ held => absurd held keyed
  replace keyed := keyed group
  rcases listed : (placing.varyCount.getD group ∅).toList with _ | ⟨⟨tag, count⟩, _ | ⟨second, rest⟩⟩
  · refine (chooseVaryTags_ends placing group).mono fun chosen any _ => any ?_
    rw [← ExtTreeMap.isEmpty_iff, ← ExtTreeMap.isEmpty_toList, listed]
    rfl
  · have size : (placing.varyCount.getD group ∅).size = 1 := by rw [← ExtTreeMap.length_toList, listed]; rfl
    have stored : (placing.varyCount.getD group ∅)[tag]? = some count :=
      ExtTreeMap.mem_toList_iff_getElem?_eq_some.mp (by simp [listed])
    obtain ⟨positive, value, rfl⟩ := keyed tag count stored
    unfold chooseVaryTags
    refine .bind (rangeOver_ends _) fun visited perm => ?_
    rw [listed, List.perm_singleton] at perm
    subst perm
    simp only [List.forIn_cons, List.forIn_nil, parseTag_writeTag named, size]
    by_cases spent : (placing.varyMatch.getD group ∅).getD (writeTag key value) 0 = 0
    · simp only [spent, ↓reduceIte, pure_bind, ExtTreeMap.size_empty, Nat.lt_one_iff]
      exact fun _ => rfl
    · simp only [spent, ↓reduceIte, ExtTreeMap.getD_empty, decide_true, Bool.true_or, pure_bind]
      rw [if_neg (by rw [ExtTreeMap.size_insert]; simp)]
      refine .bind (rangeOver_ends _) fun keys only => ?_
      rw [toList_insert_empty, List.perm_singleton] at only
      subst only
      simp only [List.forIn_cons, List.forIn_nil, positive, decide_true, Bool.true_and, decide_eq_true_eq,
        ExtTreeMap.getD_insert_self]
      split
      · exact fun _ => rfl
      · exact fun _ => rfl
  · have size : 2 ≤ (placing.varyCount.getD group ∅).size := by
      rw [← ExtTreeMap.length_toList, listed]
      simp
    unfold chooseVaryTags
    refine .bind (rangeOver_ends _) fun visited perm => .bind (.forIn
      (fun _ state => ∀ name ∈ state.1, name = key) (fun state => ∀ name ∈ state.1, name = key)
      (by simp) ?_ fun _ done => done) ?_
    · rintro front ⟨tag, count⟩ back ⟨values, found⟩ split only
      have stored : (placing.varyCount.getD group ∅)[tag]? = some count := by
        rw [← ExtTreeMap.mem_toList_iff_getElem?_eq_some, ← perm.mem_iff, split]
        simp
      obtain ⟨-, value, rfl⟩ := keyed tag count stored
      dsimp only
      split
      · exact only
      · rw [parseTag_writeTag named]
        dsimp only
        split
        · intro name member
          obtain same | old := ExtTreeMap.mem_insert.mp member
          · exact (Std.compare_eq_iff_eq.mp same).symm
          · exact only name old
        · exact only
    · rintro ⟨values, found⟩ only
      have few : values.size ≤ 1 := by
        have subset : values.keys ⊆ [key] := fun name member =>
          List.mem_singleton.mpr (only name (ExtTreeMap.mem_keys.mp member))
        simpa using (List.subperm_of_subset ExtTreeMap.nodup_keys subset).length_le
      dsimp only
      split
      · exact fun _ => rfl
      · next enough => exact absurd (by omega) enough

private theorem eq_insert_empty {name : String} {β : Type} {value : β} {table : ExtTreeMap String β}
    (listed : table.toList = [(name, value)]) : table = (∅ : ExtTreeMap String β).insert name value := by
  ext1 other
  ext stored
  rw [← ExtTreeMap.mem_toList_iff_getElem?_eq_some, ← ExtTreeMap.mem_toList_iff_getElem?_eq_some, listed,
    toList_insert_empty]

theorem choice_eq_some {varyTags : List String} (chosen : placing.choice group = some varyTags) :
    varyTags = [] ∨ ∃ tag count, (placing.varyCount.getD group ∅).toList = [(tag, count)] ∧ varyTags = [tag] := by
  unfold Placing.choice at chosen
  match listed : (placing.varyCount.getD group ∅).toList with
  | [] =>
    rw [listed] at chosen
    cases chosen
    exact .inl rfl
  | [(tag, count)] =>
    rw [listed] at chosen
    dsimp only at chosen
    split at chosen
    · contradiction
    · cases chosen
      split
      · exact .inl rfl
      · exact .inr ⟨tag, count, rfl, rfl⟩
  | first :: second :: rest =>
    rw [listed] at chosen
    cases chosen

private theorem getD_addTo_of_ne {counts : ExtTreeMap String Counts} {name : String} {tag : String} {amount : ℤ}
    (different : group ≠ name) : (addTo counts name tag amount).getD group ∅ = counts.getD group ∅ := by
  rw [addTo, ExtTreeMap.getD_insert, if_neg (by simpa using different.symm)]

/-- Taking a host changes no choice: it adds to the one value that is counted, and takes from no value. -/
theorem choice_take (named : isTagKey key) (keyed : placing.Keyed key)
    (places : placing.Places (Placing.Chooses key) one next) :
    next.Keyed key ∧ ∀ group, next.choice group = placing.choice group := by
  obtain ⟨varyTags, chosen, -, rfl⟩ := places
  obtain rfl | ⟨tag, count, listed, rfl⟩ := choice_eq_some (chosen keyed).symm
  · exact ⟨keyed, fun group => rfl⟩
  · have stored : (placing.varyCount.getD one.group ∅)[tag]? = some count :=
      ExtTreeMap.mem_toList_iff_getElem?_eq_some.mp (by simp [listed])
    obtain ⟨positive, value, rfl⟩ := keyed _ _ _ stored
    have counts : (placing.take one.group [writeTag key value] one.host).varyCount.getD one.group ∅ =
        (∅ : Counts).insert (writeTag key value) (count + 1) := by
      simp only [Placing.take, List.foldl_cons, List.foldl_nil, addTo, ExtTreeMap.getD_insert_self, Counts.add,
        eq_insert_empty listed]
      ext1 name
      simp only [ExtTreeMap.getElem?_insert]
      split <;> rfl
    refine ⟨fun group tag amount found => ?_, fun group => ?_⟩
    · by_cases same : group = one.group
      · subst same
        rw [counts, ExtTreeMap.getElem?_insert] at found
        split at found
        · next here =>
          cases found
          exact ⟨by omega, value, (Std.compare_eq_iff_eq.mp here).symm⟩
        · simp at found
      · exact keyed group tag amount (getD_addTo_of_ne same ▸ found)
    · unfold Placing.choice
      by_cases same : group = one.group
      · subst same
        have matches_ : ((placing.take one.group [writeTag key value] one.host).varyMatch.getD one.group ∅).getD
            (writeTag key value) 0 = (placing.varyMatch.getD one.group ∅).getD (writeTag key value) 0 := by
          simp only [Placing.take, List.foldl_cons, List.foldl_nil, addTo, ExtTreeMap.getD_insert_self, getD_add,
            parseTag_writeTag named, Ne.symm writeTag_ne_key, ↓reduceIte, add_zero]
        rw [counts, toList_insert_empty, listed]
        simp only [matches_]
      · have rest : (placing.take one.group [writeTag key value] one.host).varyCount.getD group ∅ =
            placing.varyCount.getD group ∅ := getD_addTo_of_ne same
        have others : (placing.take one.group [writeTag key value] one.host).varyMatch.getD group ∅ =
            placing.varyMatch.getD group ∅ := getD_addTo_of_ne same
        rw [rest, others]

theorem choice_of_path (named : isTagKey key) {start : Placing} {placed : List Placed} (keyed : start.Keyed key)
    (path : Path (Placing.Places (Placing.Chooses key)) start placed placing) :
    placing.Keyed key ∧ ∀ group, placing.choice group = start.choice group := by
  induction path with
  | nil => exact ⟨keyed, fun _ => rfl⟩
  | snoc before places ih =>
    obtain ⟨kept, same⟩ := choice_take named ih.1 places
    exact ⟨kept, fun group => (same group).trans (ih.2 group)⟩

end Choose

end Zongzi
