import Zongzi.Spec.Ledger

/-! # What the tag functions leave behind

One equation for reading a key after each tag function, and when the function reports that it wrote. A
tag function never turns a nil map into another one or back. A tag action that writes leaves the tags as
they were exactly when every tag it names is already as the action wants it (`Agrees`).
-/

namespace Zongzi.Fsm

open Std ExceptFold

/-- Read one entry of a Go map; the nil map has none. -/
def lookup (tags : Tags) (key : String) : Option String := tags.bind (·[key]?)

theorem lookup_ext {left right : Tags} (nil : left.isSome = right.isSome)
    (same : ∀ key, lookup left key = lookup right key) : left = right := by
  cases left with
  | none =>
    cases right with
    | none => rfl
    | some => cases nil
  | some tagMap =>
    cases right with
    | none => cases nil
    | some other => exact congrArg some (ExtTreeMap.ext_getElem? fun {key} => same key)

theorem mem_entries_iff {tags : Tags} {key value : String} :
    (key, value) ∈ entries tags ↔ lookup tags key = some value := by
  cases tags with
  | none => simp [entries, lookup]
  | some tagMap => simp [entries, lookup, ExtTreeMap.mem_toList_iff_getElem?_eq_some]

theorem notMem_keys_iff {tags : Tags} {key : String} :
    key ∉ (entries tags).map Prod.fst ↔ lookup tags key = none := by
  simp [Option.eq_none_iff_forall_ne_some, mem_entries_iff]

theorem nodup_entries (tags : Tags) : ((entries tags).map Prod.fst).Nodup := by
  cases tags with
  | none => simp [entries]
  | some tagMap => simpa [entries] using ExtTreeMap.nodup_keys

/-- Assigning does not make a nil map. -/
theorem lookup_assign {tags next : Tags} {key value : String} (done : assign tags key value = .ok next) :
    next.isSome = tags.isSome ∧
      ∀ other, lookup next other = if key = other then some value else lookup tags other := by
  cases tags with
  | none => cases done
  | some tagMap =>
    cases done
    refine ⟨rfl, fun other => ?_⟩
    simp [lookup, ExtTreeMap.getElem?_insert]

section Folds

variable {pairs : List (String × String)} {new tags : Tags} {written changed : Bool}

private theorem fold_tagsSet (distinct : (pairs.map Prod.fst).Nodup)
    (done : pairs.foldlM (fun (tags, _) (key, value) => do return (← assign tags key value, true))
      (new, written) = .ok (tags, changed)) :
    tags.isSome = new.isSome ∧ changed = (written || !pairs.isEmpty) ∧
      (∀ key value, (key, value) ∈ pairs → lookup tags key = some value) ∧
      ∀ key, key ∉ pairs.map Prod.fst → lookup tags key = lookup new key := by
  induction pairs generalizing new written with
  | nil =>
    cases done
    simp
  | cons pair pairs ih =>
    obtain ⟨key, value⟩ := pair
    obtain ⟨absent, distinct⟩ := List.nodup_cons.mp distinct
    simp only [List.foldlM_cons, bind_eq_ok_iff, pure_eq_ok_iff] at done
    obtain ⟨_, ⟨next, assigned, rfl⟩, done⟩ := done
    obtain ⟨nil, looked⟩ := lookup_assign assigned
    obtain ⟨kept, rfl, inside, outside⟩ := ih distinct done
    refine ⟨kept.trans nil, by simp, ?_, ?_⟩
    · intro other wanted member
      obtain same | member := List.mem_cons.mp member
      · cases same
        rw [outside key absent, looked, if_pos rfl]
      · exact inside other wanted member
    · intro other elsewhere
      rw [List.map_cons, List.mem_cons, not_or] at elsewhere
      rw [outside other elsewhere.2, looked, if_neg (Ne.symm elsewhere.1)]

private theorem fold_tagsSetNX (distinct : (pairs.map Prod.fst).Nodup)
    (done : pairs.foldlM (fun (tags, written) (key, value) =>
        if (tags.bind (·[key]?)).isSome then return (tags, written)
        else do return (← assign tags key value, true))
      (new, written) = .ok (tags, changed)) :
    tags.isSome = new.isSome ∧
      (changed = true ↔ written = true ∨ ∃ key ∈ pairs.map Prod.fst, lookup new key = none) ∧
      (∀ key value, (key, value) ∈ pairs → lookup tags key = (lookup new key).or (some value)) ∧
      ∀ key, key ∉ pairs.map Prod.fst → lookup tags key = lookup new key := by
  induction pairs generalizing new written with
  | nil =>
    cases done
    simp
  | cons pair pairs ih =>
    obtain ⟨key, value⟩ := pair
    obtain ⟨absent, distinct⟩ := List.nodup_cons.mp distinct
    rw [List.foldlM_cons] at done
    cases held : lookup new key with
    | some old =>
      have present : (new.bind (·[key]?)).isSome := by rw [← lookup, held]; rfl
      simp only [present, if_true] at done
      obtain ⟨kept, reports, inside, outside⟩ := ih distinct done
      refine ⟨kept, ?_, ?_, ?_⟩
      · simp only [reports, List.map_cons, List.mem_cons, exists_eq_or_imp, held, reduceCtorEq, false_or]
      · intro other wanted member
        obtain same | member := List.mem_cons.mp member
        · cases same
          rw [outside key absent, held, Option.some_or]
        · exact inside other wanted member
      · intro other elsewhere
        rw [List.map_cons, List.mem_cons, not_or] at elsewhere
        exact outside other elsewhere.2
    | none =>
      have missing : (new.bind (·[key]?)).isSome = false := by rw [← lookup, held]; rfl
      simp only [missing, Bool.false_eq_true, if_false, bind_eq_ok_iff, pure_eq_ok_iff] at done
      obtain ⟨_, ⟨next, assigned, rfl⟩, done⟩ := done
      obtain ⟨nil, looked⟩ := lookup_assign assigned
      obtain ⟨kept, reports, inside, outside⟩ := ih distinct done
      refine ⟨kept.trans nil, ?_, ?_, ?_⟩
      · simp [reports, held]
      · intro other wanted member
        obtain same | member := List.mem_cons.mp member
        · cases same
          rw [outside key absent, looked, if_pos rfl, held, Option.none_or]
        · have different : key ≠ other := by
            rintro rfl
            exact absent (List.mem_map.mpr ⟨(key, wanted), member, rfl⟩)
          rw [inside other wanted member, looked, if_neg different]
      · intro other elsewhere
        rw [List.map_cons, List.mem_cons, not_or] at elsewhere
        rw [outside other elsewhere.2, looked, if_neg (Ne.symm elsewhere.1)]

private theorem fold_tagsRemove
    (done : pairs.foldl (fun ((tags : Tags), (_ : Bool)) (key, _) => (tags.map (·.erase key), true))
      (new, written) = (tags, changed)) :
    tags.isSome = new.isSome ∧ changed = (written || !pairs.isEmpty) ∧
      ∀ key, lookup tags key = if key ∈ pairs.map Prod.fst then none else lookup new key := by
  induction pairs generalizing new written with
  | nil =>
    cases done
    simp
  | cons pair pairs ih =>
    obtain ⟨key, value⟩ := pair
    obtain ⟨kept, rfl, looked⟩ := ih done
    refine ⟨kept.trans (by simp), by simp, fun other => ?_⟩
    have erased : lookup (new.map (·.erase key)) other = if key = other then none else lookup new other := by
      cases new with
      | none => simp [lookup]
      | some tagMap => simp [lookup, ExtTreeMap.getElem?_erase]
    rw [looked, erased]
    by_cases same : key = other
    · simp [same]
    · simp only [List.map_cons, List.mem_cons, same, Ne.symm same, if_false, false_or]

end Folds

variable {new old tags : Tags} {changed : Bool}

/-- The named tags win. -/
theorem tagsSet_spec (done : tagsSet new old = .ok (tags, changed)) :
    tags.isSome = new.isSome ∧ (changed = false → tags = new) ∧
      ∀ key, lookup tags key = (lookup old key).or (lookup new key) := by
  obtain ⟨kept, reports, inside, outside⟩ := fold_tagsSet (nodup_entries old) done
  have looked (key : String) : lookup tags key = (lookup old key).or (lookup new key) := by
    cases named : lookup old key with
    | none => exact outside key (notMem_keys_iff.mpr named)
    | some value => exact inside key value (mem_entries_iff.mpr named)
  refine ⟨kept, fun unwritten => lookup_ext kept fun key => ?_, looked⟩
  rw [unwritten, Bool.false_or, eq_comm, Bool.not_eq_false', List.isEmpty_iff] at reports
  exact outside key (by simp [reports])

/-- The tags that are there win. -/
theorem tagsSetNX_spec (done : tagsSetNX new old = .ok (tags, changed)) :
    tags.isSome = new.isSome ∧ (changed = false → tags = new) ∧
      ∀ key, lookup tags key = (lookup new key).or (lookup old key) := by
  obtain ⟨kept, reports, inside, outside⟩ := fold_tagsSetNX (nodup_entries old) done
  have looked (key : String) : lookup tags key = (lookup new key).or (lookup old key) := by
    cases named : lookup old key with
    | none =>
      rw [Option.or_none]
      exact outside key (notMem_keys_iff.mpr named)
    | some value => exact inside key value (mem_entries_iff.mpr named)
  refine ⟨kept, fun unwritten => lookup_ext kept fun key => ?_, looked⟩
  cases held : lookup new key with
  | some value => rw [looked, held, Option.some_or]
  | none =>
    have unnamed : key ∉ (entries old).map Prod.fst := by
      intro named
      have written := reports.mpr (.inr ⟨key, named, held⟩)
      rw [unwritten] at written
      cases written
    rw [outside key unnamed, held]

theorem tagsRemove_spec (done : tagsRemove new old = .ok (tags, changed)) :
    tags.isSome = new.isSome ∧ (changed = false → tags = new) ∧
      ∀ key, lookup tags key = if (lookup old key).isSome then none else lookup new key := by
  obtain ⟨kept, reports, removed⟩ := fold_tagsRemove (Except.ok.inj done)
  refine ⟨kept, fun unwritten => lookup_ext kept fun key => ?_, fun key => ?_⟩
  · rw [unwritten, Bool.false_or, eq_comm, Bool.not_eq_false', List.isEmpty_iff] at reports
    rw [removed]
    simp [reports]
  · rw [removed]
    cases named : lookup old key with
    | none => rw [if_neg (notMem_keys_iff.mpr named)]; rfl
    | some value =>
      have member := mem_entries_iff.mpr named
      rw [if_pos (List.mem_map.mpr ⟨(key, value), member, rfl⟩)]
      rfl

/-- Every tag a tag command names is already as the action would leave it. -/
def Agrees (action : Action) (stored named : Tags) : Prop :=
  ∀ key value, lookup named key = some value →
    match action with
    | .tagsSet => lookup stored key = some value
    | .tagsSetNX => (lookup stored key).isSome
    | .tagsRemove => lookup stored key = none
    | _ => True

/-- A tag function changes the tags exactly when some tag it names is not as it would leave it. -/
theorem tags_eq_iff_agrees {action : Action} {fn : TagFn} (is : action.tagFn = some fn)
    {stored named : Tags} (done : fn stored named = .ok (tags, changed)) :
    tags = stored ↔ Agrees action stored named := by
  cases action with
  | tagsSet =>
    cases is
    obtain ⟨kept, -, looked⟩ := tagsSet_spec done
    refine ⟨fun same key value wanted => ?_, fun agrees => lookup_ext kept fun key => ?_⟩
    · rw [← same, looked, wanted, Option.some_or]
    · rw [looked]
      cases wanted : lookup named key with
      | none => rfl
      | some value => exact (agrees key value wanted).symm
  | tagsSetNX =>
    cases is
    obtain ⟨kept, -, looked⟩ := tagsSetNX_spec done
    refine ⟨fun same key value wanted => ?_, fun agrees => lookup_ext kept fun key => ?_⟩
    · dsimp only
      rw [← same, looked, wanted]
      simp
    · rw [looked]
      cases wanted : lookup named key with
      | none => exact Option.or_none
      | some value =>
        obtain ⟨held, found⟩ := Option.isSome_iff_exists.mp (agrees key value wanted)
        rw [found, Option.some_or]
  | tagsRemove =>
    cases is
    obtain ⟨kept, -, looked⟩ := tagsRemove_spec done
    refine ⟨fun same key value wanted => ?_, fun agrees => lookup_ext kept fun key => ?_⟩
    · dsimp only
      rw [← same, looked, wanted]
      rfl
    · rw [looked]
      cases wanted : lookup named key with
      | none => rfl
      | some value => exact (agrees key value wanted).symm
  | _ => cases is

theorem tags_of_unwritten {action : Action} {fn : TagFn} (is : action.tagFn = some fn)
    (done : fn new old = .ok (tags, false)) : tags = new := by
  cases action with
  | tagsSet => cases is; exact (tagsSet_spec done).2.1 rfl
  | tagsSetNX => cases is; exact (tagsSetNX_spec done).2.1 rfl
  | tagsRemove => cases is; exact (tagsRemove_spec done).2.1 rfl
  | _ => cases is

end Zongzi.Fsm
