import Mathlib

/-! # Tables as partial functions

Three ways to change a table that is a partial function: write or clear one key (`Function.update`),
change the records under chosen keys in place (`rewrite`), and drop the records that satisfy a predicate
(`dropWhere`). The lemmas say where a record of the changed table comes from.
-/

namespace PartialTable

variable {κ α : Type} {table : κ → Option α} {key other : κ} {record : α}

section Update

variable [DecidableEq κ] {value : Option α}

/-- A record of an updated table was there before or is the one written. -/
theorem of_update (present : Function.update table key value other = some record) :
    table other = some record ∨ other = key ∧ value = some record := by
  by_cases same : other = key
  · subst same
    rw [Function.update_self] at present
    exact .inr ⟨rfl, present⟩
  · rw [Function.update_of_ne same] at present
    exact .inl present

theorem isSome_of_update (present : (Function.update table key value other).isSome) :
    (table other).isSome ∨ other = key ∧ value.isSome := by
  obtain ⟨found, present⟩ := Option.isSome_iff_exists.mp present
  obtain kept | ⟨same, written⟩ := of_update present
  · exact .inl (by rw [kept]; rfl)
  · exact .inr ⟨same, by rw [written]; rfl⟩

/-- Only the written key differs. -/
theorem eq_of_update_ne (changed : Function.update table key value other ≠ table other) :
    other = key := by
  by_contra different
  exact changed (Function.update_of_ne different ..)

end Update

section Rewrite

open Classical in
/-- Change the records under chosen keys in place. -/
noncomputable def rewrite (table : κ → Option α) (chosen : Set κ) (change : α → α) : κ → Option α :=
  fun key => if key ∈ chosen then (table key).map change else table key

variable {chosen : Set κ} {change : α → α}

theorem rewrite_of_mem (member : key ∈ chosen) :
    rewrite table chosen change key = (table key).map change :=
  if_pos member

theorem rewrite_of_notMem (outside : key ∉ chosen) : rewrite table chosen change key = table key :=
  if_neg outside

/-- What a change leaves alone can be read off the rewritten table. -/
theorem map_rewrite {β : Type*} {view : α → β} (same : ∀ record, view (change record) = view record) :
    (rewrite table chosen change key).map view = (table key).map view := by
  by_cases member : key ∈ chosen
  · rw [rewrite_of_mem member, Option.map_map]
    exact congrArg (fun f => (table key).map f) (funext same)
  · rw [rewrite_of_notMem member]

theorem rewrite_empty : rewrite table ∅ change = table := by
  funext key
  exact rewrite_of_notMem (Set.notMem_empty key)

theorem rewrite_singleton [DecidableEq κ] (key : κ) :
    rewrite table {key} change = Function.update table key ((table key).map change) := by
  funext other
  by_cases same : other = key
  · subst same
    rw [Function.update_self, rewrite_of_mem (Set.mem_singleton other)]
  · rw [Function.update_of_ne same, rewrite_of_notMem (by simpa using same)]

/-- Changing records twice in the same way changes them once. -/
theorem rewrite_rewrite (change : α → α)
    (idempotent : ∀ record, change (change record) = change record) (first second : Set κ) :
    rewrite (rewrite table first change) second change = rewrite table (first ∪ second) change := by
  funext key
  by_cases inFirst : key ∈ first
  all_goals by_cases inSecond : key ∈ second
  · rw [rewrite_of_mem inSecond, rewrite_of_mem inFirst, rewrite_of_mem (.inl inFirst)]
    cases table key with
    | none => rfl
    | some record => simp [idempotent]
  · rw [rewrite_of_notMem inSecond, rewrite_of_mem inFirst, rewrite_of_mem (.inl inFirst)]
  · rw [rewrite_of_mem inSecond, rewrite_of_notMem inFirst, rewrite_of_mem (.inr inSecond)]
  · rw [rewrite_of_notMem inSecond, rewrite_of_notMem inFirst, rewrite_of_notMem]
    exact fun member => member.elim inFirst inSecond

/-- What a rewrite changes is chosen. -/
theorem of_rewrite_ne (changed : rewrite table chosen change key ≠ table key) :
    key ∈ chosen ∧ ∃ old, table key = some old ∧ rewrite table chosen change key = some (change old) := by
  have member : key ∈ chosen := by
    by_contra outside
    exact changed (rewrite_of_notMem outside)
  refine ⟨member, ?_⟩
  rw [rewrite_of_mem member] at changed ⊢
  cases found : table key with
  | none => simp [found] at changed
  | some old => exact ⟨old, rfl, rfl⟩

/-- A record of a rewritten table was there before or is a changed one. -/
theorem of_rewrite (present : rewrite table chosen change key = some record) :
    table key = some record ∧ key ∉ chosen ∨
      ∃ old, table key = some old ∧ key ∈ chosen ∧ record = change old := by
  by_cases member : key ∈ chosen
  · rw [rewrite_of_mem member] at present
    obtain ⟨old, found, rfl⟩ := Option.map_eq_some_iff.mp present
    exact .inr ⟨old, found, member, rfl⟩
  · rw [rewrite_of_notMem member] at present
    exact .inl ⟨present, member⟩

end Rewrite

section DropWhere

open Classical in
/-- Drop the records that satisfy a predicate. -/
noncomputable def dropWhere (table : κ → Option α) (dropped : α → Prop) : κ → Option α :=
  fun key => (table key).filter fun record => ¬ dropped record

variable {dropped : α → Prop}

theorem dropWhere_eq_some_iff :
    dropWhere table dropped key = some record ↔ table key = some record ∧ ¬ dropped record := by
  simp [dropWhere, Option.filter_eq_some_iff]

theorem dropWhere_of_not (kept : ∀ record, ¬ dropped record) : dropWhere table dropped = table := by
  funext key
  ext record
  rw [dropWhere_eq_some_iff]
  exact and_iff_left (kept record)

/-- Where dropping changes something, it drops the record that was there. -/
theorem of_dropWhere_ne (changed : dropWhere table dropped key ≠ table key) :
    ∃ record, table key = some record ∧ dropped record ∧ dropWhere table dropped key = none := by
  cases found : table key with
  | none =>
    refine absurd ?_ changed
    rw [found, Option.eq_none_iff_forall_not_mem]
    intro record present
    cases found.symm.trans (dropWhere_eq_some_iff.mp present).1
  | some record =>
    by_cases drop : dropped record
    · refine ⟨record, rfl, drop, ?_⟩
      rw [Option.eq_none_iff_forall_not_mem]
      intro other present
      obtain ⟨stored, kept⟩ := dropWhere_eq_some_iff.mp present
      cases found.symm.trans stored
      exact kept drop
    · exact absurd ((dropWhere_eq_some_iff.mpr ⟨found, drop⟩).trans found.symm) changed

end DropWhere

end PartialTable
