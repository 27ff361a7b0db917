import Mathlib

/-! # Tables of pointers to mutable objects

The records of a table point to objects that can be changed in place. Storing a record lets its key point
to a new object, or to none. As long as no two keys point to one object, reading through the pointers is
like reading a table of values: `store` and `mutate` write one key and nothing else.

A version of the table is its pointers as they were at some time. It is read through the objects as they
are now, so it sees every change in place of an object that it points to, and nothing else (`seen`).
-/

namespace Pointers

/-- Objects by address, the next free address, and the address that each key points to. -/
structure Heap (ι α : Type) where
  objects : ℕ → α
  next : ℕ
  held : ι → Option ℕ

namespace Heap

variable {ι α : Type} [DecidableEq ι] {heap : Heap ι α} {key other : ι} {address : ℕ} {value : α}

/-- What a version of the table shows now. -/
def seen (heap : Heap ι α) (version : ι → Option ℕ) (key : ι) : Option α := (version key).map heap.objects

def read (heap : Heap ι α) : ι → Option α := heap.seen heap.held

/-- No key points anywhere. -/
def empty (value : α) : Heap ι α := ⟨fun _ => value, 0, fun _ => none⟩

/-- Let a key point to a new object, or to none. -/
def store (heap : Heap ι α) (key : ι) : Option α → Heap ι α
  | none => { heap with held := Function.update heap.held key none }
  | some value => {
      objects := Function.update heap.objects heap.next value
      next := heap.next + 1
      held := Function.update heap.held key (some heap.next) }

/-- Change the object at an address in place. -/
def write (heap : Heap ι α) (address : ℕ) (value : α) : Heap ι α :=
  { heap with objects := Function.update heap.objects address value }

/-- Change the object of a key in place. -/
def mutate (heap : Heap ι α) (key : ι) (value : Option α) : Heap ι α :=
  match heap.held key, value with
  | some address, some value => heap.write address value
  | _, _ => heap

/-- Every pointer is to an object, and no two keys share one. -/
structure Owned (heap : Heap ι α) : Prop where
  allocated : ∀ key address, heap.held key = some address → address < heap.next
  apart : ∀ key other address, heap.held key = some address → heap.held other = some address → key = other

omit [DecidableEq ι] in
theorem owned_empty (value : α) : (empty value : Heap ι α).Owned := by
  refine ⟨fun key address held => ?_, fun key other address left right => ?_⟩
  · cases held
  · cases left

omit [DecidableEq ι] in
theorem Owned.write (owned : heap.Owned) (address : ℕ) (value : α) : (heap.write address value).Owned :=
  ⟨owned.allocated, owned.apart⟩

omit [DecidableEq ι] in
theorem Owned.mutate (owned : heap.Owned) (key : ι) (value : Option α) : (heap.mutate key value).Owned := by
  unfold Heap.mutate
  split
  · exact owned.write _ _
  · exact owned

omit [DecidableEq ι] in
@[simp] theorem held_mutate (key : ι) (value : Option α) : (heap.mutate key value).held = heap.held := by
  unfold Heap.mutate
  split
  · rfl
  · rfl

omit [DecidableEq ι] in
@[simp] theorem next_mutate (key : ι) (value : Option α) : (heap.mutate key value).next = heap.next := by
  unfold Heap.mutate
  split
  · rfl
  · rfl

omit [DecidableEq ι] in
/-- Changing an object to what it is does nothing. -/
theorem mutate_read (key : ι) : heap.mutate key (heap.read key) = heap := by
  cases held : heap.held key with
  | none => simp [mutate, held]
  | some address => simp [mutate, read, seen, held, write]

theorem held_store_of_ne (value : Option α) (different : other ≠ key) :
    (heap.store key value).held other = heap.held other := by
  cases value with
  | none => exact Function.update_of_ne different ..
  | some value => exact Function.update_of_ne different ..

theorem next_le_store (value : Option α) : heap.next ≤ (heap.store key value).next := by
  cases value with
  | none => exact le_rfl
  | some value => exact Nat.le_succ _

/-- Storing leaves every object alone. -/
theorem objects_store (value : Option α) (old : address < heap.next) :
    (heap.store key value).objects address = heap.objects address := by
  cases value with
  | none => rfl
  | some value => exact Function.update_of_ne old.ne ..

/-- The key points elsewhere now. -/
theorem held_store_ne (value : Option α) (old : address < heap.next) :
    (heap.store key value).held key ≠ some address := by
  cases value with
  | none => simp [store]
  | some value =>
    simp only [store, Function.update_self, ne_eq, Option.some.injEq]
    exact old.ne'

theorem Owned.store (owned : heap.Owned) (key : ι) (value : Option α) : (heap.store key value).Owned := by
  refine ⟨fun first address held => ?_, fun first second address left right => ?_⟩
  · by_cases same : first = key
    · subst same
      cases value with
      | none => simp [Heap.store] at held
      | some value =>
        simp only [Heap.store, Function.update_self, Option.some.injEq] at held
        simp only [Heap.store]
        omega
    · rw [held_store_of_ne value same] at held
      exact lt_of_lt_of_le (owned.allocated first address held) (next_le_store value)
  · by_cases atFirst : first = key
    all_goals by_cases atSecond : second = key
    · rw [atFirst, atSecond]
    · subst atFirst
      rw [held_store_of_ne value atSecond] at right
      exact absurd left (held_store_ne value (owned.allocated second address right))
    · subst atSecond
      rw [held_store_of_ne value atFirst] at left
      exact absurd right (held_store_ne value (owned.allocated first address left))
    · rw [held_store_of_ne value atFirst] at left
      rw [held_store_of_ne value atSecond] at right
      exact owned.apart first second address left right

/-- Reading sees what was stored last. -/
theorem read_store (owned : heap.Owned) (key : ι) (value : Option α) :
    (heap.store key value).read = Function.update heap.read key value := by
  funext other
  by_cases same : other = key
  · subst same
    cases value with
    | none => simp [Heap.read, Heap.seen, Heap.store]
    | some value => simp [Heap.read, Heap.seen, Heap.store]
  · rw [Function.update_of_ne same]
    simp only [Heap.read, Heap.seen, held_store_of_ne value same]
    cases held : heap.held other with
    | none => rfl
    | some address =>
      simp only [Option.map_some, objects_store value (owned.allocated other address held)]

omit [DecidableEq ι] in
theorem objects_write_of_ne {old : ℕ} (different : old ≠ address) :
    (heap.write address value).objects old = heap.objects old :=
  Function.update_of_ne different ..

omit [DecidableEq ι] in
/-- A change in place is seen by the key that points there. -/
theorem read_write (key : ι) : (heap.write address value).read key =
    if heap.held key = some address then some value else heap.read key := by
  split
  · next here => simp [Heap.read, Heap.seen, Heap.write, here]
  · next elsewhere =>
    simp only [Heap.read, Heap.seen]
    change (heap.held key).map (heap.write address value).objects = _
    cases held : heap.held key with
    | none => rfl
    | some old =>
      have different : old ≠ address := by
        rintro rfl
        exact elsewhere held
      simp only [Option.map_some, objects_write_of_ne different]

/-- A key without an object stays without one, and any other has the new value. -/
theorem read_mutate (owned : heap.Owned) (key : ι) {value : Option α}
    (nil : value.isSome = (heap.read key).isSome) :
    (heap.mutate key value).read = Function.update heap.read key value := by
  cases held : heap.held key with
  | none =>
    have absent : heap.read key = none := by simp [Heap.read, Heap.seen, held]
    have unset : value = none := by simpa [absent] using nil
    have same : heap.mutate key value = heap := by simp [Heap.mutate, held]
    rw [same, unset, ← absent, Function.update_eq_self]
  | some address =>
    have present : (heap.read key).isSome := by simp [Heap.read, Heap.seen, held]
    rw [present] at nil
    obtain ⟨new, rfl⟩ := Option.isSome_iff_exists.mp nil
    funext other
    have written : heap.mutate key (some new) = heap.write address new := by simp [Heap.mutate, held]
    rw [written, read_write]
    by_cases same : other = key
    · subst same
      simp [held]
    · rw [Function.update_of_ne same, if_neg]
      intro shared
      exact same (owned.apart other key address shared held)

/-- The pointers to old objects are those of an earlier version. -/
structure Since (old heap : Heap ι α) : Prop where
  grown : old.next ≤ heap.next
  kept : ∀ key address, address < old.next → heap.held key = some address → old.held key = some address

section Since

variable {old : Heap ι α}

omit [DecidableEq ι] in
theorem Since.refl (heap : Heap ι α) : Since heap heap := ⟨le_rfl, fun _ _ _ held => held⟩

theorem Since.store (since : Since old heap) (key : ι) (value : Option α) : Since old (heap.store key value) := by
  refine ⟨since.grown.trans (next_le_store value), fun other address early held => ?_⟩
  by_cases same : other = key
  · subst same
    exact absurd held (held_store_ne value (early.trans_le since.grown))
  · rw [held_store_of_ne value same] at held
    exact since.kept other address early held

omit [DecidableEq ι] in
theorem Since.mutate (since : Since old heap) (key : ι) (value : Option α) :
    Since old (heap.mutate key value) := by
  refine ⟨by rw [next_mutate]; exact since.grown, fun other address early held => ?_⟩
  rw [held_mutate] at held
  exact since.kept other address early held

/-- An earlier version does not see what is stored. -/
theorem Since.seen_store (since : Since old heap) (owned : old.Owned) (key : ι) (value : Option α) :
    (heap.store key value).seen old.held = heap.seen old.held := by
  funext other
  cases held : old.held other with
  | none => simp [seen, held]
  | some address =>
    have early := (owned.allocated other address held).trans_le since.grown
    simp only [seen, held, Option.map_some, objects_store value early]

/-- An earlier version sees a change in place of an object that it has. -/
theorem Since.seen_mutate (since : Since old heap) (owned : old.Owned) (key : ι) {value : Option α}
    (nil : value.isSome = (heap.read key).isSome) :
    (heap.mutate key value).seen old.held =
      if old.held key = heap.held key then Function.update (heap.seen old.held) key value
      else heap.seen old.held := by
  cases held : heap.held key with
  | none =>
    have absent : heap.read key = none := by simp [read, seen, held]
    have unset : value = none := by simpa [absent] using nil
    have same : heap.mutate key value = heap := by simp [Heap.mutate, held]
    rw [same]
    split
    · next lost =>
      have unseen : heap.seen old.held key = none := by simp [seen, lost]
      rw [unset, ← unseen, Function.update_eq_self]
    · rfl
  | some address =>
    have present : (heap.read key).isSome := by simp [read, seen, held]
    rw [present] at nil
    obtain ⟨new, rfl⟩ := Option.isSome_iff_exists.mp nil
    have written : heap.mutate key (some new) = heap.write address new := by simp [Heap.mutate, held]
    rw [written]
    funext other
    -- whoever of the earlier version points there is this key
    have whose (here : old.held other = some address) : other = key := by
      have early := owned.allocated other address here
      exact owned.apart other key address here (since.kept key address early held)
    have looked : (heap.write address new).seen old.held other =
        if old.held other = some address then some new else heap.seen old.held other := by
      split
      · next here => simp [seen, write, here]
      · next elsewhere =>
        cases points : old.held other with
        | none => simp [seen, points]
        | some second =>
          have different : second ≠ address := by
            rintro rfl
            exact elsewhere points
          simp only [seen, points, Option.map_some, objects_write_of_ne different]
    rw [looked]
    by_cases here : old.held other = some address
    · have same := whose here
      subst same
      simp [here]
    · rw [if_neg here]
      split
      · next holds =>
        rw [Function.update_of_ne]
        rintro rfl
        exact here holds
      · rfl

end Since

end Heap

end Pointers
