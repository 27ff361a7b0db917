import Mathlib

/-! # Caches that evict

A cache is whatever keeps entries under keys and says which it drops. Only that is assumed of it: a lookup may reorder
the entries but neither adds nor drops one, a new key may push out any others, and replacing the value of a key is no
eviction. Which entries are pushed out, and how many there may be, is left open.
-/

structure EvictingCache (κ β : Type) where
  State : Type
  entries : State → Multiset (κ × β)
  empty : State
  get : State → κ → Option β × State
  /-- The second result of these is what was evicted. -/
  add : State → κ → β → State × List (κ × β)
  remove : State → κ → State × List (κ × β)
  purge : State → State × List (κ × β)
  entries_empty : entries empty = 0
  entries_get : ∀ cache key, entries (get cache key).2 = entries cache
  entries_add_of_notMem : ∀ {cache key} value, key ∉ (entries cache).map Prod.fst →
    entries (add cache key value).1 + (add cache key value).2 = (key, value) ::ₘ entries cache
  entries_add_of_mem : ∀ {cache key} value, key ∈ (entries cache).map Prod.fst → (add cache key value).2 = [] ∧
    ∃ old, (key, old) ::ₘ entries (add cache key value).1 = (key, value) ::ₘ entries cache
  entries_remove : ∀ cache key, entries (remove cache key).1 + (remove cache key).2 = entries cache
  entries_purge : ∀ cache, entries (purge cache).1 + (purge cache).2 = entries cache

namespace EvictingCache

variable {κ β : Type}

def keys (cache : EvictingCache κ β) (state : cache.State) : Multiset κ := (cache.entries state).map Prod.fst

def values (cache : EvictingCache κ β) (state : cache.State) : Multiset β := (cache.entries state).map Prod.snd

section Values

variable (cache : EvictingCache κ β) {state : cache.State} {key : κ}

theorem values_empty : cache.values cache.empty = 0 := by rw [values, entries_empty, Multiset.map_zero]

theorem values_get (state : cache.State) (key : κ) : cache.values (cache.get state key).2 = cache.values state := by
  rw [values, entries_get, values]

/-- Evicted values are still there to be taken care of. -/
private theorem values_of_entries {before after : cache.State} {evicted : List (κ × β)}
    (entries : cache.entries after + evicted = cache.entries before) :
    cache.values after + (evicted.map Prod.snd : List β) = cache.values before := by
  rw [values, values, ← entries, Multiset.map_add, Multiset.map_coe]

theorem values_remove (state : cache.State) (key : κ) :
    cache.values (cache.remove state key).1 + ((cache.remove state key).2.map Prod.snd : List β) = cache.values state :=
  cache.values_of_entries (cache.entries_remove state key)

theorem values_purge (state : cache.State) :
    cache.values (cache.purge state).1 + ((cache.purge state).2.map Prod.snd : List β) = cache.values state :=
  cache.values_of_entries (cache.entries_purge state)

theorem values_add_of_notMem (value : β) (absent : key ∉ cache.keys state) :
    cache.values (cache.add state key value).1 + ((cache.add state key value).2.map Prod.snd : List β) =
      value ::ₘ cache.values state := by
  have added := congrArg (Multiset.map Prod.snd) (cache.entries_add_of_notMem value absent)
  rwa [Multiset.map_add, Multiset.map_coe, Multiset.map_cons] at added

/-- The value that is replaced is dropped without notice. -/
theorem values_add_of_mem (value : β) (present : key ∈ cache.keys state) :
    (cache.add state key value).2 = [] ∧
      ∃ old, old ::ₘ cache.values (cache.add state key value).1 = value ::ₘ cache.values state := by
  obtain ⟨kept, old, replaced⟩ := cache.entries_add_of_mem value present
  have values := congrArg (Multiset.map Prod.snd) replaced
  rw [Multiset.map_cons, Multiset.map_cons] at values
  exact ⟨kept, old, values⟩

end Values

/-- A cache with room for one entry. -/
def single (κ β : Type) [DecidableEq κ] : EvictingCache κ β where
  State := Option (κ × β)
  entries state := (state.toList : Multiset (κ × β))
  empty := none
  get state key := (state.bind fun entry => if entry.1 = key then some entry.2 else none, state)
  add state key value := (some (key, value), state.toList.filter fun entry => entry.1 ≠ key)
  remove state key := (state.filter fun entry => entry.1 ≠ key, state.toList.filter fun entry => entry.1 = key)
  purge state := (none, state.toList)
  entries_empty := rfl
  entries_get _ _ := rfl
  entries_add_of_notMem := by
    intro state key value absent
    cases state with
    | none => rfl
    | some entry =>
      have different : entry.1 ≠ key := by simpa [eq_comm] using absent
      simp [different]
  entries_add_of_mem := by
    intro state key value present
    cases state with
    | none => simp at present
    | some entry =>
      obtain rfl : key = entry.1 := by simpa using present
      exact ⟨by simp, entry.2, Multiset.cons_swap _ _ 0⟩
  entries_remove state key := by
    cases state with
    | none => rfl
    | some entry => by_cases same : entry.1 = key <;> simp [same, Option.filter]
  entries_purge state := by simp

end EvictingCache
