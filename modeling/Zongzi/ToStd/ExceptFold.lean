import Mathlib

/-! # Successes and failures of computations in `Except`

A successful bind succeeded twice, and a successful monadic fold preserves what each of its
successful steps preserves. `FailsOnly` bounds the failures of a computation by those of its parts.
Core states none of these for `Except`.
-/

namespace ExceptFold

variable {ε α β σ : Type}

theorem bind_eq_ok_iff {first : Except ε α} {next : α → Except ε β} {value : β} :
    (first >>= next) = .ok value ↔ ∃ middle, first = .ok middle ∧ next middle = .ok value := by
  cases first with
  | error failure => simp [bind, Except.bind]
  | ok middle => simp [bind, Except.bind]

theorem pure_eq_ok_iff {value expected : α} :
    (pure value : Except ε α) = .ok expected ↔ value = expected := by
  simp [pure, Except.pure]

theorem map_eq_ok_iff {change : α → β} {computation : Except ε α} {value : β} :
    (change <$> computation) = .ok value ↔ ∃ result, computation = .ok result ∧ change result = value := by
  cases computation with
  | error failure => simp [Functor.map, Except.map]
  | ok result => simp [Functor.map, Except.map]

theorem toOption_eq_some_iff {computation : Except ε α} {value : α} :
    computation.toOption = some value ↔ computation = .ok value := by
  cases computation with
  | error failure => simp [Except.toOption]
  | ok result => simp [Except.toOption]

/-- A bind succeeds when what its first part comes to makes the second succeed. -/
theorem bind_succeeds {first : Except ε α} {next : α → Except ε β} {good : α → Prop}
    (head : ∃ middle, first = .ok middle ∧ good middle)
    (rest : ∀ middle, good middle → ∃ value, next middle = .ok value) : ∃ value, (first >>= next) = .ok value := by
  obtain ⟨middle, rfl, held⟩ := head
  exact rest middle held

/-- What every successful step preserves, a successful fold preserves. -/
theorem foldlM_invariant {step : σ → α → Except ε σ} {items : List α} {source target : σ}
    (invariant : σ → Prop) (folded : items.foldlM step source = .ok target)
    (initial : invariant source)
    (preserved : ∀ item ∈ items, ∀ before after, invariant before → step before item = .ok after →
      invariant after) : invariant target := by
  induction items generalizing source with
  | nil =>
    cases folded
    exact initial
  | cons item rest ih =>
    rw [List.foldlM_cons, bind_eq_ok_iff] at folded
    obtain ⟨middle, stepped, folded⟩ := folded
    exact ih folded (preserved item (List.mem_cons_self ..) source middle initial stepped)
      (fun other member => preserved other (List.mem_cons_of_mem _ member))

/-- The same rule with the items that were folded. -/
theorem foldlM_front {step : σ → α → Except ε σ} {items : List α} {source target : σ}
    (invariant : List α → σ → Prop) (folded : items.foldlM step source = .ok target)
    (initial : invariant [] source)
    (preserved : ∀ front item back before after, items = front ++ item :: back → invariant front before →
      step before item = .ok after → invariant (front ++ [item]) after) : invariant items target := by
  suffices folds : ∀ front back state, items = front ++ back → invariant front state →
      back.foldlM step state = .ok target → invariant items target from folds [] items source rfl initial folded
  intro front back
  induction back generalizing front with
  | nil =>
    intro state split held folded
    cases folded
    rw [split, List.append_nil]
    exact held
  | cons item back ih =>
    intro state split held folded
    rw [List.foldlM_cons, bind_eq_ok_iff] at folded
    obtain ⟨middle, stepped, folded⟩ := folded
    exact ih (front ++ [item]) middle (by simp [split]) (preserved front item back state middle split held stepped)
      folded

/-- A fold succeeds when an invariant makes each of its steps succeed. -/
theorem foldlM_succeeds {step : σ → α → Except ε σ} {items : List α} {source : σ}
    (invariant : σ → Prop) (initial : invariant source)
    (succeeds : ∀ item ∈ items, ∀ before, invariant before →
      ∃ after, step before item = .ok after ∧ invariant after) :
    ∃ target, items.foldlM step source = .ok target ∧ invariant target := by
  induction items generalizing source with
  | nil => exact ⟨source, rfl, initial⟩
  | cons item rest ih =>
    obtain ⟨middle, stepped, kept⟩ := succeeds item (List.mem_cons_self ..) source initial
    obtain ⟨target, folded, last⟩ :=
      ih kept (fun other member => succeeds other (List.mem_cons_of_mem _ member))
    exact ⟨target, by rw [List.foldlM_cons, stepped]; exact folded, last⟩

theorem foldlM_ne_error {step : σ → α → Except ε σ} {items : List α} {source : σ} {failure : ε}
    (invariant : σ → Prop) (initial : invariant source)
    (succeeds : ∀ item ∈ items, ∀ before, invariant before →
      ∃ after, step before item = .ok after ∧ invariant after) :
    items.foldlM step source ≠ .error failure := by
  obtain ⟨target, folded, -⟩ := foldlM_succeeds invariant initial succeeds
  simp [folded]

/-- A fold whose steps commute does not depend on the order of its items. -/
theorem foldlM_perm {step : σ → α → Except ε σ} {items others : List α} (perm : items.Perm others)
    (commute : ∀ left ∈ items, ∀ right ∈ items, ∀ state,
      (step state left >>= fun next => step next right) = (step state right >>= fun next => step next left))
    (source : σ) : items.foldlM step source = others.foldlM step source := by
  rw [List.foldlM_eq_foldl, List.foldlM_eq_foldl]
  refine perm.foldl_eq' (fun left memberLeft right memberRight state => ?_) _
  cases state with
  | error failure => rfl
  | ok state => exact commute left memberLeft right memberRight state

/-- Every failure of a computation is one of the allowed ones. -/
def FailsOnly (allowed : ε → Prop) (computation : Except ε α) : Prop :=
  ∀ failure, computation = .error failure → allowed failure

section FailsOnly

variable {allowed : ε → Prop}

theorem FailsOnly.ok (value : α) : FailsOnly allowed (.ok value : Except ε α) := by
  intro failure failed
  cases failed

theorem FailsOnly.error {failure : ε} (permitted : allowed failure) :
    FailsOnly allowed (.error failure : Except ε α) := by
  intro other failed
  cases failed
  exact permitted

theorem FailsOnly.of_succeeds {computation : Except ε α} {value : α}
    (succeeds : computation = .ok value) : FailsOnly allowed computation :=
  succeeds ▸ .ok value

theorem FailsOnly.bind {first : Except ε α} {next : α → Except ε β} (head : FailsOnly allowed first)
    (rest : ∀ value, first = .ok value → FailsOnly allowed (next value)) :
    FailsOnly allowed (first >>= next) := by
  cases first with
  | error failure => exact .error (head failure rfl)
  | ok value => exact rest value rfl

theorem FailsOnly.foldlM {step : σ → α → Except ε σ} {items : List α}
    (steps : ∀ item ∈ items, ∀ state, FailsOnly allowed (step state item)) (source : σ) :
    FailsOnly allowed (items.foldlM step source) := by
  induction items generalizing source with
  | nil => exact .ok source
  | cons item rest ih =>
    rw [List.foldlM_cons]
    exact .bind (steps item (List.mem_cons_self ..) source) fun middle _ =>
      ih (fun other member => steps other (List.mem_cons_of_mem _ member)) middle

end FailsOnly

end ExceptFold
