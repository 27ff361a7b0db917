import Zongzi.Proofs.ShardEffects

/-! # Shard names

The name index answers for a shard only while no other shard has written the same name. A post looks
the name up first and a touch keeps the name it finds, so neither can introduce a second holder. A
put writes whatever name the command carries. Names therefore identify shards all along a run exactly
when every put that takes effect carries a name no other shard holds.
-/

namespace Zongzi

open Std SecondaryIndex ExceptFold Machine

namespace State

variable {state next : State}

/-- No two shards share a name, and every named shard is found by its name. -/
def NamesIdentify (state : State) : Prop :=
  (∀ id other left right, state.shard id = some left → state.shard other = some right →
    left.name ≠ "" → left.name = right.name → id = other) ∧
  ∀ id shard, state.shard id = some shard → shard.name ≠ "" →
    state.shardFindByName shard.name = some shard

/-- No other shard holds the name of this one. -/
def NameFree (state : State) (shard : Shard) : Prop :=
  shard.name ≠ "" → ∀ id other, state.shard id = some other → other.name = shard.name → id = shard.id

theorem mem_nameKeys {shard : Shard} {name : String} :
    name ∈ shard.nameKeys ↔ shard.name = name ∧ name ≠ "" := by
  unfold Shard.nameKeys
  split
  · next unnamed =>
    simp only [List.not_mem_nil, unnamed, false_iff]
    rintro ⟨rfl, named⟩
    exact named rfl
  · next named =>
    rw [List.mem_singleton]
    constructor
    · rintro rfl
      exact ⟨rfl, named⟩
    · rintro ⟨rfl, -⟩
      rfl

/-- Names identify shards exactly when the name index is complete. -/
theorem namesIdentify_iff_complete :
    state.NamesIdentify ↔ Complete Shard.id Shard.nameKeys state.shards.id state.shards.name := by
  constructor
  · rintro ⟨-, findable⟩ shard stored name filed
    obtain ⟨rfl, named⟩ := mem_nameKeys.mp filed
    exact findable shard.id shard stored named
  · intro complete
    have findable : ∀ id shard, state.shard id = some shard → shard.name ≠ "" →
        state.shardFindByName shard.name = some shard := by
      intro id shard stored named
      have atId := shard_id stored
      subst atId
      exact complete shard stored shard.name (mem_nameKeys.mpr ⟨rfl, named⟩)
    refine ⟨?_, findable⟩
    intro id other left right atId atOther named same
    have found := findable id left atId named
    rw [same, findable other right atOther (same ▸ named)] at found
    cases found
    rw [← shard_id atId, ← shard_id atOther]

theorem namesIdentify_empty : ({} : State).NamesIdentify :=
  namesIdentify_iff_complete.mpr mirrors_empty.complete

theorem NamesIdentify.of_shards (names : state.NamesIdentify) (same : next.shards = state.shards) :
    next.NamesIdentify := by
  simpa only [NamesIdentify, State.shard, shardFindByName, same] using names

theorem NamesIdentify.shardPut (names : state.NamesIdentify) (shard : Shard)
    (free : state.NameFree shard) : (state.shardPut shard).NamesIdentify := by
  rw [namesIdentify_iff_complete] at names ⊢
  refine names.refile state.shards.keyed shard ?_
  intro other stored different name filed taken
  obtain ⟨rfl, named⟩ := mem_nameKeys.mp filed
  exact different (free named other.id other stored (mem_nameKeys.mp taken).1)

/-- A put that leaves the names identified wrote a free name. -/
theorem NamesIdentify.free {shard : Shard} (names : (state.shardPut shard).NamesIdentify) :
    state.NameFree shard := by
  intro named id other stored same
  by_contra different
  refine different (names.1 id shard.id other shard ?_ ?_ (same ▸ named) same)
  · rw [shard_shardPut, if_neg (Ne.symm different)]
    exact stored
  · rw [shard_shardPut, if_pos rfl]

/-- Writing a stored shard back under its own name keeps the names. -/
theorem NamesIdentify.rewrite (names : state.NamesIdentify) (shard : Shard) {stored : Shard} {id : ℕ}
    (found : state.shard id = some stored) (atId : shard.id = stored.id)
    (name : shard.name = stored.name) : (state.shardPut shard).NamesIdentify := by
  apply names.shardPut
  intro named other holder present same
  rw [atId, shard_id found]
  exact names.1 other id holder stored present found (same ▸ named) (same.trans name)

theorem NamesIdentify.shardDelete (names : state.NamesIdentify) (shard : Shard) :
    (state.shardDelete shard).NamesIdentify := by
  rw [namesIdentify_iff_complete] at names ⊢
  simp only [State.shardDelete, ShardTable.delete]
  split
  · exact names
  · next stored => exact names.unfile state.shards.keyed stored

end State

namespace Fsm

open State ShardTable

variable {state next : State} {entry : Entry}

/-- A put that takes effect carries a name no other shard holds. -/
def PutsFreeName (state : State) (entry : Entry) : Prop :=
  ∀ shard, entry.cmd = .shard .put shard →
    (state.shard shard.id).isSome ∨ shard.id = 0 ∧ state.shardID = 0 → state.NameFree shard

theorem namesIdentify_of_touched {index : ℕ} (names : state.NamesIdentify)
    (touches : Touched index state.shards next.shards) : next.NamesIdentify := by
  generalize last : next.shards = table at touches
  induction touches generalizing next with
  | refl => exact names.of_shards last
  | @touch middle id shard before found ih =>
    have kept : { state with shards := middle }.NamesIdentify := ih rfl
    exact (kept.rewrite { shard with updated := index } found rfl rfl).of_shards last

/-- A written put keeps the names exactly when its name is free. -/
theorem namesIdentify_put (names : state.NamesIdentify) {shard : Shard} (written : Shard)
    (cmd : entry.cmd = .shard .put shard) (atId : written.id = shard.id)
    (name : written.name = shard.name)
    (effective : (state.shard shard.id).isSome ∨ shard.id = 0 ∧ state.shardID = 0)
    (stored : next.shards = (state.shardPut written).shards) :
    next.NamesIdentify ↔ PutsFreeName state entry := by
  have same : state.NameFree written ↔ state.NameFree shard := by
    simp only [NameFree, atId, name]
  constructor
  · intro kept other again _
    cases cmd.symm.trans again
    exact same.mp (kept.of_shards stored.symm).free
  · intro free
    exact (names.shardPut written (same.mpr (free shard cmd effective))).of_shards stored

theorem putsFreeName_of_other (other : ∀ shard, entry.cmd ≠ .shard .put shard) :
    PutsFreeName state entry :=
  fun shard cmd => absurd cmd (other shard)

/-- A post only writes a name it did not find. -/
theorem nameFree_of_absent (names : state.NamesIdentify) (shard : Shard)
    (free : shard.name = "" ∨ state.shards.name[shard.name]? = none) : state.NameFree shard := by
  intro named id holder stored same
  obtain unnamed | absent := free
  · exact absurd unnamed named
  · have found := names.2 id holder stored (same ▸ named)
    rw [same] at found
    cases absent.symm.trans found

/-- One entry keeps the names exactly when it does not put a taken one. -/
theorem namesIdentify_step (names : state.NamesIdentify) (applied : Applies state entry next) :
    next.NamesIdentify ↔ PutsFreeName state entry := by
  obtain ⟨result, updated⟩ := applied
  have effect := update_shards updated
  generalize last : next.shards = table at effect
  cases effect with
  | touched touches put =>
    exact iff_of_true (namesIdentify_of_touched names (last ▸ touches)) (putsFreeName_of_other put)
  | taken cmd => exact iff_of_true (names.of_shards last) (putsFreeName_of_other (by simp [cmd]))
  | @posted shard cmd free =>
    refine iff_of_true ?_ (putsFreeName_of_other (by simp [cmd]))
    have nameFree := nameFree_of_absent names { shard with
      id := (state.shardID + 1) % 2 ^ 64, created := entry.index, updated := entry.index } free
    exact (names.shardPut _ nameFree).of_shards last
  | @refused shard cmd absent prime =>
    refine iff_of_true (names.of_shards last) ?_
    intro other same effective
    cases cmd.symm.trans same
    obtain present | first := effective
    · simp [State.shard, absent] at present
    · exact absurd first prime
  | @replaced shard old tags changed cmd found merged =>
    exact namesIdentify_put names { shard with created := old.created, tags, updated := entry.index }
      cmd rfl rfl (.inl (by simp [State.shard, found])) last
  | @primed shard cmd absent prime first =>
    exact namesIdentify_put names { shard with created := entry.index, updated := entry.index }
      cmd rfl rfl (.inr ⟨prime, first⟩) last
  | @statusUpdated shard stored cmd found =>
    refine iff_of_true ?_ (putsFreeName_of_other (by simp [cmd]))
    exact (names.rewrite { stored with status := shard.status, updated := entry.index } found rfl
      rfl).of_shards last
  | @leaderSet shard stored cmd found =>
    refine iff_of_true ?_ (putsFreeName_of_other (by simp [cmd]))
    exact (names.rewrite { stored with
      leader := shard.leader, term := shard.term, updated := entry.index } found rfl rfl).of_shards last
  | @tagged action shard stored tags fn cmd put post found changed =>
    refine iff_of_true ?_ (putsFreeName_of_other (by simp [cmd, put]))
    exact (names.rewrite { stored with tags } found rfl rfl).of_shards last
  | deleted cmd found =>
    refine iff_of_true ?_ (putsFreeName_of_other (by simp [cmd]))
    exact (names.shardDelete _).of_shards last

/-- A log without shard puts puts no taken name. -/
theorem alwaysStep_putsFreeName {state : State} {log : List Entry}
    (other : ∀ entry ∈ log, ∀ shard, entry.cmd ≠ .shard .put shard) :
    AlwaysStep Applies state log PutsFreeName := by
  intro front entry back _ split _
  exact putsFreeName_of_other (other entry (by simp [split]))

/-- Names identify shards in every state of a run exactly when every put of the run that takes
effect carries a free name. -/
theorem names_identify_shards_iff {log : List Entry} {last : State} {results : List Result}
    (ran : run {} log = .ok (last, results)) :
    Always Applies {} log State.NamesIdentify ↔ AlwaysStep Applies {} log PutsFreeName :=
  always_iff applies_determined (path_iff_run.mpr ⟨results, ran⟩) namesIdentify_empty
    fun _ _ _ _ _ _ _ names applied => namesIdentify_step names applied

/-- A deleted name can be posted again. -/
theorem names_identify_after_repost :
    Always Applies {} [{ index := 1, cmd := newCmdShardPost { name := "a" } },
      { index := 2, cmd := newCmdShardDel 1 }, { index := 3, cmd := newCmdShardPost { name := "a" } }]
      State.NamesIdentify := by
  refine (names_identify_shards_iff rfl).mpr (alwaysStep_putsFreeName ?_)
  simp [newCmdShardPost, newCmdShardDel]

/-- The second of two shards is renamed to the name of the first. -/
def renameLog : List Entry :=
  [{ index := 1, cmd := newCmdShardPost { name := "a" } },
   { index := 2, cmd := newCmdShardPost { name := "b" } },
   { index := 3, cmd := newCmdShardPut { id := 2, name := "a" } }]

/-- After the rename both shards hold the name. -/
theorem renamed_shards_share_name :
    ∃ last results, run {} renameLog = .ok (last, results) ∧ ¬ last.NamesIdentify := by
  refine ⟨_, _, rfl, ?_⟩
  rintro ⟨distinct, -⟩
  exact absurd (distinct 1 2 _ _ rfl rfl (by decide) rfl) (by decide)

end Fsm

end Zongzi
