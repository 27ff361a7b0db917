import Zongzi.Model.ShardUpdate
import Zongzi.Proofs.Cluster
import Zongzi.Proofs.LedgerRefinement
import Zongzi.Proofs.References
import Zongzi.Proofs.Tags

/-! # Two updates of one shard

`ShardUpdate` puts back the whole record that it has read. The state machine keeps the tags that the put does
not name, but it cannot tell a tag that the caller has set from one that it has only read. So the put of one
update takes back what the other has set wherever the shard had another value before, and nothing is lost in any
interleaving exactly when there was none.
-/

namespace Zongzi

open Std Machine Fsm ExceptFold

section Put

variable {state next : State} {record stored : Shard} {index : ℕ} {result : Result}

theorem tagsSetNX_succeeds {new old : Tags} (written : new.isSome ∨ old = none) :
    ∃ merged, tagsSetNX new old = .ok merged := by
  obtain present | rfl := written
  · obtain ⟨merged, folded, -⟩ : ∃ merged, tagsSetNX new old = .ok merged ∧ merged.1.isSome := by
      refine foldlM_succeeds (fun state : Tags × Bool => state.1.isSome) present ?_
      rintro ⟨key, value⟩ - ⟨tags, written⟩ present
      dsimp only
      split
      · exact ⟨_, rfl, present⟩
      · obtain ⟨tagMap, rfl⟩ := Option.isSome_iff_exists.mp present
        exact ⟨_, rfl, rfl⟩
    exact ⟨merged, folded⟩
  · exact ⟨_, rfl⟩

/-- A put of a shard that exists keeps the tags that it does not name. -/
theorem shard_of_put (found : state.shard record.id = some stored)
    (updated : update state { index, cmd := newCmdShardPut record } = .ok (next, result)) :
    ∃ new, next.shard record.id = some new ∧ new.tags.isSome = record.tags.isSome ∧
      ∀ key, lookup new.tags key = (lookup record.tags key).or (lookup stored.tags key) := by
  obtain ⟨invalid, -⟩ | ⟨middle, applied, rfl, -⟩ := update_cases updated
  · cases invalid
  · obtain ⟨absent, -⟩ | ⟨written, -, -, -, ⟨old, tags, changed, present, merged, rfl⟩ | ⟨absent, -⟩, touched, -⟩ :=
      shardCmdPut_cases applied
    · cases found.symm.trans absent
    · cases found.symm.trans present
      obtain ⟨kept, -, looked⟩ := tagsSetNX_spec merged
      have same := State.ledger_touchHosts touched
      rw [State.ledger_shardPut] at same
      have here := congrArg (fun ledger => ledger.shards record.id) same
      exact ⟨_, here.trans (Function.update_self ..), kept, looked⟩
    · cases found.symm.trans absent

/-- A put of a shard that exists panics only where tags would be written to a nil map. -/
theorem put_succeeds (hosted : state.topology.Hosted) (found : state.shard record.id = some stored)
    (written : record.tags.isSome ∨ stored.tags = none) (index : ℕ) :
    ∃ next result, update state { index, cmd := newCmdShardPut record } = .ok (next, result) := by
  obtain ⟨⟨tags, changed⟩, merged⟩ := tagsSetNX_succeeds written
  have listed : ∀ replica ∈ (state.shardPut { record with created := stored.created, tags, updated := index
      }).replicaIterateByShardID record.id, (state.shardPut { record with
        created := stored.created, tags, updated := index }).topology.Hosts replica.hostID := by
    intro replica member
    rw [State.replicaIterateByShardID_eq] at member
    exact State.hosts_of_mem hosted (List.mem_of_mem_filter member)
  obtain ⟨next, touched, -⟩ := touchHosts_succeeds listed index
  have applied : apply state { index, cmd := newCmdShardPut record } =
      .ok (next, { ({ index, cmd := newCmdShardPut record } : Entry).result with value := record.id }) := by
    change shardCmdPut state _ record = _
    unfold shardCmdPut
    rw [found]
    exact bind_eq_ok_iff.mpr ⟨(tags, changed), merged, bind_eq_ok_iff.mpr ⟨next, touched, rfl⟩⟩
  exact ⟨_, _, by rw [update, if_neg nofun, applied]; rfl⟩

end Put

section Options

variable {opts : List ShardEdit} {assigned : ExtTreeMap String String}

/-- The options set these tags of a record and leave its others alone. Without a tag map they panic, or set
none. -/
structure Assigns (opts : List ShardEdit) (assigned : ExtTreeMap String String) : Prop where
  tagged : ∀ shard : Shard, shard.tags.isSome → ∃ edited, editAll opts shard = .ok edited ∧
    edited.id = shard.id ∧ edited.tags.isSome ∧
      ∀ key, lookup edited.tags key = assigned[key]?.or (lookup shard.tags key)
  untagged : ∀ shard : Shard, shard.tags = none → (∃ panic, editAll opts shard = .error panic) ∨
    assigned = ∅ ∧ ∃ edited, editAll opts shard = .ok edited ∧ edited.id = shard.id ∧ edited.tags = none

theorem assigns_nil : Assigns [] ∅ where
  tagged shard present := ⟨shard, rfl, rfl, present, by simp⟩
  untagged shard absent := .inr ⟨rfl, shard, rfl, rfl, absent⟩

theorem Assigns.withTag (assigns : Assigns opts assigned) (key value : String) :
    Assigns (WithTag key value :: opts) (assigned.insertIfNew key value) where
  tagged shard present := by
    obtain ⟨tags, tagged⟩ := Option.isSome_iff_exists.mp present
    have step : editAll (WithTag key value :: opts) shard =
        editAll opts { shard with tags := some (tags.insert key value) } := by
      rw [editAll, WithTag, tagged]
      rfl
    obtain ⟨edited, done, named, kept, looked⟩ :=
      assigns.tagged { shard with tags := some (tags.insert key value) } rfl
    refine ⟨edited, step.trans done, named, kept, fun other => ?_⟩
    rw [looked, ExtTreeMap.getElem?_insertIfNew, tagged]
    simp only [lookup, Option.bind_some, ExtTreeMap.getElem?_insert, Std.compare_eq_iff_eq]
    by_cases same : key = other
    · subst same
      cases set : assigned[key]? with
      | none =>
        have absent : key ∉ assigned := by simp [← ExtTreeMap.isSome_getElem?_iff_mem, set]
        simp [absent]
      | some old =>
        have present : key ∈ assigned := ExtTreeMap.isSome_getElem?_iff_mem.mp (by simp [set])
        simp [present]
    · simp [same]
  untagged shard absent := by
    refine .inl ⟨.nilMap, ?_⟩
    rw [editAll, WithTag, absent]
    rfl

end Options

/-- Serve the calls of an update. What it proposes is applied, also where it sees an error. -/
def Cluster.serveApplied : Serve Cluster AgentOp AgentRes Choice := fun cluster op choice =>
  match choice with
  | .failed _ => none
  | choice => Cluster.serve cluster op choice

theorem Cluster.serve_of_applied {cluster next : Cluster} {op : AgentOp} {choice : Choice} {answer : AgentRes op}
    (served : serveApplied cluster op choice = some (answer, next)) :
    serve cluster op choice = some (answer, next) ∧ ∀ err, choice ≠ .failed err := by
  cases choice with
  | failed err => cases served
  | _ => exact ⟨served, by simp⟩

/-- What an update does with the record that it has read. -/
def putBack (opts : List ShardEdit) (found : Shard) : AgentM (Except Panic (Shard × Option String)) :=
  match editAll opts found with
  | .error panic => .done (.error panic)
  | .ok shard => .call (.propose (newCmdShardPut shard)) fun
    | .error err => .done (.ok (shard, some err))
    | .ok result => .done (.ok ({ shard with id := result.value }, none))

theorem shardUpdate_eq (id : ℕ) (opts : List ShardEdit) :
    shardUpdate id opts = .call .read fun
      | .error _ => .done (.ok ({}, some ErrShardNotFound))
      | .ok snapshot =>
        match snapshot.state.shard id with
        | none => .done (.ok ({}, some ErrShardNotFound))
        | some found => putBack opts found := by
  unfold shardUpdate
  refine congrArg (Program.call AgentOp.read) (funext fun answer => ?_)
  cases answer with
  | error err => rfl
  | ok snapshot =>
    dsimp only [Program.bind]
    cases snapshot.state.shard id with
    | none => rfl
    | some found =>
      dsimp only
      rw [putBack]
      cases editAll opts found with
      | error panic => rfl
      | ok edited =>
        refine congrArg (Program.call _) (funext fun answer => ?_)
        cases answer with
        | error err => rfl
        | ok result => rfl

section Updates

variable {id : ℕ} {opts : Bool → List ShardEdit} {assigned : Bool → ExtTreeMap String String} {stored : Shard}

abbrev UpdatePool : Type := Pool Cluster Bool AgentOp AgentRes (Except Panic (Shard × Option String))

/-- Two updates of one shard. -/
def updatePool (cluster : Cluster) (id : ℕ) (opts : Bool → List ShardEdit) : UpdatePool where
  shared := cluster
  threads i := shardUpdate id (opts i)

/-- The tags have what an update has set. -/
def Holds (assigned : ExtTreeMap String String) (tags : Tags) : Prop :=
  ∀ (key value : String), assigned[key]? = some value → lookup tags key = some value

/-- The tags can be written, and none that an update sets has another value. -/
def Fits (assigned : Bool → ExtTreeMap String String) (tags : Tags) : Prop :=
  ∀ i (key value : String), (assigned i)[key]? = some value →
    ∃ tagMap, tags = some tagMap ∧ ∀ old ∈ tagMap[key]?, old = value

theorem Fits.lookup_eq {tags : Tags} (fits : Fits assigned tags) {i : Bool} {key value : String}
    (sets : (assigned i)[key]? = some value) : lookup tags key = none ∨ lookup tags key = some value := by
  obtain ⟨tagMap, rfl, only⟩ := fits i key value sets
  change tagMap[key]? = none ∨ tagMap[key]? = some value
  cases looked : tagMap[key]? with
  | none => exact .inl rfl
  | some old => exact .inr (congrArg some (only old looked))

theorem Fits.of_lookup {tags : Tags} (present : tags.isSome) (fits : ∀ i (key value : String),
    (assigned i)[key]? = some value → lookup tags key = none ∨ lookup tags key = some value) :
    Fits assigned tags := by
  obtain ⟨tagMap, rfl⟩ := Option.isSome_iff_exists.mp present
  refine fun i key value sets => ⟨tagMap, rfl, fun old looked => ?_⟩
  obtain absent | same := fits i key value sets
  · cases looked.symm.trans absent
  · exact Option.some.inj (looked.symm.trans same)

/-- Tags that fit are merged to tags that fit. -/
theorem Fits.merge {record tags merged : Tags} (left : Fits assigned record) (right : Fits assigned tags)
    (kept : merged.isSome = record.isSome)
    (looked : ∀ key, lookup merged key = (lookup record key).or (lookup tags key)) : Fits assigned merged := by
  intro i key value sets
  obtain ⟨tagMap, rfl, -⟩ := left i key value sets
  suffices fits : Fits assigned merged from fits i key value sets
  refine .of_lookup kept fun i key value sets => ?_
  rw [looked]
  obtain absent | same := left.lookup_eq sets
  · rw [absent, Option.none_or]
    exact right.lookup_eq sets
  · rw [same]
    exact .inr rfl

/-- A put that fits keeps what is there. -/
theorem Holds.merge {i : Bool} {record tags merged : Tags} (holds : Holds (assigned i) tags)
    (fits : Fits assigned record)
    (looked : ∀ key, lookup merged key = (lookup record key).or (lookup tags key)) :
    Holds (assigned i) merged := by
  intro key value sets
  rw [looked, holds key value sets]
  obtain absent | same := fits.lookup_eq sets
  · rw [absent, Option.none_or]
  · rw [same, Option.some_or]

/-- The options turn a record that fits into one that fits and has what they set, unless they panic and set
nothing. -/
theorem Assigns.edit {i : Bool} (assigns : Assigns (opts i) (assigned i))
    (disjoint : ∀ key, key ∈ assigned i → key ∉ assigned !i) {found : Shard} (fits : Fits assigned found.tags) :
    (assigned i = ∅ ∧ ∃ panic, editAll (opts i) found = .error panic) ∨
    ∃ edited, editAll (opts i) found = .ok edited ∧ edited.id = found.id ∧ Fits assigned edited.tags ∧
      Holds (assigned i) edited.tags := by
  cases tagged : found.tags with
  | none =>
    have empty : ∀ j, assigned j = ∅ := by
      intro j
      refine ExtTreeMap.ext_getElem? fun key => ?_
      cases sets : (assigned j)[key]? with
      | none => simp
      | some value =>
        obtain ⟨tagMap, present, -⟩ := fits j key value sets
        cases tagged.symm.trans present
    obtain panics | ⟨-, edited, done, named, -⟩ := assigns.untagged found tagged
    · exact .inl ⟨empty i, panics⟩
    · refine .inr ⟨edited, done, named, fun j key value sets => ?_, fun key value sets => ?_⟩
      · simp [empty j] at sets
      · simp [empty i] at sets
  | some tags =>
    obtain ⟨edited, done, named, present, looked⟩ := assigns.tagged found (by simp [tagged])
    refine .inr ⟨edited, done, named, .of_lookup present fun j key value sets => ?_, fun key value sets => ?_⟩
    · rw [looked]
      cases own : (assigned i)[key]? with
      | none => exact fits.lookup_eq sets
      | some set =>
        have listed : key ∈ assigned i := ExtTreeMap.isSome_getElem?_iff_mem.mp (by simp [own])
        have both : key ∈ assigned j := ExtTreeMap.isSome_getElem?_iff_mem.mp (by simp [sets])
        have same : j = i := by
          by_contra different
          exact disjoint key listed (Bool.eq_not_of_ne different ▸ both)
        subst same
        exact .inr (own.symm.trans sets)
    · rw [looked, sets, Option.some_or]

/-- An update that has read the record and not yet put it back. -/
def Pending (assigned : Bool → ExtTreeMap String String) (id : ℕ) (i : Bool)
    (thread : AgentM (Except Panic (Shard × Option String))) : Prop :=
  ∃ record continue_, thread = .call (.propose (newCmdShardPut record)) continue_ ∧
    (∀ answer, ∃ result, continue_ answer = .done result) ∧ record.id = id ∧ Fits assigned record.tags ∧
    Holds (assigned i) record.tags

/-- Every update is before its read, between its read and its put, or finished. What it has set is then in the
registry. -/
structure Merging (assigned : Bool → ExtTreeMap String String) (id : ℕ) (opts : Bool → List ShardEdit)
    (pool : UpdatePool) (stored : Shard) : Prop where
  found : pool.shared.registry.shard id = some stored
  fits : Fits assigned stored.tags
  phases : ∀ i, pool.threads i = shardUpdate id (opts i) ∨ Pending assigned id i (pool.threads i) ∨
    (∃ result, pool.threads i = .done result) ∧ Holds (assigned i) stored.tags

def Merged (assigned : Bool → ExtTreeMap String String) (id : ℕ) (opts : Bool → List ShardEdit)
    (pool : UpdatePool) : Prop :=
  ∃ stored, Merging assigned id opts pool stored

/-- What `putBack` leaves to do when the record that was read fits. -/
theorem putBack_phase {i : Bool} (assigns : Assigns (opts i) (assigned i))
    (disjoint : ∀ key, key ∈ assigned i → key ∉ assigned !i) (named : stored.id = id)
    (fits : Fits assigned stored.tags) :
    Pending assigned id i (putBack (opts i) stored) ∨
      (∃ result, putBack (opts i) stored = .done result) ∧ Holds (assigned i) stored.tags := by
  obtain ⟨empty, panic, panics⟩ | ⟨edited, done, same, kept, holds⟩ := assigns.edit disjoint fits
  · refine .inr ⟨⟨.error panic, by rw [putBack, panics]⟩, fun key value sets => ?_⟩
    simp [empty] at sets
  · refine .inl ⟨edited, _, by rw [putBack, done], fun answer => ?_, same.trans named, kept, holds⟩
    cases answer with
    | error err => exact ⟨_, rfl⟩
    | ok result => exact ⟨_, rfl⟩

/-- A step of one update keeps what the other has set. -/
theorem Merging.step {pool next : UpdatePool} {label : Bool × Choice} (merging : Merging assigned id opts pool stored)
    (assigns : ∀ i, Assigns (opts i) (assigned i)) (disjoint : ∀ i key, key ∈ assigned i → key ∉ assigned !i)
    (moved : pool.Steps Cluster.serveApplied label next) : Merged assigned id opts next := by
  obtain ⟨op, continue_, answer, shared, calling, served, rfl⟩ := Pool.steps_cases moved
  obtain ⟨served, answered⟩ := Cluster.serve_of_applied served
  obtain ⟨i, choice⟩ := label
  obtain fresh | ⟨record, after, pending, last, named, fits, holds⟩ | ⟨⟨result, finished⟩, -⟩ := merging.phases i
  · rw [shardUpdate_eq] at fresh
    cases calling.symm.trans fresh
    obtain ⟨rfl, ⟨snapshot, rfl, current⟩ | fault⟩ := Cluster.serve_read_cases served
    · refine ⟨stored, merging.found, merging.fits, fun j => ?_⟩
      by_cases same : j = i
      · subst same
        simp only [Function.update_self, current, merging.found]
        exact .inr (putBack_phase (assigns j) (disjoint j) (State.shard_id merging.found) merging.fits)
      · simp only [Function.update_of_ne same]
        exact merging.phases j
    · cases choice with
      | failed err => exact absurd rfl (answered err)
      | timedOut index err => cases served
      | _ => cases fault
  · cases calling.symm.trans pending
    subst named
    obtain ⟨index, registry, result, -, updated, rfl, -⟩ | ⟨-, skipped, -, fault⟩ := Cluster.serve_propose_cases served
    · obtain ⟨new, here, kept, looked⟩ := shard_of_put merging.found updated
      refine ⟨new, here, fits.merge merging.fits kept looked, fun j => ?_⟩
      by_cases same : j = i
      · subst same
        obtain ⟨final, finished⟩ := last answer
        refine .inr (.inr ⟨⟨final, by simpa using finished⟩, fun key value sets => ?_⟩)
        rw [looked, holds key value sets, Option.some_or]
      · simp only [Function.update_of_ne same]
        obtain fresh | pending | ⟨finished, there⟩ := merging.phases j
        · exact .inl fresh
        · exact .inr (.inl pending)
        · exact .inr (.inr ⟨finished, there.merge fits looked⟩)
    · cases choice with
      | failed err => exact absurd rfl (answered err)
      | timedOut index err => cases skipped
      | _ => cases fault
  · cases calling.symm.trans finished

theorem Merged.path {pool last : UpdatePool} {labels : List (Bool × Choice)} (merged : Merged assigned id opts pool)
    (assigns : ∀ i, Assigns (opts i) (assigned i)) (disjoint : ∀ i key, key ∈ assigned i → key ∉ assigned !i)
    (path : Path (Pool.Steps Cluster.serveApplied) pool labels last) : Merged assigned id opts last :=
  path.invariant merged fun _ _ _ _ ⟨_, merging⟩ moved => merging.step assigns disjoint moved

section Solo

variable (pool : UpdatePool) (opts) {i : Bool}

/-- An update that has not begun can read. -/
theorem reads_step (fresh : pool.threads i = shardUpdate id (opts i))
    (found : pool.shared.registry.shard id = some stored) :
    pool.Steps Cluster.serveApplied (i, .snapshot fun _ => [])
      { pool with threads := Function.update pool.threads i (putBack (opts i) stored) } := by
  unfold Pool.Steps Pool.step
  rw [fresh, shardUpdate_eq]
  simp [Cluster.serveApplied, Cluster.serve, found]

/-- A record that was read and changed can be put. -/
theorem puts_step {found record : Shard} (waiting : pool.threads i = putBack (opts i) found)
    (edited : editAll (opts i) found = .ok record) (hosted : pool.shared.registry.topology.Hosted)
    (present : pool.shared.registry.shard record.id = some stored) (written : record.tags.isSome ∨ stored.tags = none) :
    ∃ label next new, pool.Steps Cluster.serveApplied label next ∧ (∃ result, next.threads i = .done result) ∧
      next.threads (!i) = pool.threads (!i) ∧ next.shared.registry.topology.Hosted ∧
      next.shared.registry.shard record.id = some new ∧ new.tags.isSome = record.tags.isSome ∧
      ∀ key, lookup new.tags key = (lookup record.tags key).or (lookup stored.tags key) := by
  obtain ⟨registry, result, updated⟩ := put_succeeds hosted present written (pool.shared.registry.index + 1)
  have applied : pool.shared.apply (pool.shared.registry.index + 1) (newCmdShardPut record) =
      some (result, { pool.shared with registry }) :=
    Cluster.apply_eq_some_iff.mpr ⟨Nat.lt_succ_self _, registry, updated, rfl⟩
  obtain ⟨new, here, kept, looked⟩ := shard_of_put present updated
  refine ⟨(i, .applied (pool.shared.registry.index + 1)), ⟨{ pool.shared with registry }, Function.update pool.threads i
    (.done (.ok ({ record with id := result.value }, none)))⟩, new, ?_, ⟨_, Function.update_self ..⟩,
    Function.update_of_ne (by simp) .., (update_refines updated).hosted hosted, here, kept, looked⟩
  unfold Pool.Steps Pool.step
  rw [waiting, putBack, edited]
  simp [Cluster.serveApplied, Cluster.serve, applied]

/-- An update can run to its end alone. A shard without a tag map keeps none. -/
theorem solo_update (assigns : Assigns (opts i) (assigned i)) (fresh : pool.threads i = shardUpdate id (opts i))
    (hosted : pool.shared.registry.topology.Hosted) (found : pool.shared.registry.shard id = some stored) :
    ∃ labels next new, Path (Pool.Steps Cluster.serveApplied) pool labels next ∧
      (∃ result, next.threads i = .done result) ∧ next.threads (!i) = pool.threads (!i) ∧
      next.shared.registry.topology.Hosted ∧ next.shared.registry.shard id = some new ∧
      (stored.tags = none → new.tags = none) := by
  have read := reads_step opts pool fresh found
  let reading : UpdatePool := { pool with threads := Function.update pool.threads i (putBack (opts i) stored) }
  have named := State.shard_id found
  have other : ∀ program, Function.update pool.threads i program (!i) = pool.threads (!i) :=
    fun _ => Function.update_of_ne (by simp) ..
  have ends : (∃ edited, editAll (opts i) stored = .ok edited ∧ edited.id = stored.id ∧
      edited.tags.isSome = stored.tags.isSome) ∨ ∃ panic, editAll (opts i) stored = .error panic := by
    cases tagged : stored.tags with
    | none =>
      obtain panics | ⟨-, edited, done, same, untagged⟩ := assigns.untagged stored tagged
      · exact .inr panics
      · exact .inl ⟨edited, done, same, by rw [untagged]⟩
    | some tags =>
      obtain ⟨edited, done, same, present, -⟩ := assigns.tagged stored (by simp [tagged])
      exact .inl ⟨edited, done, same, present⟩
  obtain ⟨edited, done, same, kept⟩ | ⟨panic, panics⟩ := ends
  · have atID : edited.id = id := same.trans named
    subst atID
    have written : edited.tags.isSome ∨ stored.tags = none := by
      rw [kept]
      cases stored.tags with
      | none => exact .inr rfl
      | some tags => exact .inl rfl
    obtain ⟨label, next, new, put, finished, untouched, still, here, merged, -⟩ :=
      puts_step opts reading (Function.update_self ..) done hosted found written
    refine ⟨_, next, new, Path.cons_iff.mpr ⟨_, read, Path.singleton_iff.mpr put⟩, finished, untouched.trans (other _),
      still, here, fun absent => ?_⟩
    rwa [kept, absent, Option.isSome_none, Option.isSome_eq_false_iff, Option.isNone_iff_eq_none] at merged
  · refine ⟨_, _, stored, Path.singleton_iff.mpr read, ⟨.error panic, ?_⟩, other _, hosted, found, fun absent => absent⟩
    simp [putBack, panics]

end Solo

/-- Two updates that set different tags are both kept, whatever their interleaving, exactly when the shard had a
tag map and none of these tags with another value. -/
theorem disjoint_updates_kept {cluster : Cluster} {log : List Entry} {results : List Result}
    (ran : Fsm.run {} log = .ok (cluster.registry, results)) (found : cluster.registry.shard id = some stored)
    (assigns : ∀ i, Assigns (opts i) (assigned i)) (disjoint : ∀ i key, key ∈ assigned i → key ∉ assigned !i) :
    (∀ labels last, Path (Pool.Steps Cluster.serveApplied) (updatePool cluster id opts) labels last →
      (∀ i, ∃ result, last.threads i = .done result) →
      ∃ shard, last.shared.registry.shard id = some shard ∧ ∀ i, Holds (assigned i) shard.tags) ↔
    Fits assigned stored.tags := by
  have hosted : cluster.registry.topology.Hosted := hosted_of_run ran
  constructor
  · intro kept i key value sets
    cases tagged : stored.tags with
    | none =>
      -- Each update panics or puts a record without tags.
      obtain ⟨first, middle, new, ran, ended, waits, hosted, here, untagged⟩ :=
        solo_update opts (updatePool cluster id opts) (assigns false) rfl hosted found
      obtain ⟨second, last, final, runs, finished, kept', -, there, still⟩ :=
        solo_update opts middle (assigns true) waits hosted here
      obtain ⟨shard, present, holds⟩ := kept _ last (Path.append_iff.mpr ⟨_, ran, runs⟩) fun
        | false => ended.imp fun _ done => kept'.trans done
        | true => finished
      cases there.symm.trans present
      have looked := holds i key value sets
      rw [still (untagged tagged)] at looked
      cases looked
    | some tags =>
      -- The other update reads first and puts last.
      refine ⟨tags, rfl, fun old looked => ?_⟩
      obtain ⟨edited, done, same, present, looks⟩ := assigns (!i) |>.tagged stored (by simp [tagged])
      have read := reads_step opts (updatePool cluster id opts) (i := !i) rfl found
      let reading : UpdatePool :=
        ⟨cluster, Function.update (fun j => shardUpdate id (opts j)) (!i) (putBack (opts !i) stored)⟩
      have fresh : reading.threads i = shardUpdate id (opts i) := by simp [reading]
      obtain ⟨labels, middle, new, ran, ended, waits, hosted, here, -⟩ :=
        solo_update opts reading (assigns i) fresh hosted found
      have atID : edited.id = id := same.trans (State.shard_id found)
      subst atID
      obtain ⟨label, last, final, put, finished, untouched, -, there, -, merged⟩ :=
        puts_step opts middle (waits.trans (by simp [reading])) done hosted here (.inl present)
      obtain ⟨shard, present, holds⟩ := kept _ last
        (Path.cons_iff.mpr ⟨_, read, Path.snoc_iff.mpr ⟨_, ran, put⟩⟩) fun j => by
          by_cases own : j = i
          · subst own
            rw [Bool.not_not] at untouched
            exact ended.imp fun _ done => untouched.trans done
          · rw [Bool.eq_not_of_ne own]
            exact finished
      cases there.symm.trans present
      have final := holds i key value sets
      have unset : (assigned !i)[key]? = none := by
        have listed : key ∈ assigned i := ExtTreeMap.isSome_getElem?_iff_mem.mp (by simp [sets])
        simpa using disjoint i key listed
      rw [merged, looks, unset, Option.none_or, tagged] at final
      change (tags[key]?.or _) = _ at final
      rw [Option.mem_def.mp looked, Option.some_or] at final
      exact Option.some.inj final
  · intro fits labels last path finished
    have initial : Merged assigned id opts (updatePool cluster id opts) :=
      ⟨stored, found, fits, fun _ => .inl rfl⟩
    obtain ⟨new, merging⟩ := initial.path assigns disjoint path
    refine ⟨new, merging.found, fun i => ?_⟩
    obtain ⟨result, done⟩ := finished i
    obtain fresh | ⟨record, after, pending, -⟩ | ⟨-, holds⟩ := merging.phases i
    · rw [done, shardUpdate_eq] at fresh
      cases fresh
    · cases done.symm.trans pending
    · exact holds

/-- One update sets a tag, and one sets another. -/
def pairOpts : Bool → List ShardEdit
  | false => [WithTag "a" "x"]
  | true => [WithTag "b" "y"]

def pairAssigned : Bool → ExtTreeMap String String
  | false => (∅ : ExtTreeMap String String).insertIfNew "a" "x"
  | true => (∅ : ExtTreeMap String String).insertIfNew "b" "y"

/-- A shard with these tags. -/
def taggedLog (tags : TagMap) : List Entry :=
  [{ index := 1, cmd := newCmdShardPost { newShard "kv" with tags := some tags } }]

/-- Both updates of a shard without tags are kept. -/
theorem blank_shard_updates : ∃ registry results shard, Fsm.run {} (taggedLog ∅) = .ok (registry, results) ∧
    registry.shard 1 = some shard ∧ Fits pairAssigned shard.tags ∧
    ∀ labels last, Path (Pool.Steps Cluster.serveApplied) (updatePool ⟨registry, fun _ => {}⟩ 1 pairOpts) labels last →
      (∀ i, ∃ result, last.threads i = .done result) →
      ∃ shard, last.shared.registry.shard 1 = some shard ∧ ∀ i, Holds (pairAssigned i) shard.tags := by
  obtain ⟨⟨registry, results⟩, ran, shard, found, tags, present, empty⟩ :
      ∃ reached ∈ (Fsm.run {} (taggedLog ∅)).toOption, ∃ shard ∈ reached.1.shard 1, ∃ tags ∈ shard.tags,
        tags.isEmpty := by
    decide +kernel
  have ran := toOption_eq_some_iff.mp ran
  have fits : Fits pairAssigned shard.tags := by
    refine fun i key value _ => ⟨tags, present, fun old looked => ?_⟩
    rw [ExtTreeMap.isEmpty_iff.mp empty] at looked
    simp at looked
  have assigns : ∀ i, Assigns (pairOpts i) (pairAssigned i)
    | false => assigns_nil.withTag "a" "x"
    | true => assigns_nil.withTag "b" "y"
  have disjoint : ∀ i key, key ∈ pairAssigned i → key ∉ pairAssigned !i := by
    rintro (_ | _) key <;> simp [pairAssigned] <;> rintro rfl <;> decide
  let cluster : Cluster := ⟨registry, fun _ => {}⟩
  have ran' : Fsm.run {} (taggedLog ∅) = .ok (cluster.registry, results) := ran
  exact ⟨registry, results, shard, ran, found, fits, (disjoint_updates_kept ran' found assigns disjoint).mpr fits⟩

/-- The tags of the shard when both updates have read before either puts. -/
def tagsAfterBoth (tags : TagMap) : Option (List (String × String)) := do
  let (registry, _) ← (Fsm.run {} (taggedLog tags)).toOption
  let pool ← (updatePool ⟨registry, fun _ => {}⟩ 1 pairOpts).run Cluster.serveApplied
    [(true, .snapshot fun _ => []), (false, .snapshot fun _ => []), (false, .applied 2), (true, .applied 3)]
  match pool.threads false, pool.threads true with
  | .done _, .done _ => (pool.shared.registry.shard 1).bind fun shard => shard.tags.map ExtTreeMap.toList
  | _, _ => none

/-- The second put takes back what the first has set. -/
theorem stale_put_takes_back : tagsAfterBoth {("a", "old")} = some [("a", "old"), ("b", "y")] := by
  decide +kernel

end Updates

end Zongzi
