import Zongzi.Proofs.Cluster
import Zongzi.Proofs.Names

/-! # Concurrent creation of a named shard

Every call reads the registry before it proposes, and the state machine looks the name up again when
it applies the post. The second look rejects the post, but the rejection is only in the result, which
the caller takes for the new identifier. Calls therefore agree on one shard exactly as long as no post
is applied while a shard holds the name.
-/

namespace Zongzi

open Std SecondaryIndex Machine

/-- A name belongs to the shard with this identifier. -/
def State.NameHeldBy (state : State) (name : String) (id : ℕ) : Prop :=
  ∃ shard, state.shardFindByName name = some shard ∧ shard.id = id

theorem State.shardFindByName_shardPut_self (state : State) (shard : Shard) (named : shard.name ≠ "") :
    (state.shardPut shard).shardFindByName shard.name = some shard := by
  have filed : shard.name ∈ shard.nameKeys := State.mem_nameKeys.mpr ⟨rfl, named⟩
  exact (getElem?_refile ..).trans (if_pos filed)

theorem State.NameHeldBy.unique {state : State} {name : String} {left right : ℕ}
    (first : state.NameHeldBy name left) (second : state.NameHeldBy name right) : left = right := by
  obtain ⟨shard, found, rfl⟩ := first
  obtain ⟨other, again, rfl⟩ := second
  cases found.symm.trans again
  rfl

theorem State.nameHeldBy_of_isSome {state : State} {name : String}
    (held : state.shardFindByName name ≠ none) : ∃ id, state.NameHeldBy name id := by
  obtain ⟨shard, found⟩ := Option.ne_none_iff_exists'.mp held
  exact ⟨shard.id, shard, found, rfl⟩

namespace Fsm

variable {state next : State} {index : ℕ} {result : Result} {name : String} {id : ℕ}

/-- Touching the shard that holds a name leaves the name with it. -/
theorem nameHeldBy_touch (held : state.NameHeldBy name id)
    (updated : update state { index, cmd := newCmdShardTouch id } = .ok (next, result)) :
    next.NameHeldBy name id := by
  obtain ⟨shard, found, rfl⟩ := held
  obtain ⟨invalid, -, -⟩ | ⟨middle, applied, rfl, -⟩ := update_cases updated
  · cases invalid
  · obtain ⟨rfl, named, stored⟩ := State.shardFindByName_sound found
    have same := shards_of_touchHosts (shardCmdTouch_cases applied).1
    have touched : state.shardTouch shard.id index =
        state.shardPut { shard with updated := index } := by
      simp only [State.shardTouch, stored]
    refine ⟨{ shard with updated := index }, ?_, rfl⟩
    change middle.shards.name[shard.name]? = _
    rw [same]
    change ((state.shardTouch shard.id index).shards).name[shard.name]? = _
    rw [touched]
    exact state.shardFindByName_shardPut_self { shard with updated := index } named

/-- A post under a free name takes it. -/
theorem nameHeldBy_post {shard : Shard} (names : shard.name = name) (named : name ≠ "")
    (free : state.shardFindByName name = none)
    (updated : update state { index, cmd := newCmdShardPost shard } = .ok (next, result)) :
    next.NameHeldBy name result.value := by
  subst names
  obtain ⟨invalid, -, -⟩ | ⟨middle, applied, rfl, -⟩ := update_cases updated
  · cases invalid
  · obtain ⟨-, held, -, -⟩ | ⟨-, rfl, rfl⟩ := shardCmdPost_cases applied
    · simp [free] at held
    · exact ⟨_, State.shardFindByName_shardPut_self _ { shard with
        id := state.shardIncr.1, created := index, updated := index } named, rfl⟩

/-- A post under a name that is held changes nothing and returns zero. -/
theorem nameHeldBy_rejected {shard : Shard} (names : shard.name = name) (named : name ≠ "")
    (held : state.NameHeldBy name id)
    (updated : update state { index, cmd := newCmdShardPost shard } = .ok (next, result)) :
    next.NameHeldBy name id ∧ result.value = 0 := by
  subst names
  obtain ⟨holder, found, rfl⟩ := held
  obtain ⟨invalid, -, -⟩ | ⟨middle, applied, rfl, -⟩ := update_cases updated
  · cases invalid
  · obtain ⟨-, -, rfl, rfl⟩ | ⟨unnamed | absent, -, -⟩ := shardCmdPost_cases applied
    · exact ⟨⟨holder, found, rfl⟩, rfl⟩
    · exact absurd unnamed named
    · cases absent.symm.trans found

end Fsm

section Creation

variable {ι : Type} [DecidableEq ι]

/-- Calls of `ShardCreate` that share a cluster. -/
abbrev CreationPool (ι : Type) : Type := Pool Cluster ι AgentOp AgentRes Creation

/-- The calls to make: a uri and options that name the shard. -/
structure NamedCall (name : String) where
  uri : String
  opts : List ShardOption
  shard : Shard
  builds : applyOptions opts (newShard uri) = (shard, none)
  names : shard.name = name

/-- At most one call has created the shard, and every finished call without an error returned the
shard that holds the name. -/
structure Agree (name : String) (pool : CreationPool ι) : Prop where
  created : ∀ i j left right, pool.threads i = .done left → pool.threads j = .done right →
    left.created → right.created → i = j
  shard : ∀ i creation, pool.threads i = .done creation → creation.err = none →
    pool.shared.registry.NameHeldBy name creation.shard.id

/-- The call about to be served is not the post of a name that is held. -/
def PostsFreeName (pool : CreationPool ι) (label : ι × Choice) : Prop :=
  ∀ shard continue_, pool.threads label.1 = .call (.propose (.shard .post shard)) continue_ →
    pool.shared.registry.shardFindByName shard.name = none

/-- Where a call stands. -/
inductive Phase {name : String} (registry : State) (call : NamedCall name) : AgentM Creation → Prop
  | reading : Phase registry call (shardCreate call.uri call.opts)
  | found {shard : Shard} (held : registry.NameHeldBy name shard.id) :
      Phase registry call (touchOrPost call.shard (some shard))
  | absent : Phase registry call (touchOrPost call.shard none)
  | touched {shard : Shard} (held : registry.NameHeldBy name shard.id) :
      Phase registry call (.done ⟨shard, false, none⟩)
  | posted {id : ℕ} : Phase registry call (.done ⟨{ call.shard with id }, true, none⟩)

variable {name : String} {calls : ι → NamedCall name} {pool next : CreationPool ι}
  {label : ι × Choice}

/-- Every call stands somewhere, and where a call is about to post a name that is held by now, some
other call has created the shard. -/
structure Standing (calls : ι → NamedCall name) (pool : CreationPool ι) : Prop where
  phase : ∀ i, Phase pool.shared.registry (calls i) (pool.threads i)
  winner : ∀ i id, pool.threads i = touchOrPost (calls i).shard none →
    pool.shared.registry.NameHeldBy name id →
    ∃ j creation, pool.threads j = .done creation ∧ creation.created

theorem shardCreate_eq (call : NamedCall name) (named : name ≠ "") :
    shardCreate call.uri call.opts = .call .read fun snapshot =>
      touchOrPost call.shard (snapshot.toOption.bind (·.state.shardFindByName name)) := by
  have unnamed : call.shard.name ≠ "" := by rw [call.names]; exact named
  unfold shardCreate
  rw [call.builds]
  simp only [unnamed, ↓reduceIte, readState, Program.perform_bind]
  congr
  funext snapshot
  cases snapshot with
  | error err => rfl
  | ok snapshot => rw [call.names]; rfl

/-- The three steps a call can take: it reads, it touches what it found, or it posts. -/
theorem creation_step (named : name ≠ "") (standing : Standing calls pool)
    (moved : pool.Steps Cluster.serve label next) (noFault : label.2.isFault = false) :
    (pool.threads label.1 = shardCreate (calls label.1).uri (calls label.1).opts ∧
      next.shared.registry = pool.shared.registry ∧
      next.threads label.1 =
        touchOrPost (calls label.1).shard (pool.shared.registry.shardFindByName name)) ∨
    (∃ found index result, pool.shared.registry.NameHeldBy name found.id ∧
      pool.threads label.1 = touchOrPost (calls label.1).shard (some found) ∧
      Fsm.update pool.shared.registry { index, cmd := newCmdShardTouch found.id } =
        .ok (next.shared.registry, result) ∧
      next.threads label.1 = .done ⟨found, false, none⟩) ∨
    ∃ index result, pool.threads label.1 = touchOrPost (calls label.1).shard none ∧
      Fsm.update pool.shared.registry { index, cmd := newCmdShardPost (calls label.1).shard } =
        .ok (next.shared.registry, result) ∧
      next.threads label.1 = .done ⟨{ (calls label.1).shard with id := result.value }, true, none⟩ := by
  obtain ⟨op, continue_, answer, shared, calling, served, rfl⟩ := Pool.steps_cases moved
  have phase := standing.phase label.1
  generalize stands : pool.threads label.1 = thread at phase calling
  cases phase with
  | reading =>
    rw [shardCreate_eq _ named] at calling
    cases calling
    obtain ⟨rfl, ⟨snapshot, rfl, same⟩ | fault⟩ := Cluster.serve_read_cases served
    · refine .inl ⟨rfl, rfl, (Function.update_self ..).trans ?_⟩
      rw [← same]
      rfl
    · rw [noFault] at fault; contradiction
  | @found shard held =>
    cases calling
    obtain ⟨index, registry, result, -, updated, rfl, -, rfl | ⟨-, fault⟩⟩ | ⟨-, -, -, fault⟩ :=
      Cluster.serve_propose_cases served
    · exact .inr (.inl ⟨shard, index, result, held, rfl, updated, Function.update_self ..⟩)
    · rw [noFault] at fault; contradiction
    · rw [noFault] at fault; contradiction
  | absent =>
    cases calling
    obtain ⟨index, registry, result, -, updated, rfl, -, rfl | ⟨-, fault⟩⟩ | ⟨-, -, -, fault⟩ :=
      Cluster.serve_propose_cases served
    · exact .inr (.inr ⟨index, result, rfl, updated, Function.update_self ..⟩)
    · rw [noFault] at fault; contradiction
    · rw [noFault] at fault; contradiction
  | touched => cases calling
  | posted => cases calling

theorem Phase.mono {registry after : State} {call : NamedCall name} {thread : AgentM Creation}
    (phase : Phase registry call thread)
    (kept : ∀ id, registry.NameHeldBy name id → after.NameHeldBy name id) :
    Phase after call thread := by
  cases phase with
  | reading => exact .reading
  | found held => exact .found (kept _ held)
  | absent => exact .absent
  | touched held => exact .touched (kept _ held)
  | posted => exact .posted

/-- No step takes the name from the shard that holds it. -/
theorem nameHeldBy_step (named : name ≠ "") (standing : Standing calls pool)
    (moved : pool.Steps Cluster.serve label next) (noFault : label.2.isFault = false) {id : ℕ}
    (held : pool.shared.registry.NameHeldBy name id) : next.shared.registry.NameHeldBy name id := by
  obtain ⟨-, same, -⟩ | ⟨found, index, result, holds, -, updated, -⟩ | ⟨index, result, -, updated, -⟩ :=
    creation_step named standing moved noFault
  · rw [same]
    exact held
  · cases held.unique holds
    exact Fsm.nameHeldBy_touch holds updated
  · exact (Fsm.nameHeldBy_rejected (calls label.1).names named held updated).1

/-- The calls that do not move stay where they are. -/
theorem threads_of_ne (moved : pool.Steps Cluster.serve label next) {i : ι} (different : i ≠ label.1) :
    next.threads i = pool.threads i := by
  obtain ⟨op, continue_, answer, shared, -, -, rfl⟩ := Pool.steps_cases moved
  exact Function.update_of_ne different ..

theorem phase_step (named : name ≠ "") (standing : Standing calls pool)
    (moved : pool.Steps Cluster.serve label next) (noFault : label.2.isFault = false) (i : ι) :
    Phase next.shared.registry (calls i) (next.threads i) := by
  have kept (id : ℕ) (held : pool.shared.registry.NameHeldBy name id) :=
    nameHeldBy_step named standing moved noFault held
  by_cases same : i = label.1
  · subst same
    obtain ⟨-, registry, thread⟩ | ⟨found, index, result, holds, -, -, thread⟩ |
      ⟨index, result, -, -, thread⟩ := creation_step named standing moved noFault
    · rw [thread, registry]
      cases looked : pool.shared.registry.shardFindByName name with
      | none => exact .absent
      | some shard => exact .found ⟨shard, looked, rfl⟩
    · rw [thread]
      exact .touched (kept _ holds)
    · rw [thread]
      exact .posted
  · rw [threads_of_ne moved same]
    exact (standing.phase i).mono kept

theorem winner_step (named : name ≠ "") (standing : Standing calls pool)
    (moved : pool.Steps Cluster.serve label next) (noFault : label.2.isFault = false) {i : ι} {id : ℕ}
    (posting : next.threads i = touchOrPost (calls i).shard none)
    (held : next.shared.registry.NameHeldBy name id) :
    ∃ j creation, next.threads j = .done creation ∧ creation.created := by
  have earlier {id : ℕ} (different : i ≠ label.1) (held : pool.shared.registry.NameHeldBy name id) :
      ∃ j creation, next.threads j = .done creation ∧ creation.created := by
    rw [threads_of_ne moved different] at posting
    obtain ⟨j, creation, finished, created⟩ := standing.winner i id posting held
    exact ⟨j, creation, Pool.done_step moved finished, created⟩
  obtain ⟨-, registry, thread⟩ | ⟨found, index, result, holds, -, -, thread⟩ |
    ⟨index, result, -, -, thread⟩ := creation_step named standing moved noFault
  · rw [registry] at held
    refine earlier ?_ held
    rintro rfl
    obtain ⟨shard, looked, -⟩ := held
    rw [thread, looked] at posting
    cases posting
  · refine earlier ?_ holds
    rintro rfl
    rw [thread] at posting
    cases posting
  · exact ⟨label.1, _, thread, rfl⟩

/-- A step by which no call claims to have created the shard keeps agreement. -/
theorem agree_unclaimed (named : name ≠ "") (standing : Standing calls pool)
    (moved : pool.Steps Cluster.serve label next) (noFault : label.2.isFault = false)
    (agree : Agree name pool)
    (unclaimed : ∀ creation, next.threads label.1 = .done creation →
      creation.created = false ∧ next.shared.registry.NameHeldBy name creation.shard.id) :
    Agree name next := by
  have before {i : ι} {creation : Creation} (finished : next.threads i = .done creation)
      (created : creation.created) : pool.threads i = .done creation := by
    rw [← threads_of_ne moved]
    · exact finished
    · rintro rfl
      rw [(unclaimed creation finished).1] at created
      contradiction
  constructor
  · intro i j left right atLeft atRight createdLeft createdRight
    exact agree.created i j left right (before atLeft createdLeft) (before atRight createdRight)
      createdLeft createdRight
  · intro i creation finished noError
    by_cases same : i = label.1
    · subst same
      exact (unclaimed creation finished).2
    · rw [threads_of_ne moved same] at finished
      exact nameHeldBy_step named standing moved noFault (agree.shard i creation finished noError)

omit [DecidableEq ι] in
/-- While the name is free, no call has finished. -/
theorem unfinished_of_free (named : name ≠ "") (standing : Standing calls pool)
    (agree : Agree name pool)
    (free : pool.shared.registry.shardFindByName name = none) (i : ι) (creation : Creation) :
    pool.threads i ≠ .done creation := by
  intro finished
  have held : pool.shared.registry.NameHeldBy name creation.shard.id := by
    apply agree.shard i creation finished
    have phase := standing.phase i
    generalize pool.threads i = thread at phase finished
    cases phase with
    | reading =>
      rw [shardCreate_eq _ named] at finished
      cases finished
    | found => cases finished
    | absent => cases finished
    | touched => cases finished; rfl
    | posted => cases finished; rfl
  obtain ⟨shard, found, -⟩ := held
  cases free.symm.trans found

/-- A step keeps agreement exactly when it is not the post of a held name. -/
theorem agree_step (named : name ≠ "") (standing : Standing calls pool)
    (moved : pool.Steps Cluster.serve label next) (noFault : label.2.isFault = false)
    (agree : Agree name pool) : Agree name next ↔ PostsFreeName pool label := by
  obtain ⟨calling, -, thread⟩ | ⟨found, index, result, holds, calling, updated, thread⟩ |
    ⟨index, result, calling, updated, thread⟩ := creation_step named standing moved noFault
  · refine iff_of_true (agree_unclaimed named standing moved noFault agree ?_) ?_
    · intro creation finished
      rw [thread] at finished
      cases looked : pool.shared.registry.shardFindByName name <;> rw [looked] at finished <;>
        cases finished
    · intro shard continue_ posting
      rw [calling, shardCreate_eq _ named] at posting
      cases posting
  · refine iff_of_true (agree_unclaimed named standing moved noFault agree ?_) ?_
    · intro creation finished
      rw [thread] at finished
      cases finished
      exact ⟨rfl, Fsm.nameHeldBy_touch holds updated⟩
    · intro shard continue_ posting
      rw [calling] at posting
      cases posting
  · by_cases free : pool.shared.registry.shardFindByName name = none
    · refine iff_of_true ⟨?_, ?_⟩ ?_
      · intro i j left right atLeft atRight _ _
        have only {i : ι} {creation : Creation} (finished : next.threads i = .done creation) :
            i = label.1 := by
          by_contra different
          rw [threads_of_ne moved different] at finished
          exact unfinished_of_free named standing agree free i creation finished
        rw [only atLeft, only atRight]
      · intro i creation finished noError
        by_cases same : i = label.1
        · subst same
          rw [thread] at finished
          cases finished
          exact Fsm.nameHeldBy_post (calls label.1).names named free updated
        · rw [threads_of_ne moved same] at finished
          exact absurd finished (unfinished_of_free named standing agree free i creation)
      · intro shard continue_ posting
        rw [calling] at posting
        cases posting
        rw [(calls label.1).names]
        exact free
    · refine iff_of_false ?_ ?_
      · intro agreed
        obtain ⟨id, held⟩ := State.nameHeldBy_of_isSome free
        obtain ⟨j, creation, finished, created⟩ := standing.winner label.1 id calling held
        have same := agreed.created j label.1 creation _ (Pool.done_step moved finished) thread
          created rfl
        subst same
        cases finished.symm.trans calling
      · intro frees
        have found := frees _ _ calling
        rw [(calls label.1).names] at found
        exact free found

/-- The calls before their first step. -/
def creationPool (cluster : Cluster) (calls : ι → NamedCall name) : CreationPool ι where
  shared := cluster
  threads i := shardCreate (calls i).uri (calls i).opts

omit [DecidableEq ι] in
theorem standing_initial (named : name ≠ "") (cluster : Cluster) (calls : ι → NamedCall name) :
    Standing calls (creationPool cluster calls) := by
  refine ⟨fun i => .reading, fun i id posting => ?_⟩
  have reading := (shardCreate_eq (calls i) named).symm.trans posting
  cases reading

/-- Along every run of concurrent creations under one name in which no call fails, the calls agree on
one shard in every state exactly when no post is applied while a shard holds the name. -/
theorem concurrent_creations_agree_iff (named : name ≠ "") (cluster : Cluster)
    (calls : ι → NamedCall name) {labels : List (ι × Choice)} {last : CreationPool ι}
    (path : Path (Pool.Steps Cluster.serve) (creationPool cluster calls) labels last)
    (noFault : ∀ label ∈ labels, label.2.isFault = false) :
    Always (Pool.Steps Cluster.serve) (creationPool cluster calls) labels (Agree name) ↔
      AlwaysStep (Pool.Steps Cluster.serve) (creationPool cluster calls) labels PostsFreeName := by
  refine always_iff Pool.steps_determined path ?_ ?_
  · have unfinished (i : ι) (creation : Creation) :
        (creationPool cluster calls).threads i ≠ .done creation := by
      intro finished
      have reading := (shardCreate_eq (calls i) named).symm.trans finished
      cases reading
    exact ⟨fun i _ left _ finished => absurd finished (unfinished i left),
      fun i creation finished => absurd finished (unfinished i creation)⟩
  · intro front label back before after split reached agree moved
    subst split
    have standing : Standing calls before :=
      reached.invariant (standing_initial named cluster calls)
        fun event member _ _ standing moved =>
          have fine := noFault event (List.mem_append_left _ member)
          ⟨phase_step named standing moved fine, fun _ _ => winner_step named standing moved fine⟩
    exact agree_step named standing moved (noFault label (by simp)) agree

/-- A call with one option. -/
def exampleCall : NamedCall "a" where
  uri := "kv"
  opts := [WithName "a"]
  shard := { newShard "kv" with name := "a" }
  builds := rfl
  names := rfl

/-- Two calls with the name. -/
def examplePool : CreationPool Bool := creationPool emptyCluster fun _ => exampleCall

/-- The second call reads the shard that the first has created, and touches it. -/
def creationSteps : List (Bool × Choice) :=
  [(false, .snapshot fun _ => []), (false, .applied 1), (true, .snapshot fun _ => []), (true, .applied 2)]

/-- A posted name is looked up. -/
def postsFree (pool : CreationPool Bool) (label : Bool × Choice) : Bool :=
  match pool.threads label.1 with
  | .call (.propose (.shard .post shard)) _ => (pool.shared.registry.shardFindByName shard.name).isNone
  | _ => true

theorem postsFreeName_of_postsFree (pool : CreationPool Bool) (label : Bool × Choice) (free : postsFree pool label) :
    PostsFreeName pool label := by
  intro shard continue_ posting
  rw [postsFree, posting] at free
  exact Option.isNone_iff_eq_none.mp free

/-- Of two calls one after the other the first creates the shard, and the second returns it. -/
theorem later_creation_agrees :
    ∃ last, Path (Pool.Steps Cluster.serve) examplePool creationSteps last ∧
      (∃ creation, last.threads false = .done creation ∧ creation.shard.id = 1 ∧ creation.created) ∧
      (∃ creation, last.threads true = .done creation ∧ creation.shard.id = 1 ∧ ¬ creation.created) ∧
      Always (Pool.Steps Cluster.serve) examplePool creationSteps (Agree "a") := by
  have path : Path (Pool.Steps Cluster.serve) examplePool creationSteps _ := Pool.path_iff_run.mpr rfl
  refine ⟨_, path, ⟨_, rfl, rfl, rfl⟩, ⟨_, rfl, rfl, nofun⟩, ?_⟩
  exact (concurrent_creations_agree_iff (by decide) emptyCluster _ path (by decide)).mpr
    (.of_checks postsFreeName_of_postsFree rfl)

/-- Two calls that both read before either posts both return that they created the shard, and the
second returns the identifier zero. -/
theorem second_creation_claims_shard_zero :
    ∃ last, Path (Pool.Steps Cluster.serve) examplePool
        [(false, .snapshot fun _ => []), (true, .snapshot fun _ => []), (false, .applied 1),
          (true, .applied 2)] last ∧
      last.threads false = .done ⟨{ exampleCall.shard with id := 1 }, true, none⟩ ∧
      last.threads true = .done ⟨{ exampleCall.shard with id := 0 }, true, none⟩ ∧
      last.shared.registry.NameHeldBy "a" 1 ∧ ¬ Agree "a" last := by
  refine ⟨_, Pool.path_iff_run.mpr rfl, rfl, rfl, ⟨_, rfl, rfl⟩, ?_⟩
  intro agree
  exact absurd (agree.created false true _ _ rfl rfl rfl rfl) (by decide)

end Creation

end Zongzi
