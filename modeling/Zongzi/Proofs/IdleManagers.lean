import Zongzi.Proofs.ControllerManager
import Zongzi.Proofs.SettledShards
import Zongzi.Proofs.TagLookups

/-! # Idle managers

A controller manager is idle once its index has reached the update times of all shards. Every tick that raises the index
has found each of these shards settled, and a command that does not stamp a shard leaves it settled, unless a host is
put that the shard has been waiting for. So in runs without such a put, an idle manager has nothing left to do.

The tag index is a parameter, which returns the hosts with a tag in any order. The one of the registry does so along
every log without a command that changes the tags of a host in place (`host_lookups_exact`).
-/

namespace Zongzi

open Std Machine Relation

section System

/-- A read sees these answers of the tag index. -/
def Choice.indexed (answers : String → List Host) : Choice → Choice
  | .snapshot _ => .snapshot answers
  | choice => choice

/-- Every read sees what the tag index returns for the registry that is read. -/
def Cluster.serveIndexed (lookup : State → String → List Host) : Serve Cluster AgentOp AgentRes Choice :=
  fun cluster op choice => serveRegular cluster op (choice.indexed (lookup cluster.registry))

variable {lookup : State → String → List Host} {cluster next : Cluster} {choice : Choice} {op : AgentOp}
  {answer : AgentRes op}

theorem Cluster.snapshot_of_serveIndexed {snapshot : Snapshot}
    (served : serveIndexed lookup cluster .read choice = some (.ok snapshot, next)) :
    snapshot = ⟨cluster.registry, lookup cluster.registry⟩ := by
  obtain ⟨-, served⟩ := serveRegular_eq_some served
  cases choice with
  | snapshot answers =>
    cases served
    rfl
  | _ => cases served

/-- Calls and entries from elsewhere lead from one registry of a log to another. -/
theorem reached_of_steps {ι : Type} [DecidableEq ι] {controller : Controller}
    {actors after : Actors Cluster ι Manager AgentOp AgentRes (ℕ × List Reconciled)}
    {move : Move Entry ι (Bool × ℕ) Choice} (reached : actors.shared.registry.Reached)
    (moved : (managers (Cluster.serveIndexed lookup) controller ι).Steps actors move after) :
    after.shared.registry.Reached := by
  cases move with
  | outside entry =>
    obtain ⟨shared, taken, rfl⟩ := ActorSystem.steps_outside moved
    exact reached.step (Cluster.take_eq_some taken).1
  | start i argument =>
    obtain ⟨-, rfl⟩ := ActorSystem.steps_start moved
    exact reached
  | call i choice =>
    obtain ⟨op, continue_, answer, shared, -, served, rfl⟩ := ActorSystem.steps_call moved
    obtain same | ⟨cmd, index, -, advances⟩ := Cluster.progress_of_serve served
    · exact same ▸ reached
    · exact reached.step advances
  | finish i =>
    obtain ⟨result, -, rfl⟩ := ActorSystem.steps_finish moved
    exact reached

/-- Every shard has been stamped by some entry. -/
theorem State.Reached.updated_pos {state : State} (reached : state.Reached) {id : ℕ} {shard : Shard}
    (found : state.shard id = some shard) : 0 < shard.updated := by
  obtain ⟨log, path⟩ := reached
  induction path generalizing shard with
  | nil => simp [State.shard, ShardTable.empty] at found
  | snoc _ advances ih =>
    obtain ⟨later, -, result, updated⟩ := advances
    obtain fresh | same | ⟨stored, tags, present, -, rfl⟩ := (Fsm.update_ledger updated).shard_delta found
    · exact fresh ▸ Nat.zero_lt_of_lt later
    · exact ih same
    · exact @ih stored present

end System

section Watch

variable {lookup : State → String → List Host}

/-- A step of a registry that some log leads to, by a harmless command. -/
def HarmlessStep (lookup : State → String → List Host) (before after : State) : Prop :=
  before.Reached ∧ ∃ entry, Fsm.Advances before entry after ∧ Harmless lookup before entry.cmd

/-- Shards that have been found settled and not been stamped since. -/
def settledStamps (lookup : State → String → List Host) : Tracking State ℕ Prop where
  clock := State.index
  stamp state id := (state.shard id).map Shard.updated
  view := State.SettledAt lookup
  keeps old new := old → new

theorem settledStamps_tracks (indexed : ∀ state key, (lookup state key).Perm (Demand.tagged state.hostIterate key)) :
    (settledStamps lookup).Tracks (HarmlessStep lookup) where
  refl _ := id
  trans := fun first second settled => second (first settled)
  clock := fun ⟨_, _, advances, _⟩ => advances.index_le
  stamps := by
    rintro before after id time ⟨reached, entry, advances, harmless⟩ stamped
    obtain ⟨shard, found, rfl⟩ := Option.map_eq_some_iff.mp stamped
    by_cases fresh : shard.updated = entry.index
    · exact .inl (fresh ▸ advances.later)
    · obtain ⟨⟨stored, present, times⟩, kept⟩ :=
        settledAt_of_unstamped indexed reached.orderly advances harmless found fresh
      exact .inr ⟨Option.map_eq_some_iff.mpr ⟨stored, present, times⟩, kept⟩

/-- The calls that a manager makes whatever the registry is. -/
def allowsHarmless (lookup : State → String → List Host) : AgentOp → Prop
  | .propose cmd => ∀ state, Harmless lookup state cmd
  | _ => True

/-- What a call of the default controller without an error and without an update has found. -/
def FoundSettled (event : Reconciled) : Prop :=
  event.err = none → event.updated = false → event.shard.tags.varies = false → event.shard.tags.coversOnce →
    event.snapshot.state.Settled (.ofTags event.snapshot.hostIterateByTag event.shard.tags) event.shard.id

theorem reconcile_foundSettled {possible : (op : AgentOp) → AgentRes op → Prop} (snapshot : Snapshot) (shard : Shard) :
    (((reconcile snapshot shard).interpret controls).run false).Returns possible
      fun (err, updated) => FoundSettled ⟨snapshot, shard, err, updated⟩ := by
  by_cases once : shard.tags.coversOnce
  · refine (interpret_returns (reconcile_records once) false).mono fun (err, updated) ⟨calls, outcome, flag⟩ => ?_
    rintro rfl rfl unvaried -
    exact settled_of_outcome (Demand.vary_ofTags unvaried) outcome (by simpa using flag.symm)
  · exact (Program.Returns.any _).mono fun _ _ _ _ _ covers => absurd covers once

theorem controls_harmless (op : ControlOp) (updated : Bool) :
    ((controls op).run updated).OnlyCalls (allowsHarmless lookup) := by
  cases op with
  | order count => exact ⟨trivial, fun _ => trivial⟩
  | create hostID shardID isNonVoting =>
    refine ⟨fun _ => nofun, fun answer => ?_⟩
    cases answer <;> trivial
  | delete replicaID =>
    refine ⟨fun _ => nofun, fun answer => ?_⟩
    cases answer <;> trivial

/-- The tag of an error is not one of placement. -/
theorem reportError_harmless (shard : Shard) (err : Option String) :
    (reportError shard err).OnlyCalls (allowsHarmless lookup) := by
  have named (tag : String) (key : (splitTag tag).1 = "zongzi:controller:error") (rest : String) :
      Fsm.lookup (some (tagMapFromList [tag])) ("placement:" ++ rest) = none := by
    have other : "zongzi:controller:error" ≠ "placement:" ++ rest := by
      intro same
      have chars := congrArg String.toList same
      simp at chars
    simp [Fsm.lookup, tagMapFromList, key, other]
  cases err with
  | some err =>
    refine ⟨fun _ _ => named _ ?_, fun answer => ?_⟩
    · simp [splitTag]
    · cases answer <;> trivial
  | none =>
    dsimp only [reportError]
    split
    · refine ⟨fun _ _ => named _ (by decide), fun answer => ?_⟩
      cases answer <;> trivial
    · trivial

/-- Watch shards being settled, over registries that some log leads to. -/
def settledWatch (indexed : ∀ state key, (lookup state key).Perm (Demand.tagged state.hostIterate key)) :
    Watch (serveWithin (fun cluster => cluster.registry.Reached) (Cluster.serveIndexed lookup)) reconcile Prop where
  Step := HarmlessStep lookup
  permits state entry := state.Reached ∧ Harmless lookup state entry.cmd
  allowed := allowsHarmless lookup
  possible := uncancelled
  faithful snapshot := snapshot.hostIterateByTag = lookup snapshot.state
  tracking := settledStamps lookup
  holds := FoundSettled
  done _ _ _ settled := settled
  clock := rfl
  stamp _ _ := rfl
  tracks := settledStamps_tracks indexed
  outside := fun ⟨reached, harmless⟩ taken => ⟨reached, _, (Cluster.take_eq_some taken).1, harmless⟩
  calls := by
    intro cluster next op choice answer allowed served
    obtain ⟨reached, served⟩ := serveWithin_eq_some.mp served
    obtain same | ⟨cmd, index, rfl, advances⟩ := Cluster.progress_of_serve served
    · rw [same]
    · exact .single ⟨reached, _, advances, allowed cluster.registry⟩
  reads := by
    intro cluster next choice snapshot served
    obtain ⟨-, served⟩ := serveWithin_eq_some.mp served
    obtain rfl := Cluster.snapshot_of_serveIndexed served
    exact ⟨rfl, rfl⟩
  answers := fun served => uncancelled_of_serve (serveWithin_eq_some.mp served).2
  uncancelling _ false_ := false_
  allows_read := trivial
  allows_cancelled := trivial
  allows_controller _ _ := .interpret controls_harmless _ _
  allows_report := reportError_harmless
  reconciles := reconcile_foundSettled
  covers := by
    intro log snapshot shard faithful found secondary _ settled _ other located unvaried once
    cases found.symm.trans located
    rw [← faithful]
    exact settled rfl rfl unvaried once
  grows settled := settled
  keeps kept settled := kept settled

end Watch

section Runs

variable {ι : Type} [DecidableEq ι] {lookup : State → String → List Host} {cluster : Cluster}

/-- In every run whose commands from elsewhere are harmless, a manager whose index has reached the update times of all
shards has nothing left to do for those that are placed without varying anything: a pass over any of them on the
registry as it is would create and delete nothing. -/
theorem idle_means_converged
    (indexed : ∀ state key, (lookup state key).Perm (Demand.tagged state.hostIterate key))
    (reached : cluster.registry.Reached) (moves : List (Move Entry ι (Bool × ℕ) Choice))
    (harmless : AlwaysStep (managers (Cluster.serveIndexed lookup) reconcile ι).Steps (idleManagers cluster) moves
      fun actors move => ∀ entry, move = .outside entry → Harmless lookup actors.shared.registry entry.cmd) :
    Always (managers (Cluster.serveIndexed lookup) reconcile ι).Steps (idleManagers cluster) moves fun actors =>
      ∀ i, (∀ id shard, id ≠ ShardID → actors.shared.registry.shard id = some shard →
          shard.updated ≤ (actors.memory i).index) →
        ∀ id shard, id ≠ ShardID → actors.shared.registry.shard id = some shard → shard.tags.varies = false →
          shard.tags.coversOnce → Idle ⟨actors.shared.registry, lookup actors.shared.registry⟩ shard := by
  let system := managers (Cluster.serveIndexed lookup) reconcile ι
  let good (cluster : Cluster) : Prop := cluster.registry.Reached
  have same {moves : List (Move Entry ι (Bool × ℕ) Choice)} {actors} :
      Path (system.within good).Steps (idleManagers cluster) moves actors ↔
        Path system.Steps (idleManagers cluster) moves actors :=
    ActorSystem.path_within reached reached_of_steps
  have kept {moves : List (Move Entry ι (Bool × ℕ) Choice)} {actors}
      (path : Path system.Steps (idleManagers cluster) moves actors) : actors.shared.registry.Reached :=
    path.invariant reached fun _ _ _ _ => reached_of_steps
  have seen := ((settledWatch indexed).always_seen (ι := ι) cluster moves ?_).2
  · intro front back actors split path i upToDate id shard secondary found unvaried once
    obtain ⟨-, -, covered⟩ := seen front back actors split (same.mpr path) i
    have stamped : (settledStamps lookup).stamp actors.shared.registry id = some shard.updated := by
      simp [settledStamps, found]
    have settled := covered id _ stamped (upToDate id shard secondary found) secondary ((kept path).updated_pos found)
    obtain rfl := State.shard_id found
    exact idle_of_settled once (settled secondary shard found unvaried once)
  · intro front move back actors split path entry is
    exact ⟨kept (same.mp path), harmless front move back actors split (same.mp path) entry is⟩

end Runs

section TagIndex

variable {store next : Store} {entry : Entry} {write : Write} {writes : List Write} {log : List Entry}

/-- A command that changes the tags of a host in place. -/
def Entry.isHostTag (entry : Entry) : Bool :=
  match entry.cmd with
  | .host action _ => action.tagFn.isSome
  | _ => false

/-- The tag index of the hosts is exact. -/
def Store.HostsExact (store : Store) : Prop :=
  MultiIndex.Exact Host.labels store.hostTags store.state.ledger.hosts

theorem Store.hostsExact_write (other : ∀ host, write ≠ .hostRetag host) (written : store.write write = .ok next)
    (exact : store.HostsExact) : next.HostsExact := by
  cases retag : write.isRetag with
  | false => exact (plain_write retag written).hosts.exact exact
  | true =>
    obtain ⟨state, put, rfl⟩ := write_eq_ok_iff.mp written
    cases write with
    | hostRetag host => exact absurd rfl (other host)
    | shardRetag shard =>
      cases put
      exact exact
    | replicaRetag replica =>
      have same : state.ledger.hosts = store.state.ledger.hosts := by rw [State.ledger_replicaPut put]
      rw [HostsExact, same]
      exact exact
    | _ => cases retag

theorem Journal.Shape.spares_hosts {state : State} (shape : Journal.Shape state entry writes)
    (plain : entry.isHostTag = false) (member : write ∈ writes) (host : Host) : write ≠ .hostRetag host := by
  rintro rfl
  cases shape with
  | plain untagged => cases untagged _ member
  | host is tagFn => simp [Entry.isHostTag, is, tagFn] at plain
  | shard => simp [Journal.touchHosts] at member
  | replica => simp [Journal.touchOwners] at member

theorem Store.Steps.hostsExact (step : store.Steps entry next) (plain : entry.isHostTag = false)
    (exact : store.HostsExact) : next.HostsExact := by
  obtain ⟨-, writes, journal, replayed⟩ := steps_iff.mp step
  refine ExceptFold.foldlM_invariant Store.HostsExact replayed exact fun write member _ _ held written =>
    hostsExact_write (fun host is => ?_) written held
  subst is
  unfold Journal.update at journal
  split at journal
  · cases journal
    cases member
  · obtain ⟨applied, is, rest⟩ := ExceptFold.bind_eq_ok_iff.mp journal
    cases rest
    obtain member | member := List.mem_append.mp member
    · exact (Journal.shape_apply is).spares_hosts plain member host rfl
    · cases List.mem_singleton.mp member

/-- The hosts with a tag, by parsed identifier. -/
def State.hostsTagged (state : State) (tag : String) : List (String × Host) :=
  state.hosts.id.toList.filter fun entry => tag ≠ "" && (entry.2.tags.bind (·[tag]?)).isSome

theorem tagged_hostIterate (state : State) (tag : String) :
    Demand.tagged state.hostIterate tag = (state.hostsTagged tag).map Prod.snd := by
  rw [Demand.tagged, State.hostIterate, List.filter_map]
  rfl

theorem nodup_hostsTagged (state : State) (tag : String) : ((state.hostsTagged tag).map Prod.fst).Nodup := by
  refine List.Nodup.sublist (List.filter_sublist.map Prod.fst) ?_
  rw [ExtTreeMap.map_fst_toList_eq_keys]
  exact ExtTreeMap.nodup_keys

theorem mem_hostsTagged {state : State} {tag key : String} : key ∈ (state.hostsTagged tag).map Prod.fst ↔
    tag ≠ "" ∧ (state.hosts.id[key]?).any fun host => (Fsm.lookup host.tags tag).isSome := by
  simp only [State.hostsTagged, List.mem_map, List.mem_filter, Prod.exists, Option.any_eq_true, Bool.and_eq_true,
    ExtTreeMap.mem_toList_iff_getElem?_eq_some, decide_eq_true_eq]
  constructor
  · rintro ⟨key, host, ⟨stored, named, tagged⟩, rfl⟩
    exact ⟨named, host, stored, tagged⟩
  · rintro ⟨named, host, stored, tagged⟩
    exact ⟨key, host, ⟨stored, named, tagged⟩, rfl⟩

theorem Store.HostsExact.visits (exact : store.HostsExact) (tag : String) :
    store.hostIterateByTag tag = ↑((store.state.hostsTagged tag).map Prod.fst) := by
  refine Multiset.ext.mpr fun key => ?_
  rw [Multiset.coe_count, (nodup_hostsTagged _ _).count]
  by_cases named : tag = ""
  -- Nothing is filed under the empty tag.
  · rw [if_neg fun listed => (mem_hostsTagged.mp listed).1 named, Multiset.count_eq_zero]
    intro visited
    obtain ⟨⟨label, id⟩, filed, -⟩ := Multiset.mem_map.mp visited
    obtain ⟨filed, same⟩ := Finset.mem_filter.mp filed
    obtain ⟨host, -, held⟩ := (exact label id).mp filed
    exact (mem_tagLabels.mp held).1 (same.trans named)
  · refine ((exact_iff_lookups exact.covers).mp exact tag named key).trans (if_congr ?_ rfl rfl)
    rw [mem_hostsTagged]
    exact (and_iff_right named).symm

/-- The tag index returns the hosts that have a tag, along every log without a command that changes the tags of a host
in place. -/
theorem host_lookups_exact (path : Path Store.Steps {} log store) (plain : ∀ entry ∈ log, entry.isHostTag = false)
    (tag : String) : (store.hostIterateByTag tag).map (fun key => store.state.hosts.id[key]?) =
      Multiset.map some ↑(Demand.tagged store.state.hostIterate tag) := by
  have exact : store.HostsExact := path.invariant Store.exact_empty.hosts fun entry member _ _ held step =>
    step.hostsExact (plain entry member) held
  rw [exact.visits, tagged_hostIterate, Multiset.map_coe, Multiset.map_coe, List.map_map, List.map_map]
  refine congrArg _ (List.map_congr_left fun entry held => ?_)
  exact ExtTreeMap.mem_toList_iff_getElem?_eq_some.mp (List.mem_of_mem_filter held)

end TagIndex

section Examples

/-- A tag index without mistakes. -/
def exactLookup (state : State) : String → List Host := Demand.tagged state.hostIterate

abbrev exactManagers := managers (Cluster.serveIndexed exactLookup) reconcile Unit

/-- Entries from elsewhere, and then a tick. -/
def tickAfter (entries : List Entry) (choices : List Choice) : List (Move Entry Unit (Bool × ℕ) Choice) :=
  entries.map .outside ++ .start () (true, 2) :: choices.map (.call ()) ++ [.finish ()]

/-- A host, and a shard that wants two members. -/
def halfEntries : List Entry :=
  [{ index := 1, cmd := .host .put Fsm.exampleHost },
    { index := 2, cmd := newCmdShardPost { newShard "kv" with tags := tagMapFromList ["placement:member=2"] } }]

/-- A pass that creates a member on the only host, and one that finds no host for another. -/
def halfFilling : List Choice :=
  [.snapshot fun _ => [], .flag false] ++ fillingPass ++
    [.snapshot fun _ => [], .flag false, .order [0], .order [0], .order [], .order [0], .order []]

/-- The shards but the prime one are within the index of the manager. -/
def isDoneWith (actors : Actors Cluster Unit Manager AgentOp AgentRes (ℕ × List Reconciled)) : Bool :=
  ∀ shard ∈ actors.shared.registry.shardIterate, shard.id = ShardID ∨ shard.updated ≤ (actors.memory ()).index

theorem done_with {actors : Actors Cluster Unit Manager AgentOp AgentRes (ℕ × List Reconciled)}
    (done : isDoneWith actors) (id : ℕ) (shard : Shard) (secondary : id ≠ ShardID)
    (found : actors.shared.registry.shard id = some shard) : shard.updated ≤ (actors.memory ()).index := by
  obtain rfl := State.shard_id found
  exact (of_decide_eq_true done shard (State.mem_shardIterate.mpr found)).resolve_left secondary

/-- The tick has done what it can with the one host there is, and a further pass has nothing to do. -/
theorem tick_converges :
    ∃ actors shard, Path exactManagers.Steps (idleManagers emptyCluster) (tickAfter halfEntries halfFilling) actors ∧
      actors.shared.registry.shard 1 = some shard ∧ shard.updated ≤ (actors.memory ()).index ∧
      Idle ⟨actors.shared.registry, exactLookup actors.shared.registry⟩ shard := by
  obtain ⟨actors, ran, done, shard, found, unvaried, once⟩ :
      ∃ actors ∈ exactManagers.run (idleManagers emptyCluster) (tickAfter halfEntries halfFilling),
        isDoneWith actors ∧ ∃ shard ∈ actors.shared.registry.shard 1,
          shard.tags.varies = false ∧ shard.tags.coversOnce := by
    decide +kernel
  have within := done_with done
  have path := ActorSystem.path_iff_run.mpr ran
  refine ⟨actors, shard, path, found, within 1 shard (by decide) found, ?_⟩
  have reached : emptyCluster.registry.Reached := ⟨[], .nil⟩
  refine (idle_means_converged (fun _ _ => .refl _) reached _ ?_).last path () within 1 shard (by decide) found
    unvaried once
  -- Only the first two moves are from elsewhere, and there is no shard yet when the host is put.
  refine .cons ?_ fun next moved => .cons ?_ fun _ _ => ?_
  · rintro entry ⟨⟩
    refine ⟨rfl, fun id shard _ found => ?_⟩
    simp [emptyCluster, idleManagers, State.shard, ShardTable.empty] at found
  · rintro entry ⟨⟩ kind
    cases kind
  · intro front move back state split _ entry is
    have member := List.mem_append_right front (@List.mem_cons_self _ move back)
    rw [← split, is] at member
    simp at member

/-- The manager is done after these moves, and a pass over the shard still has something to do. -/
def Stalls (moves : List (Move Entry Unit (Bool × ℕ) Choice)) : Prop :=
  ∃ actors shard, Path exactManagers.Steps (idleManagers emptyCluster) moves actors ∧
    (∀ id shard, id ≠ ShardID → actors.shared.registry.shard id = some shard →
      shard.updated ≤ (actors.memory ()).index) ∧
    actors.shared.registry.shard 1 = some shard ∧ shard.tags.varies = false ∧
    ¬ Idle ⟨actors.shared.registry, exactLookup actors.shared.registry⟩ shard

theorem stalls_of_pass {moves : List (Move Entry Unit (Bool × ℕ) Choice)} {choices : List Choice}
    (evaluates : ∃ actors ∈ exactManagers.run (idleManagers emptyCluster) moves, isDoneWith actors ∧
      ∃ shard ∈ actors.shared.registry.shard 1, shard.tags.varies = false ∧
        ∃ passed ∈ pass (exactLookup actors.shared.registry) 1 actors.shared.registry choices,
          changes passed.2.1 ≠ []) : Stalls moves := by
  obtain ⟨actors, ran, done, shard, found, unvaried, ⟨err, calls, next⟩, passed, changed⟩ := evaluates
  refine ⟨actors, shard, ActorSystem.path_iff_run.mpr ran, done_with done, found, unvaried, fun idle => ?_⟩
  rw [Option.mem_def] at found passed
  rw [pass, found, Option.bind_eq_bind, Option.bind_some] at passed
  have quiet := Program.Records.of_exec idle (fun _ => trivial) passed
  exact changed quiet

/-- Another host joins. -/
def joiningMove : Move Entry Unit (Bool × ℕ) Choice :=
  .outside { index := 4, cmd := .host .put { Fsm.exampleHost with id := "00000000-0000-4000-8000-000000000002" } }

/-- A pass that creates the other member on it. -/
def laterPass (tags : List ℕ) : List Choice :=
  [.order tags, .order [0], .order [], .order [0], .order [], .order [0], .order [], .order [], .order [], .applied 5]

/-- Two hosts, and a shard that has a cover tag and names a group `cover`. -/
def coveringEntries : List Entry :=
  let zoned (id : String) : Host := { id, tags := tagMapFromList ["zone=a"] }
  [{ index := 1, cmd := .host .put (zoned Fsm.exampleHost.id) },
    { index := 2, cmd := .host .put (zoned "00000000-0000-4000-8000-000000000002") },
    { index := 3, cmd := newCmdShardPost { newShard "kv" with
      tags := tagMapFromList ["placement:cover=zone=a", "placement:replica:cover=1;zone=a"] } }]

/-- Passes that come to the cover tag first, and let the group replace what it asks for. -/
def coverFirst : List Choice :=
  [.snapshot fun _ => [], .flag false, .order [0, 1], .order [0], .order [], .order [0], .order [], .order [0],
    .order [], .order [], .order [], .applied 4, .snapshot fun _ => [], .flag false, .order [0, 1], .order [0],
    .order [], .order [0], .order []]

/-- A host that joins after the tick is not noticed, although the shard is waiting for one. And where the tags of a
shard mean different things in different orders, a later pass may see another one. -/
theorem joining_host_unnoticed :
    Stalls (tickAfter halfEntries halfFilling ++ [joiningMove]) ∧ Stalls (tickAfter coveringEntries coverFirst) := by
  refine ⟨@stalls_of_pass _ (laterPass [0]) ?_, @stalls_of_pass _ (laterPass [1, 0]) ?_⟩
  · decide +kernel
  · decide +kernel

end Examples

end Zongzi
