import Zongzi.Proofs.VaryTags

/-! # What a pass of the default controller comes to

A pass looks at the replicas of one shard. While one of them counts for no group it deletes the first such
replica. Otherwise it adds replicas on free hosts, and without a tag to vary, or without a replica to compare
with, it goes on until every group has what it wants or no host is left for it.

Here a pass also returns what it took the tags to ask for and its `Create` calls with their groups. Without
them it is `reconcile` (`err_reconcileTraced`).
-/

namespace Zongzi

open Std Machine

section Reconcile

variable {snapshot : Snapshot} {shard : Shard} {demand : Demand}
  {possible : (op : ControlOp) → ControlRes op → Prop}

/-- The replicas of a shard that count for a group. -/
def State.foundIn (state : State) (demand : Demand) (shardID : ℕ) (group : String) : ℕ :=
  (state.replicaIterateByShardID shardID).countP fun replica =>
    demand.counts (state.hostOrZero replica.hostID) group

/-- The replicas of a shard that count for no group. -/
def State.undesired (state : State) (demand : Demand) (shardID : ℕ) : List ℕ :=
  ((state.replicaIterateByShardID shardID).filter fun replica =>
    !demand.wants (state.hostOrZero replica.hostID)).map Replica.id

/-- A replica of the shard that counts for some group is on the host with this identifier. -/
def State.Occupies (state : State) (demand : Demand) (shardID : ℕ) (hostID : String) : Prop :=
  ∃ replica ∈ state.replicaIterateByShardID shardID,
    demand.wants (state.hostOrZero replica.hostID) ∧ replica.hostID = hostID

/-- The group lacks replicas and its filter selects the free host. -/
structure State.Lacks (state : State) (demand : Demand) (shardID : ℕ) (group : String) (host : Host) : Prop where
  lacks : ∃ count, demand.desired[group]? = some count ∧ (state.foundIn demand shardID group : ℤ) < count
  registered : host ∈ state.hostIterate
  selected : demand.selects group host
  free : ¬ state.Occupies demand shardID host.id

/-- The group has what it wants, or every host that its filter selects holds a replica. -/
def State.Filled (state : State) (demand : Demand) (shardID : ℕ) (created : List Created)
    (group : String) (count : ℤ) : Prop :=
  count ≤ state.foundIn demand shardID group + created.countP (·.group = group) ∨
    ∀ host ∈ state.hostIterate, demand.selects group host →
      state.Occupies demand shardID host.id ∨ ∃ one ∈ created, one.host.id = host.id

/-- Replicas were added, each on a free host for a group that lacks it. -/
def AddedOutcome (state : State) (demand : Demand) (shard : Shard) :
    Option String → List (Σ op, ControlRes op) → Prop
  | none, made => ∃ created : List Created, made = created.map (Created.call shard) ∧
      (∀ one ∈ created, state.Lacks demand shard.id one.group one.host) ∧
      (created.map (·.host.id)).Nodup ∧
      (demand.vary = ∅ ∨ state.replicaIterateByShardID shard.id = [] →
        ∀ group count, demand.desired[group]? = some count →
          state.Filled demand shard.id created group count)
  | some err, made => ∃ (created : List Created) (group : String) (host : Host),
      state.Lacks demand shard.id group host ∧
      made = created.map (Created.call shard) ++ [⟨createOn shard group host, .error err⟩] ∧
      ∀ one ∈ created, state.Lacks demand shard.id one.group one.host

/-- What one pass comes to. -/
def PassOutcome (state : State) (demand : Demand) (shard : Shard) (err : Option String)
    (made : List (Σ op, ControlRes op)) : Prop :=
  match state.undesired demand shard.id with
  | first :: _ => made = [⟨.delete first, err.elim (.ok ()) .error⟩]
  | [] => AddedOutcome state demand shard err made

section Placement

variable {state : State} {tally : Tally} {plan : Plan} {start : Placing}

/-- What is known when replicas are about to be added. -/
structure Ready (state : State) (demand : Demand) (shardID : ℕ) (tally : Tally) (plan : Plan)
    (start : Placing) : Prop where
  tallied : Tallied state demand (state.replicaIterateByShardID shardID) tally
  planned : Planned demand tally plan
  listed : ∀ group, start.matches_.getD group [] = state.hostIterate.filter (demand.admits tally group)
  occupied : start.occupiedHosts = tally.occupiedHosts
  varyCount : start.varyCount = tally.varyCount

theorem Ready.found (ready : Ready state demand shard.id tally plan start) {group : String} {count : ℤ}
    (wanted : demand.desired[group]? = some count) :
    tally.found.getD group 0 = state.foundIn demand shard.id group :=
  ready.tallied.found group (ExtTreeMap.isSome_getElem?_iff_mem.mp (by simp [wanted]))

theorem Ready.free_iff (ready : Ready state demand shard.id tally plan start) {host : Host} :
    start.free host ↔ ¬ state.Occupies demand shard.id host.id := by
  rw [Placing.free, ready.occupied, Bool.not_eq_true', Bool.eq_false_iff, ne_eq]
  exact not_congr (ready.tallied.occupied host.id)

theorem Ready.lacks (ready : Ready state demand shard.id tally plan start) {group : String} {host : Host}
    (offers : Offers plan start group host) : state.Lacks demand shard.id group host := by
  have wanted : group ∈ demand.desired :=
    ExtTreeMap.mem_keys.mp (ready.planned.groups.mem_iff.mp offers.planned)
  obtain ⟨count, wanted⟩ := Option.isSome_iff_exists.mp (ExtTreeMap.isSome_getElem?_iff_mem.mpr wanted)
  have missing := offers.missing
  rw [ready.planned.getD_missing wanted, ready.found wanted] at missing
  have member := offers.listed
  rw [ready.listed, List.mem_filter, Demand.admits, Bool.and_eq_true] at member
  exact ⟨⟨count, wanted, by omega⟩, member.1, member.2.2, ready.free_iff.mp offers.free⟩

theorem Ready.filled (ready : Ready state demand shard.id tally plan start) {created : List Created}
    {group : String} {count : ℤ} (wanted : demand.desired[group]? = some count)
    (saturated : Saturated plan start (created.map Created.attempted) group) :
    state.Filled demand shard.id created group count := by
  have found := ready.found wanted
  obtain enough | taken := saturated
  · have counted : (created.map Created.attempted).countP (·.group = group) = created.countP (·.group = group) :=
      List.countP_map
    rw [ready.planned.getD_missing wanted, found, counted] at enough
    exact .inl (by omega)
  · by_cases complete : tally.found.getD group 0 = count
    · exact .inl (by omega)
    · refine .inr fun host registered selected => or_iff_not_imp_left.mpr fun unoccupied => ?_
      have free := ready.free_iff.mpr unoccupied
      have listed : host ∈ start.matches_.getD group [] := by
        rw [Placing.free, ready.occupied] at free
        rw [ready.listed, List.mem_filter]
        exact ⟨registered, by simpa [Demand.admits, Demand.isOpen, wanted, complete, selected] using free⟩
      obtain ⟨one, member, same⟩ := taken host listed free
      obtain ⟨made, among, rfl⟩ := List.mem_map.mp member
      exact ⟨made, among, same⟩

theorem calls_of_created (created : List Created) :
    ((created.map Created.attempted).map (Placed.attempt shard)).map Attempt.call =
      created.map (Created.call shard) := by
  rw [List.map_map, List.map_map]
  rfl

/-- What was added, if the loop was ready for it. -/
theorem Ready.added (ready : Ready state demand shard.id tally plan start) {placed : List Placed}
    {err : Option String} (run : AddRun Unvaried plan start placed err) :
    AddedOutcome state demand shard err ((placed.map (Placed.attempt shard)).map Attempt.call) := by
  have lacks {one : Placed} (member : one ∈ placed) : state.Lacks demand shard.id one.group one.host :=
    ready.lacks (run.offers member)
  match err, run.ended with
  | none, succeeded =>
    obtain ⟨created, rfl⟩ := exists_created succeeded
    obtain ⟨final, path⟩ := run.path
    refine ⟨created, calls_of_created created, fun one member => lacks (List.mem_map_of_mem member), ?_,
      fun plain group count wanted => ready.filled wanted (run.saturated (fun name => ?_) ?_)⟩
    · simpa [Function.comp_def, Created.attempted] using (Remaining.of_path path).distinct
    · simp [ready.varyCount, ready.tallied.unvaried plain]
    · rw [ready.planned.groups.mem_iff, ExtTreeMap.mem_keys, ← ExtTreeMap.isSome_getElem?_iff_mem, wanted]
      rfl
  | some err, ⟨front, last, split, failed, succeeded⟩ =>
    obtain ⟨created, rfl⟩ := exists_created succeeded
    subst split
    refine ⟨created, last.group, last.host, lacks (by simp), ?_, fun one member => ?_⟩
    · rw [List.map_append, List.map_append, calls_of_created]
      exact congrArg (created.map (Created.call shard) ++ [⟨createOn shard last.group last.host, ·⟩]) failed
    · exact lacks (List.mem_append_left _ (List.mem_map_of_mem member))

end Placement

/-- A program that only asks for orders changes nothing before what follows it. -/
theorem records_of_quiet {ρ τ : Type} {first : Reconciliation ρ} {continue_ : ρ → Reconciliation τ}
    {middle : ρ → Prop} {post : τ → List (Σ op, ControlRes op) → Prop} (ends : first.Ends (·.isOrder) middle)
    (rest : ∀ result, middle result →
      (continue_ result).Records possible fun value calls => post value (changes calls)) :
    (first >>= continue_).Records possible fun value calls => post value (changes calls) := by
  refine ends.records.bind fun result calls ⟨held, quiet⟩ => (rest result held).mono fun value more kept => ?_
  rwa [changes_append, changes_eq_nil quiet, List.nil_append]

end Reconcile

/-- How a pass ended, what it aimed at and the replicas it tried to create. -/
structure Trace where
  demand : Demand
  err : Option String
  attempts : List Attempt

def reconcileTraced (snapshot : Snapshot) (shard : Shard) : Reconciliation Trace := do
  let demand ← resolveDesired snapshot shard
  let tally ← (snapshot.state.replicaIterateByShardID shard.id).foldlM
    (tallyReplica snapshot.state demand) {}
  let plan ← planGroups demand tally
  let rebalance ← requiresRebalance tally
  if plan.missing.isEmpty && plan.excess.isEmpty && !rebalance && tally.undesired.isEmpty then
    return ⟨demand, none, []⟩
  match tally.undesired with
  | replicaID :: _ =>
    match ← Program.perform (ControlOp.delete replicaID) with
    | .error err => return ⟨demand, some err, []⟩
    | .ok _ => return ⟨demand, none, []⟩
  | [] =>
    let candidates ← findMatches snapshot.state demand tally
    let (err, attempts) ← addMissingTraced shard plan {
      matches_ := candidates.matches_
      varyMatch := candidates.varyMatch
      varyCount := tally.varyCount
      occupiedHosts := tally.occupiedHosts }
    return ⟨demand, err, attempts⟩

/-- What is returned besides the error changes nothing else. -/
theorem err_reconcileTraced (snapshot : Snapshot) (shard : Shard) :
    Trace.err <$> reconcileTraced snapshot shard = reconcile snapshot shard := by
  unfold reconcileTraced reconcile
  simp only [map_bind]
  refine bind_congr fun demand => bind_congr fun tally => bind_congr fun plan => bind_congr fun rebalance => ?_
  split
  · rfl
  · cases tally.undesired with
    | cons first rest =>
      simp only [map_bind]
      refine bind_congr fun answer => ?_
      cases answer <;> rfl
    | nil =>
      simp only [map_bind, ← fst_addMissingTraced]
      refine bind_congr fun candidates => ?_
      rw [map_eq_pure_bind]
      rfl

section Pass

variable {chooses : Placing → String → Option (List String) → Prop} {snapshot : Snapshot} {shard : Shard}
  {demand : Demand} {possible : (op : ControlOp) → ControlRes op → Prop}

/-- What is known of the values when replicas are about to be added. -/
structure Valued (state : State) (demand : Demand) (shardID : ℕ) (start : Placing) : Prop where
  spread : ∀ key, demand.vary.toList = [(key, true)] → ∀ group ∈ demand.desired, ∀ tag,
    (start.varyCount.getD group ∅)[tag]? =
      positive ((state.replicaIterateByShardID shardID).countP (heldBy state demand key group tag))
  rest : ∀ key, demand.vary.toList = [(key, true)] → ∀ group ∉ demand.desired, start.varyCount.getD group ∅ = ∅
  matched : ∀ key, demand.vary.toList = [(key, true)] → Matched key start.matches_ start.varyMatch

/-- A pass finds nothing to do, or deletes a replica, or adds replicas. -/
inductive PassRun (chooses : Placing → String → Option (List String) → Prop) (state : State) (shard : Shard)
    (demand : Demand) : Option String → List Attempt → List (Σ op, ControlRes op) → Prop
  | idle (desired : state.undesired demand shard.id = [])
      (complete : ∀ (group : String) (count : ℤ), demand.desired[group]? = some count →
        count ≤ state.foundIn demand shard.id group) :
      PassRun chooses state shard demand none [] []
  | delete {first : ℕ} {rest : List ℕ} {err : Option String}
      (undesired : state.undesired demand shard.id = first :: rest) :
      PassRun chooses state shard demand err [] [⟨.delete first, err.elim (.ok ()) .error⟩]
  | add {tally : Tally} {plan : Plan} {start : Placing} {placed : List Placed} {err : Option String}
      (desired : state.undesired demand shard.id = []) (ready : Ready state demand shard.id tally plan start)
      (valued : Valued state demand shard.id start) (run : AddRun chooses plan start placed err) :
      PassRun chooses state shard demand err (placed.map (Placed.attempt shard))
        ((placed.map (Placed.attempt shard)).map Attempt.call)

/-- The trace of a pass, with its calls that create or delete replicas. -/
structure Trace.IsOf (chooses : Placing → String → Option (List String) → Prop) (snapshot : Snapshot) (shard : Shard)
    (trace : Trace) (made : List (Σ op, ControlRes op)) : Prop where
  resolved : ∃ visited, visited.Perm (shard.tags.getD ∅).toList ∧
    trace.demand = .resolve snapshot.hostIterateByTag visited
  run : PassRun chooses snapshot.state shard trace.demand trace.err trace.attempts made

theorem tally_valued (state : State) (demand : Demand) (replicas : List Replica) :
    (replicas.foldlM (tallyReplica state demand) {}).Ends (·.isOrder) fun tally =>
      ∀ key, demand.vary.toList = [(key, true)] → tally.Spread state demand key replicas := by
  by_cases one : ∃ key, demand.vary.toList = [(key, true)]
  · obtain ⟨key, vary⟩ := one
    refine (tally_spread vary replicas).mono fun tally spread other also => ?_
    cases vary.symm.trans also
    exact spread
  · exact (tally_ends state demand replicas).mono fun tally _ key vary => absurd ⟨key, vary⟩ one

theorem findMatches_valued (state : State) (demand : Demand) (tally : Tally) :
    (findMatches state demand tally).Ends (·.isOrder) fun candidates =>
      ∀ key, demand.vary.toList = [(key, true)] → Matched key candidates.matches_ candidates.varyMatch := by
  by_cases one : ∃ key, demand.vary.toList = [(key, true)]
  · obtain ⟨key, vary⟩ := one
    refine (findMatches_matched vary).mono fun candidates matched other also => ?_
    cases vary.symm.trans also
    exact matched
  · exact (findMatches_ends state demand tally).mono fun candidates _ key vary => absurd ⟨key, vary⟩ one

/-- Every pass is one of these, however the maps are visited and whatever is answered. -/
theorem reconcileTraced_records
    (chosen : ∀ placing group, (chooseVaryTags placing group).Ends (·.isOrder) (chooses placing group)) :
    (reconcileTraced snapshot shard).Records possible fun trace calls =>
      trace.IsOf chooses snapshot shard (changes calls) := by
  unfold reconcileTraced
  refine records_of_quiet resolveDesired_resolves fun demand resolved => ?_
  refine records_of_quiet ((tally_ends _ _ _).and (tally_valued _ _ _)) fun tally ⟨tallied, spread⟩ => ?_
  refine records_of_quiet (planGroups_ends _ _) fun plan planned => ?_
  refine records_of_quiet (requiresRebalance_ends _) fun rebalance _ => ?_
  have undesired : tally.undesired = snapshot.state.undesired demand shard.id := tallied.undesired
  split
  · next idle =>
    simp only [Bool.and_eq_true, List.isEmpty_iff] at idle
    obtain ⟨⟨⟨complete, -⟩, -⟩, nobody⟩ := idle
    refine ⟨resolved, .idle (undesired ▸ nobody) fun group count wanted => ?_⟩
    have found : tally.found.getD group 0 = snapshot.state.foundIn demand shard.id group :=
      tallied.found group (ExtTreeMap.isSome_getElem?_iff_mem.mp (by simp [wanted]))
    by_contra lacks
    replace lacks : ¬ count ≤ snapshot.state.foundIn demand shard.id group := lacks
    have missing := (planned.missing group _).mpr ⟨count, wanted, by omega, rfl⟩
    simp [ExtTreeMap.isEmpty_iff.mp complete] at missing
  · cases listed : tally.undesired with
    | cons first rest =>
      intro answer _
      cases answer with
      | error err => exact ⟨resolved, .delete (undesired.symm.trans listed)⟩
      | ok value => exact ⟨resolved, .delete (undesired.symm.trans listed)⟩
    | nil =>
      dsimp only
      refine records_of_quiet ((findMatches_ends ..).and (findMatches_valued ..)) fun candidates ⟨hosts, matched⟩ => ?_
      have nodup : plan.groups.Nodup := planned.groups.nodup_iff.mpr ExtTreeMap.nodup_keys
      refine (addMissingTraced_records chosen nodup _).bind fun (err, attempts) calls ⟨placed, is, made, run⟩ => ?_
      subst is
      refine ⟨resolved, ?_⟩
      have ready : Ready snapshot.state demand shard.id tally plan
          ⟨candidates.matches_, candidates.varyMatch, tally.varyCount, tally.occupiedHosts⟩ :=
        ⟨tallied, planned, hosts, rfl, rfl⟩
      rw [List.append_nil, made]
      have valued : Valued snapshot.state demand shard.id
          ⟨candidates.matches_, candidates.varyMatch, tally.varyCount, tally.occupiedHosts⟩ :=
        ⟨fun key vary => (spread key vary).counted, fun key vary => (spread key vary).rest, matched⟩
      exact .add (undesired.symm.trans listed) ready valued run

theorem PassRun.outcome {state : State} {err : Option String} {attempts : List Attempt}
    {made : List (Σ op, ControlRes op)} (run : PassRun Unvaried state shard demand err attempts made) :
    PassOutcome state demand shard err made := by
  unfold PassOutcome
  cases run with
  | idle desired complete =>
    rw [desired]
    exact ⟨[], rfl, by simp, .nil, fun _ group count wanted => .inl (by simpa using complete group count wanted)⟩
  | delete undesired => rw [undesired]
  | add desired ready _ run =>
    rw [desired]
    exact ready.added run

/-- Every pass comes to one of the outcomes, however the maps are visited. -/
theorem reconcile_records (once : shard.tags.coversOnce) :
    (reconcile snapshot shard).Records possible fun err calls => PassOutcome snapshot.state
      (.ofTags snapshot.hostIterateByTag shard.tags) shard err (changes calls) := by
  rw [← err_reconcileTraced, map_eq_pure_bind]
  refine (reconcileTraced_records chooseVaryTags_ends).bind fun trace calls is => ?_
  obtain ⟨visited, listed, resolved⟩ := is.resolved
  have outcome := is.run.outcome
  rwa [resolved, Demand.resolve_eq_ofTags once listed, ← List.append_nil calls] at outcome

end Pass

end Zongzi
