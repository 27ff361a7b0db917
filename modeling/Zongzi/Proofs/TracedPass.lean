import Zongzi.Proofs.Runs
import Zongzi.Proofs.PlacementOptions

/-! # Passes of the default controller, call by call

The calls of a pass go to different hosts, each of them free and selected by the filter of a group that lacks a
replica. Replicas are counted by their hosts and not by their votes, so a pass may be quiet while votes are missing.
-/

namespace Zongzi

open Std Machine

section Created

variable {chooses : Placing → String → Option (List String) → Prop} {state : State} {demand : Demand} {shard : Shard}
  {tally : Tally} {plan : Plan} {start : Placing} {placed : List Placed} {err : Option String} {group : String}

/-- The replicas of a shard on hosts that the filter of a group selects. -/
def State.matching (state : State) (demand : Demand) (shardID : ℕ) (group : String) : ℕ :=
  (state.replicaIterateByShardID shardID).countP fun replica =>
    demand.selects group (state.hostOrZero replica.hostID)

/-- The host holds no replica of the shard. -/
def State.Vacant (state : State) (shardID : ℕ) (host : Host) : Prop :=
  ∀ replica ∈ state.replicaIterateByShardID shardID, replica.hostID ≠ host.id

instance (state : State) (shardID : ℕ) (host : Host) : Decidable (state.Vacant shardID host) :=
  inferInstanceAs (Decidable (∀ replica ∈ _, _))

theorem wants_of_undesired (desired : state.undesired demand shard.id = []) {replica : Replica}
    (member : replica ∈ state.replicaIterateByShardID shard.id) : demand.wants (state.hostOrZero replica.hostID) := by
  rw [State.undesired, List.map_eq_nil_iff, List.filter_eq_nil_iff] at desired
  simpa using desired replica member

/-- If every replica counts for some group, a filter alone says for which. -/
theorem foundIn_eq_matching (desired : state.undesired demand shard.id = []) :
    state.foundIn demand shard.id group = state.matching demand shard.id group := by
  refine List.countP_congr fun replica member => ?_
  obtain ⟨name, -, counts⟩ := List.any_eq_true.mp (wants_of_undesired desired member)
  rw [Demand.counts, Bool.and_eq_true] at counts
  rw [Demand.counts, counts.2, Bool.and_true]

theorem Ready.vacant_iff (ready : Ready state demand shard.id tally plan start)
    (desired : state.undesired demand shard.id = []) {host : Host} : start.free host ↔ state.Vacant shard.id host := by
  rw [ready.free_iff]
  constructor
  · exact fun free replica member same => free ⟨replica, member, wants_of_undesired desired member, same⟩
  · rintro vacant ⟨replica, member, -, same⟩
    exact vacant replica member same

theorem Ready.getD_missing (ready : Ready state demand shard.id tally plan start)
    (desired : state.undesired demand shard.id = []) (group : String) :
    (plan.missing.getD group 0).toNat =
      if group ∈ demand.desired then (demand.desired.getD group 0 - state.matching demand shard.id group).toNat
      else 0 := by
  split
  · next wanted =>
    obtain ⟨count, stored⟩ := Option.isSome_iff_exists.mp (ExtTreeMap.isSome_getElem?_iff_mem.mpr wanted)
    rw [ready.planned.getD_missing stored, ready.found stored, foundIn_eq_matching desired,
      ExtTreeMap.getD_eq_getD_getElem?, stored, Option.getD_some]
  · next unwanted =>
    rw [ExtTreeMap.getD_eq_getD_getElem?]
    cases lookup : plan.missing[group]? with
    | none => rfl
    | some amount =>
      obtain ⟨count, stored, -⟩ := (ready.planned.missing group amount).mp lookup
      exact absurd (ExtTreeMap.isSome_getElem?_iff_mem.mp (by simp [stored])) unwanted

/-- A group that misses replicas can be placed on the vacant hosts that its filter selects. -/
theorem Ready.admits_iff (ready : Ready state demand shard.id tally plan start)
    (desired : state.undesired demand shard.id = []) {count : ℤ} (wanted : demand.desired[group]? = some count)
    (lacks : (state.matching demand shard.id group : ℤ) < count) {host : Host} :
    demand.admits tally group host ↔ demand.selects group host ∧ state.Vacant shard.id host := by
  have missing : tally.found.getD group 0 ≠ count := by
    rw [ready.found wanted, foundIn_eq_matching desired]
    omega
  rw [← ready.vacant_iff desired, Placing.free, ready.occupied]
  simp [Demand.admits, Demand.isOpen, wanted, missing, and_comm]

theorem Ready.mem_listed_iff (ready : Ready state demand shard.id tally plan start)
    (desired : state.undesired demand shard.id = []) {count : ℤ} (wanted : demand.desired[group]? = some count)
    (lacks : (state.matching demand shard.id group : ℤ) < count) {host : Host} :
    host ∈ (start.matches_.getD group []).filter start.free ↔
      host ∈ state.hostIterate ∧ demand.selects group host ∧ state.Vacant shard.id host := by
  rw [List.mem_filter, ready.listed, List.mem_filter, ready.admits_iff desired wanted lacks, ready.vacant_iff desired]
  tauto

/-- A host that is picked is registered, selected and vacant. -/
theorem Ready.of_placed (ready : Ready state demand shard.id tally plan start)
    (desired : state.undesired demand shard.id = []) (run : AddRun chooses plan start placed err) {one : Placed}
    (member : one ∈ placed) :
    one.host ∈ state.hostIterate ∧ demand.selects one.group one.host ∧ state.Vacant shard.id one.host := by
  have offers := run.offers member
  have lacks := ready.lacks offers
  exact ⟨lacks.registered, lacks.selected, (ready.vacant_iff desired).mp offers.free⟩

/-- A host is picked only for a group that misses replicas. -/
theorem Ready.lacks_of_placed (ready : Ready state demand shard.id tally plan start)
    (desired : state.undesired demand shard.id = []) (run : AddRun chooses plan start placed err) {one : Placed}
    (member : one ∈ placed) :
    ∃ count, demand.desired[one.group]? = some count ∧ (state.matching demand shard.id one.group : ℤ) < count := by
  rw [← foundIn_eq_matching desired]
  exact (ready.lacks (run.offers member)).lacks

end Created

section Quorum

variable {snapshot : Snapshot} {shard : Shard} {demand : Demand}
  {chooses : Placing → String → Option (List String) → Prop} {plan : Plan} {start : Placing} {err : Option String}
  {group : String}

/-- Where no host was picked at all, no call has failed. -/
theorem AddRun.unfailing_of_nil (run : AddRun chooses plan start [] err) : err = none := by
  cases err with
  | none => rfl
  | some err =>
    obtain ⟨front, last, split, -⟩ := run.ended
    simp at split

/-- If no host was picked at all, each group misses nothing or is stuck from the start. -/
theorem AddRun.stuck_of_nil (run : AddRun chooses plan start [] err) (planned : group ∈ plan.groups) :
    (plan.missing.getD group 0).toNat = 0 ∨ start.Stuck chooses group := by
  obtain enough | ⟨front, back, middle, split, reached, stuck⟩ := run.stops run.unfailing_of_nil group planned
  · exact .inl (by simpa using enough)
  · obtain ⟨rfl, -⟩ := List.append_eq_nil_iff.mp split.symm
    rw [Path.nil_iff.mp reached] at stuck
    exact .inr stuck

/-- Without a change a group has what it wants, or every host that its filter selects holds a replica. -/
theorem PassRun.complete_of_quiet {attempts : List Attempt} {made : List (Σ op, ControlRes op)}
    (run : PassRun Unvaried snapshot.state shard demand err attempts made) (plain : demand.vary = ∅)
    (quiet : made = []) {count : ℤ} (wanted : demand.desired[group]? = some count)
    {host : Host} (registered : host ∈ snapshot.state.hostIterate) (selected : demand.selects group host)
    (vacant : snapshot.state.Vacant shard.id host) : count ≤ snapshot.state.matching demand shard.id group := by
  cases run with
  | idle desired complete => exact foundIn_eq_matching desired ▸ complete group count wanted
  | delete undesired => cases quiet
  | @add tally plan start placed _ desired ready _ run =>
    cases List.map_eq_nil_iff.mp (List.map_eq_nil_iff.mp quiet)
    by_contra lacks
    have present : group ∈ demand.desired := ExtTreeMap.isSome_getElem?_iff_mem.mp (by simp [wanted])
    have planned : group ∈ plan.groups := ready.planned.groups.mem_iff.mpr (ExtTreeMap.mem_keys.mpr present)
    have listed := (ready.mem_listed_iff desired wanted (by omega)).mpr ⟨registered, selected, vacant⟩
    have unvaried : start.varyCount.getD group ∅ = ∅ := by simp [ready.varyCount, ready.tallied.unvaried (.inl plain)]
    obtain enough | empty | gives_up | ⟨varyTags, chosen, nobody⟩ := run.stuck_of_nil planned
    · rw [ready.planned.getD_missing wanted, ready.found wanted, foundIn_eq_matching desired] at enough
      omega
    · simp [empty] at listed
    · cases gives_up unvaried
    · cases chosen unvaried
      rw [Placing.pick_eq, List.find?_eq_none] at nobody
      exact nobody host listed rfl

/-- Where every group has what it asks for and every replica is wanted, a pass changes nothing. -/
theorem PassRun.quiet_of_complete {attempts : List Attempt} {made : List (Σ op, ControlRes op)}
    (run : PassRun chooses snapshot.state shard demand err attempts made)
    (desired : snapshot.state.undesired demand shard.id = [])
    (complete : ∀ (group : String) (count : ℤ), demand.desired[group]? = some count →
      count ≤ snapshot.state.matching demand shard.id group) : err = none ∧ made = [] := by
  cases run with
  | idle => exact ⟨rfl, rfl⟩
  | delete undesired => cases desired.symm.trans undesired
  | @add tally plan start placed _ desired ready _ run =>
    obtain rfl : placed = [] := by
      refine List.eq_nil_iff_forall_not_mem.mpr fun one member => ?_
      obtain ⟨count, wanted, lacks⟩ := ready.lacks_of_placed desired run member
      exact absurd (complete one.group count wanted) (by omega)
    exact ⟨run.unfailing_of_nil, rfl⟩

/-- The replicas of a shard on hosts that match a filter. -/
def State.hostedUnder (state : State) (shardID : ℕ) (filter : List String) : ℕ :=
  (state.replicaIterateByShardID shardID).countP fun replica =>
    matchTagFilter (state.hostOrZero replica.hostID).tags filter

def State.voting (state : State) (shardID : ℕ) : ℕ :=
  (state.replicaIterateByShardID shardID).countP fun replica => !replica.isNonVoting

/-- A quiet pass over the shard leaves as many voters as its tags ask for, whatever else they ask for, as long as the
members go to the hosts that match the filter and nothing is varied. -/
def KeepsQuorum (snapshot : Snapshot) (shardID : ℕ) (filter : List String) : Prop :=
  ∀ (shard : Shard) (value : String) (size : ℤ), shard.id = shardID → shard.tags.varies = false →
    (shard.tags.getD ∅)["placement:member"]? = some value → atoi ((split ';' value).headD "") = some size →
    (∀ host : Host, matchTagFilter host.tags (split ';' value).tail = matchTagFilter host.tags filter) →
    (reconcile snapshot shard).Records (fun _ _ => True) fun err calls => err = none → changes calls = [] →
      size ≤ snapshot.state.voting shardID

/-- Maps are visited in the order of their keys, and every call succeeds. -/
def inOrder : (op : ControlOp) → ControlRes op
  | .order count => .unmoved count
  | .create .. => .ok 0
  | .delete _ => .ok ()

/-- The registry after a log, for shards that look no tag up. -/
def Snapshot.after (log : List Entry) : Snapshot := ⟨((Fsm.run {} log).toOption.map Prod.fst).getD {}, fun _ => []⟩

/-- Shard one of a registry. -/
def Snapshot.firstShard (snapshot : Snapshot) : Shard := (snapshot.state.shard 1).getD {}

section Counted

variable {shardID : ℕ} {filter : List String}

/-- A shard that asks for as many members as it has replicas where they may be, and for all others to be left alone. -/
def countedShard (state : State) (shardID : ℕ) (filter : List String) : Shard where
  id := shardID
  tags := some (ExtTreeMap.ofList
    [("placement:member", toString (state.hostedUnder shardID filter : ℤ) ++ ";" ++ ";".intercalate filter),
      ("placement:replica:rest", "0")])

/-- What such a shard asks for. -/
def countedDemand (size : ℕ) (filter : List String) : Demand where
  desired := ((∅ : Counts).insert "member" (size : ℤ)).insert "rest" 0
  filters := ((∅ : ExtTreeMap String (List String)).insert "member" (if filter = [] then [""] else filter)).insert
    "rest" []

theorem demand_countedShard {state : State} {lookup : String → List Host}
    (few : state.hostedUnder shardID filter < 2 ^ 63) (plain : ∀ tag ∈ filter, ';' ∉ tag.toList) :
    Demand.ofTags lookup (countedShard state shardID filter).tags =
      countedDemand (state.hostedUnder shardID filter) filter := by
  have listed (value : String) :
      (ExtTreeMap.ofList [("placement:member", value), ("placement:replica:rest", "0")]).toList =
        [("placement:member", value), ("placement:replica:rest", "0")] := rfl
  have member (demand : Demand) (value : String) :
      demand.addTag lookup "placement:member" value = demand.group "member" value := rfl
  have rest (demand : Demand) : demand.addTag lookup "placement:replica:rest" "0" = demand.group "rest" "0" := rfl
  have zero : atoi ((split ';' "0").headD "") = some 0 := by decide
  have sized : atoi ((split ';' (toString (state.hostedUnder shardID filter : ℤ) ++ ";" ++
      ";".intercalate filter)).headD "") = some (state.hostedUnder shardID filter : ℤ) := by
    rw [split_option _ plain, List.headD_cons, atoi_toString (by omega)]
  rw [Demand.ofTags, countedShard, Option.getD_some, listed, List.foldl_cons, List.foldl_cons, List.foldl_nil]
  dsimp only
  rw [member, rest, Demand.group_eq _ zero, Demand.group_eq _ sized, split_option _ plain, List.tail_cons]
  rfl

/-- Every host matches the filter of the second group. -/
theorem countedDemand_wants (size : ℕ) (filter : List String) (host : Host) : (countedDemand size filter).wants host :=
  List.any_eq_true.mpr ⟨"rest", by simp [countedDemand],
    by simp [countedDemand, Demand.counts, Demand.selects, Demand.varied, matchTagFilter]⟩

theorem matching_countedDemand (state : State) (size : ℕ) :
    state.matching (countedDemand size filter) shardID "member" = state.hostedUnder shardID filter := by
  have filters : (countedDemand size filter).filters.getD "member" [] = if filter = [] then [""] else filter := by
    simp [countedDemand, ExtTreeMap.getD_insert]
  simp only [State.matching, State.hostedUnder, Demand.selects, filters, matchTagFilter_option]

/-- A pass over it changes nothing. -/
theorem countedShard_quiet (few : snapshot.state.hostedUnder shardID filter < 2 ^ 63)
    (plain : ∀ tag ∈ filter, ';' ∉ tag.toList) :
    (reconcile snapshot (countedShard snapshot.state shardID filter)).Records (fun _ _ => True) fun err calls =>
      err = none ∧ changes calls = [] := by
  rw [← err_reconcileTraced, map_eq_pure_bind]
  refine (reconcileTraced_records chooseVaryTags_ends).bind fun ⟨demand, err, attempts⟩ calls ⟨resolved, run⟩ => ?_
  change err = none ∧ changes (calls ++ []) = []
  rw [List.append_nil]
  obtain ⟨visited, listed, same⟩ := resolved
  have once : (countedShard snapshot.state shardID filter).tags.coversOnce := rfl
  rw [Demand.resolve_eq_ofTags once listed, demand_countedShard few plain] at same
  dsimp only at same run
  subst same
  refine run.quiet_of_complete ?_ fun group count wanted => ?_
  · refine List.map_eq_nil_iff.mpr (List.filter_eq_nil_iff.mpr fun replica _ => ?_)
    simp [countedDemand_wants]
  · rw [countedDemand, ExtTreeMap.getElem?_insert, ExtTreeMap.getElem?_insert] at wanted
    split at wanted
    · cases wanted
      exact Int.natCast_nonneg _
    · split at wanted
      · next is =>
        cases LawfulEqCmp.compare_eq_iff_eq.mp is
        cases wanted
        exact (congrArg Nat.cast (matching_countedDemand ..).symm).le
      · simp at wanted

end Counted

/-- Members are counted by their hosts. So where a host is free for one, quiet passes leave a shard with the voters it
asks for, however many that are, exactly if it has as many voters as replicas on hosts for members. -/
theorem quiet_quorum_iff {shardID : ℕ} {filter : List String} (plain : ∀ tag ∈ filter, ';' ∉ tag.toList)
    (few : snapshot.state.hostedUnder shardID filter < 2 ^ 63)
    (free : ∃ host ∈ snapshot.state.hostIterate, matchTagFilter host.tags filter ∧
      snapshot.state.Vacant shardID host) :
    KeepsQuorum snapshot shardID filter ↔
      snapshot.state.hostedUnder shardID filter ≤ snapshot.state.voting shardID := by
  constructor
  · intro keeps
    have quiet := (countedShard_quiet few plain).of_answered inOrder fun _ => trivial
    refine Int.ofNat_le.mp ((keeps (countedShard snapshot.state shardID filter) _ _ rfl rfl rfl ?_ ?_).of_answered
      inOrder (fun _ => trivial) quiet.1 quiet.2)
    · rw [split_option _ plain, List.headD_cons, atoi_toString (by omega)]
    · intro host
      rw [split_option _ plain, List.tail_cons, matchTagFilter_option]
  · rintro enough shard value size rfl unvaried given sized same
    rw [← err_reconcileTraced, map_eq_pure_bind]
    refine (reconcileTraced_records chooseVaryTags_ends).bind fun ⟨demand, err, attempts⟩ calls ⟨resolved, run⟩ => ?_
    intro unfailing quiet
    rw [List.append_nil] at quiet
    obtain ⟨visited, listed, rfl⟩ := resolved
    obtain ⟨wanted, filters⟩ : (Demand.resolve snapshot.hostIterateByTag visited).desired["member"]? = some size ∧
        (Demand.resolve snapshot.hostIterateByTag visited).filters.getD "member" [] = (split ';' value).tail :=
      Demand.member_resolve sized given listed
    obtain ⟨host, registered, selected, vacant⟩ := free
    have members := run.complete_of_quiet (Demand.unvaried_resolve unvaried listed) quiet wanted registered
      (by rwa [Demand.selects, filters, same]) vacant
    simp only [State.matching, Demand.selects, filters, same] at members
    exact members.trans (Int.ofNat_le.mpr enough)

/-- A shard gets a replica with or without a vote, and then asks for a member in the same zone. -/
def zoneLog (isNonVoting : Bool) : List Entry :=
  [{ index := 1, cmd := .host .put { Fsm.exampleHost with tags := tagMapFromList ["zone=a"] } },
    { index := 2
      cmd := .host .put { id := "00000000-0000-4000-8000-000000000002", tags := tagMapFromList ["zone=a"] } },
    { index := 3
      cmd := newCmdShardPost { type := "kv", tags := tagMapFromList ["placement:replica:read=1;zone=a"] } },
    { index := 4, cmd := newCmdReplicaPost Fsm.exampleHost.id 1 isNonVoting },
    { index := 5, cmd := newCmdTagsSet (.shard { id := 1 }) ["placement:member=1;zone=a"] }]

def zoneSnapshot (isNonVoting : Bool) : Snapshot := .after (zoneLog isNonVoting)

def zoneShard (isNonVoting : Bool) : Shard := (zoneSnapshot isNonVoting).firstShard

private theorem zoneLog_quiet : ∀ isNonVoting,
    ((reconcile (zoneSnapshot isNonVoting) (zoneShard isNonVoting)).answered inOrder).1 = none ∧
      changes ((reconcile (zoneSnapshot isNonVoting) (zoneShard isNonVoting)).answered inOrder).2 = [] ∧
      (∃ host ∈ (zoneSnapshot isNonVoting).state.hostIterate, matchTagFilter host.tags ["zone=a"] ∧
        (zoneSnapshot isNonVoting).state.Vacant 1 host) ∧
      (zoneSnapshot isNonVoting).state.hostedUnder 1 ["zone=a"] = 1 ∧
      (zoneSnapshot isNonVoting).state.voting 1 = (!isNonVoting).toNat := by
  decide +kernel

/-- The read replica counts as the member, although a host is free. -/
theorem read_replica_counts_as_member :
    ¬ (reconcile (zoneSnapshot true) (zoneShard true)).Records (fun _ _ => True) fun err calls =>
      err = none → changes calls = [] →
        (∃ host ∈ (zoneSnapshot true).state.hostIterate, matchTagFilter host.tags ["zone=a"] ∧
          (zoneSnapshot true).state.Vacant 1 host) →
        1 ≤ (zoneSnapshot true).state.voting 1 := by
  intro held
  obtain ⟨unfailing, quiet, free, -, voteless⟩ := zoneLog_quiet true
  have quorum := held.of_answered inOrder (fun _ => trivial) unfailing quiet free
  rw [voteless] at quorum
  cases quorum

/-- A replica with a vote keeps the quorum, and one without does not. -/
theorem voting_replica_keeps_quorum :
    KeepsQuorum (zoneSnapshot false) 1 ["zone=a"] ∧ ¬ KeepsQuorum (zoneSnapshot true) 1 ["zone=a"] := by
  have plain : ∀ tag ∈ ["zone=a"], ';' ∉ tag.toList := by decide
  obtain ⟨-, -, free, placed, voting⟩ := zoneLog_quiet false
  obtain ⟨-, -, free', placed', voting'⟩ := zoneLog_quiet true
  refine ⟨(quiet_quorum_iff plain (by rw [placed]; decide) free).mpr ?_, fun keeps => ?_⟩
  · rw [placed, voting]
    rfl
  · have enough := (quiet_quorum_iff plain (by rw [placed']; decide) free').mp keeps
    rw [placed', voting'] at enough
    cases enough

end Quorum

end Zongzi
