import Zongzi.Proofs.Convergence
import Zongzi.Proofs.TracedPass

/-! # What the controller makes of the vary policy

A shard with the tag `placement:vary` asks for its replicas to be spread over the values of a tag. What is
compared are not the values with free hosts but those with replicas, so the controller places a replica only
while every replica of the group has one and the same value, and then where the others are.
-/

namespace Zongzi

open Std Machine

section Values

variable {state : State} {demand : Demand} {shard : Shard} {key group value : String} {tally : Tally} {plan : Plan}
  {start : Placing}

/-- The replicas of a shard that count for a group and have a value of the tag. -/
def State.held (state : State) (demand : Demand) (shardID : ℕ) (key group value : String) : ℕ :=
  (state.replicaIterateByShardID shardID).countP fun replica =>
    demand.selects group (state.hostOrZero replica.hostID) &&
      (state.hostOrZero replica.hostID).value key = some value

theorem countP_heldBy : (state.replicaIterateByShardID shard.id).countP (heldBy state demand key group
    (writeTag key value)) = state.held demand shard.id key group value := by
  refine List.countP_congr fun replica _ => ?_
  rw [heldBy]
  congr! 2
  rw [decide_eq_decide]
  constructor
  · intro same
    obtain ⟨other, valued, written⟩ := Option.map_eq_some_iff.mp same
    rw [valued, writeTag_inj written]
  · intro valued
    rw [valued, Option.map_some]

theorem exists_value_of_heldBy {tag : String} (some_replica : (state.replicaIterateByShardID shard.id).countP
    (heldBy state demand key group tag) ≠ 0) : ∃ value, tag = writeTag key value := by
  obtain ⟨replica, -, held⟩ := List.countP_pos_iff.mp (Nat.pos_of_ne_zero some_replica)
  rw [heldBy, Bool.and_eq_true, decide_eq_true_eq] at held
  obtain ⟨value, -, rfl⟩ := Option.map_eq_some_iff.mp held.2
  exact ⟨value, rfl⟩

/-- The values that are held decide what is chosen. -/
inductive ChoiceView (held : String → ℕ) (hosts : List Host) (key group : String) : Option (List String) → Prop
  | none_held (none_ : ∀ value, held value = 0) : ChoiceView held hosts key group (some [])
  | one {value : String} (holds : 0 < held value) (only : ∀ other, 0 < held other → other = value) :
      ChoiceView held hosts key group (if ∀ host ∈ hosts, (host.value key).getD "" ≠ value then none
        else some (if group = "member" then [] else [writeTag key value]))
  | several {value other : String} (different : value ≠ other) (holds : 0 < held value) (also : 0 < held other) :
      ChoiceView held hosts key group none

theorem choice_view (valued : Valued state demand shard.id start) (vary : demand.vary.toList = [(key, true)])
    (wanted : group ∈ demand.desired) :
    ChoiceView (state.held demand shard.id key group) (start.matches_.getD group []) key group
      (start.choice group) := by
  have spread := valued.spread key vary group wanted
  have stored (value : String) : (start.varyCount.getD group ∅)[writeTag key value]? =
      positive (state.held demand shard.id key group value) := by rw [spread, countP_heldBy]
  have counted {tag : String} {count : ℤ} (listed : (tag, count) ∈ (start.varyCount.getD group ∅).toList) :
      ∃ value, tag = writeTag key value ∧ 0 < state.held demand shard.id key group value := by
    rw [ExtTreeMap.mem_toList_iff_getElem?_eq_some] at listed
    have some_replica : (state.replicaIterateByShardID shard.id).countP (heldBy state demand key group tag) ≠ 0 := by
      intro zero
      rw [spread, zero] at listed
      cases listed
    obtain ⟨value, rfl⟩ := exists_value_of_heldBy some_replica
    rw [countP_heldBy] at some_replica
    exact ⟨value, rfl, Nat.pos_of_ne_zero some_replica⟩
  have lists {value : String} (holds : 0 < state.held demand shard.id key group value) :
      (writeTag key value, (state.held demand shard.id key group value : ℤ)) ∈
        (start.varyCount.getD group ∅).toList := by
    rw [ExtTreeMap.mem_toList_iff_getElem?_eq_some, stored, positive, if_neg holds.ne']
  unfold Placing.choice
  rcases listed : (start.varyCount.getD group ∅).toList with _ | ⟨⟨tag, count⟩, _ | ⟨⟨second, more⟩, rest⟩⟩
  · refine .none_held fun value => ?_
    by_contra holds
    have member := lists (Nat.pos_of_ne_zero holds)
    simp [listed] at member
  · obtain ⟨value, rfl, holds⟩ := counted (by rw [listed]; exact List.mem_singleton_self _)
    have only (other : String) (also : 0 < state.held demand shard.id key group other) : other = value := by
      have member := lists also
      rw [listed, List.mem_singleton] at member
      exact writeTag_inj (congrArg Prod.fst member)
    have none_iff : (start.varyMatch.getD group ∅).getD (writeTag key value) 0 = 0 ↔
        ∀ host ∈ start.matches_.getD group [], (host.value key).getD "" ≠ value := by
      rw [valued.matched key vary, Int.natCast_eq_zero, List.countP_eq_zero]
      simp only [decide_eq_true_eq]
      refine forall₂_congr fun host _ => not_congr ⟨writeTag_inj, fun same => by rw [same]⟩
    have view : ChoiceView (state.held demand shard.id key group) (start.matches_.getD group []) key group _ :=
      .one holds only
    simpa only [none_iff] using view
  · obtain ⟨value, rfl, holds⟩ := counted (by rw [listed]; exact List.mem_cons_self)
    obtain ⟨other, rfl, also⟩ := counted (by rw [listed]; exact List.mem_cons_of_mem _ List.mem_cons_self)
    refine .several (fun same => ?_) holds also
    have distinct := ExtTreeMap.distinct_keys_toList (t := start.varyCount.getD group ∅)
    rw [listed, same] at distinct
    simp at distinct

end Values

section Progress

variable {snapshot : Snapshot} {state : State} {demand : Demand} {shard : Shard} {key group : String} {tally : Tally}
  {plan : Plan} {start : Placing}

def ControlOp.isCreate : ControlOp → Bool
  | .create .. => true
  | _ => false

/-- A free host of the group has the value that all replicas of the group have. For the member group a host
without the tag has the empty value. -/
def State.Joins (state : State) (demand : Demand) (shardID : ℕ) (key group : String) (host : Host) : Prop :=
  host ∈ state.hostIterate ∧ demand.selects group host ∧ state.Vacant shardID host ∧
    ∀ value, 0 < state.held demand shardID key group value →
      if group = "member" then (host.value key).getD "" = value else host.value key = some value

/-- Some group that misses replicas has such a host. -/
def State.Extends (state : State) (demand : Demand) (shardID : ℕ) (key : String) : Prop :=
  ∃ group count host, demand.desired[group]? = some count ∧ (state.matching demand shardID group : ℤ) < count ∧
    state.Joins demand shardID key group host

theorem matchTagFilter_writeTag (named : isTagKey key) (host : Host) (value : String) :
    matchTagFilter host.tags [writeTag key value] ↔ host.value key = some value := by
  have nonempty : writeTag key value ≠ "" := by
    intro empty
    have lengths := congrArg (fun text => text.toList.length) empty
    simp [toList_writeTag] at lengths
  simp [matchTagFilter, parseTag_writeTag named, nonempty, Host.value]

theorem pick_eq_none_iff {varyTags : List String} : start.pick group varyTags = none ↔
    ∀ host ∈ (start.matches_.getD group []).filter start.free, matchTagFilter host.tags varyTags = false := by
  rw [Placing.pick_eq, List.find?_eq_none]
  simp only [Bool.not_eq_true]

/-- A group that misses replicas cannot be extended from the start exactly if no free host joins the others. -/
theorem cannot_pick_iff (named : isTagKey key) (ready : Ready state demand shard.id tally plan start)
    (desired : state.undesired demand shard.id = []) (valued : Valued state demand shard.id start)
    (vary : demand.vary.toList = [(key, true)]) {count : ℤ} (wanted : demand.desired[group]? = some count)
    (lacks : (state.matching demand shard.id group : ℤ) < count) :
    (start.choice group).bind (start.pick group) = none ↔ ∀ host, ¬ state.Joins demand shard.id key group host := by
  have present : group ∈ demand.desired := ExtTreeMap.isSome_getElem?_iff_mem.mp (by simp [wanted])
  have free {host : Host} (member : host ∈ start.matches_.getD group []) :
      host ∈ (start.matches_.getD group []).filter start.free := by
    refine List.mem_filter.mpr ⟨member, ?_⟩
    rw [ready.listed, List.mem_filter, Demand.admits, Bool.and_eq_true, Bool.and_eq_true] at member
    rw [Placing.free, ready.occupied]
    exact member.2.1.2
  have joins_iff (host : Host) : state.Joins demand shard.id key group host ↔
      host ∈ (start.matches_.getD group []).filter start.free ∧
        ∀ value, 0 < state.held demand shard.id key group value →
          if group = "member" then (host.value key).getD "" = value else host.value key = some value := by
    rw [ready.mem_listed_iff desired wanted lacks, State.Joins, and_assoc, and_assoc]
  simp only [joins_iff, not_and]
  have view := choice_view valued vary present
  generalize start.choice group = chosen at view ⊢
  cases view with
  | none_held none_ =>
    rw [Option.bind_some, pick_eq_none_iff]
    simp [none_, matchTagFilter]
  | @one value holds only =>
    have joins (host : Host) : (∀ other, 0 < state.held demand shard.id key group other →
        if group = "member" then (host.value key).getD "" = other else host.value key = some other) ↔
        if group = "member" then (host.value key).getD "" = value else host.value key = some value :=
      ⟨fun all => all value holds, fun here other also => only other also ▸ here⟩
    simp only [joins]
    split
    · next nobody =>
      refine iff_of_true rfl fun host member joins => nobody host (List.mem_filter.mp member).1 ?_
      split at joins
      · exact joins
      · rw [joins, Option.getD_some]
    · next somebody =>
      rw [Option.bind_some, pick_eq_none_iff]
      by_cases member : group = "member"
      · push Not at somebody
        obtain ⟨host, listed, valued⟩ := somebody
        refine iff_of_false (fun none_ => ?_) fun none_ => none_ host (free listed) ?_
        · have refused := none_ host (free listed)
          simp [member, matchTagFilter] at refused
        · rwa [if_pos member]
      · simp only [if_neg member]
        refine forall₂_congr fun host _ => ?_
        rw [← Bool.not_eq_true, matchTagFilter_writeTag named]
  | @several value other different holds also =>
    refine iff_of_true rfl fun host _ joins => different ?_
    have first := joins value holds
    have second := joins other also
    by_cases member : group = "member"
    · rw [if_pos member] at first second
      exact first.symm.trans second
    · rw [if_neg member] at first second
      exact Option.some.inj (first.symm.trans second)

theorem exists_isCreate_iff {calls : List (Σ op, ControlRes op)} {attempts : List Attempt}
    (made : changes calls = attempts.map Attempt.call) : (∃ call ∈ calls, call.1.isCreate) ↔ attempts ≠ [] := by
  constructor
  · rintro ⟨call, member, creates⟩ rfl
    have change : call ∈ changes calls := by
      refine List.mem_filter.mpr ⟨member, ?_⟩
      obtain ⟨op, answer⟩ := call
      cases op with
      | create => rfl
      | order => cases creates
      | delete => cases creates
    simp [made] at change
  · intro some_attempt
    obtain ⟨attempt, member⟩ := List.exists_mem_of_ne_nil attempts some_attempt
    have change : attempt.call ∈ changes calls := made ▸ List.mem_map_of_mem member
    exact ⟨attempt.call, (List.mem_filter.mp change).1, rfl⟩

theorem Valued.keyed (valued : Valued state demand shard.id start) (vary : demand.vary.toList = [(key, true)]) :
    start.Keyed key := by
  intro group tag count found
  by_cases wanted : group ∈ demand.desired
  · rw [valued.spread key vary group wanted, positive] at found
    split at found
    · cases found
    · next some_replica =>
      cases found
      exact ⟨by omega, exists_value_of_heldBy some_replica⟩
  · rw [valued.rest key vary group wanted] at found
    simp at found

theorem Placing.Stuck.cannot_pick (keyed : start.Keyed key) (stuck : start.Stuck (Placing.Chooses key) group) :
    (start.choice group).bind (start.pick group) = none := by
  obtain empty | gives_up | ⟨varyTags, chosen, nobody⟩ := stuck
  · rw [Option.bind_eq_none_iff]
    intro varyTags _
    rw [Placing.pick, empty]
    rfl
  · rw [← gives_up keyed]
    rfl
  · rw [← chosen keyed]
    exact nobody

/-- A pass creates a replica exactly if a free host joins the replicas of a group that misses some. -/
theorem vary_creates_iff (named : isTagKey key) (varies : (shard.tags.getD ∅)["placement:vary"]? = some key) :
    (reconcileTraced snapshot shard).Records (fun _ _ => True) fun trace calls =>
      snapshot.state.undesired trace.demand shard.id = [] →
        ((∃ call ∈ calls, call.1.isCreate) ↔ snapshot.state.Extends trace.demand shard.id key) := by
  refine (reconcileTraced_records (chooseVaryTags_chooses named)).mono
    fun ⟨demand, err, attempts⟩ calls ⟨⟨visited, listed, same⟩, run⟩ desired => ?_
  dsimp only at same run desired ⊢
  have vary : demand.vary.toList = [(key, true)] := by
    rw [same, Demand.vary_resolve varies listed, toList_insert_empty]
  generalize made : changes calls = changed at run
  cases run with
  | idle _ complete =>
    have made : changes calls = ([] : List Attempt).map Attempt.call := made
    rw [exists_isCreate_iff made]
    refine iff_of_false (by simp) ?_
    rintro ⟨group, count, host, wanted, lacks, -⟩
    have enough := complete group count wanted
    rw [foundIn_eq_matching desired] at enough
    omega
  | delete undesired => cases desired.symm.trans undesired
  | @add tally plan start placed _ _ ready valued run =>
    rw [exists_isCreate_iff made]
    have keyed := valued.keyed vary
    constructor
    · intro some_attempt
      cases placed with
      | nil => exact absurd rfl some_attempt
      | cons one rest =>
        obtain ⟨final, path⟩ := run.path
        obtain ⟨middle, ⟨varyTags, chosen, picked, -⟩, -⟩ := Path.cons_iff.mp path
        obtain ⟨count, wanted, lacks⟩ := ready.lacks_of_placed desired run List.mem_cons_self
        have picks : (start.choice one.group).bind (start.pick one.group) ≠ none := by
          rw [← chosen keyed, Option.bind_some, picked]
          simp
        rw [Ne, cannot_pick_iff named ready desired valued vary wanted lacks] at picks
        push Not at picks
        obtain ⟨host, joins⟩ := picks
        exact ⟨one.group, count, host, wanted, lacks, joins⟩
    · rintro ⟨group, count, host, wanted, lacks, joins⟩ none_
      cases List.map_eq_nil_iff.mp none_
      have present : group ∈ demand.desired := ExtTreeMap.isSome_getElem?_iff_mem.mp (by simp [wanted])
      have planned : group ∈ plan.groups := ready.planned.groups.mem_iff.mpr (ExtTreeMap.mem_keys.mpr present)
      obtain enough | stuck := run.stuck_of_nil planned
      · rw [ready.planned.getD_missing wanted, ready.found wanted, foundIn_eq_matching desired] at enough
        omega
      · exact (cannot_pick_iff named ready desired valued vary wanted lacks).mp (stuck.cannot_pick keyed) host joins

/-- Three hosts in zones, and a shard that wants members in different ones. -/
def zonesLog (second third members : String) : List Entry :=
  [{ index := 1, cmd := .host .put { Fsm.exampleHost with tags := tagMapFromList ["zone=a"] } },
    { index := 2
      cmd := .host .put { id := "00000000-0000-4000-8000-000000000002", tags := tagMapFromList ["zone=" ++ second] } },
    { index := 3
      cmd := .host .put { id := "00000000-0000-4000-8000-000000000003", tags := tagMapFromList ["zone=" ++ third] } },
    { index := 4
      cmd := newCmdShardPost
        { type := "kv", tags := tagMapFromList ["placement:member=" ++ members, "placement:vary=zone"] } }]

/-- What a pass for the first shard comes to. -/
def Snapshot.pass (snapshot : Snapshot) : Trace × List (Σ op, ControlRes op) :=
  (reconcileTraced snapshot snapshot.firstShard).answered inOrder

theorem pass_of_records {post : Trace → List (Σ op, ControlRes op) → Prop}
    (records : (reconcileTraced snapshot snapshot.firstShard).Records (fun _ _ => True) post) :
    post snapshot.pass.1 snapshot.pass.2 :=
  records.of_answered inOrder fun _ => trivial

/-- The shard has no replica yet. -/
def freshSnapshot : Snapshot := .after (zonesLog "b" "c" "3")

/-- The shard got its three members and lost the last of them. -/
def lostSnapshot : Snapshot := .after (zonesLog "b" "c" "3" ++
  [{ index := 5, cmd := newCmdReplicaPost Fsm.exampleHost.id 1 false },
    { index := 6, cmd := newCmdReplicaPost "00000000-0000-4000-8000-000000000002" 1 false },
    { index := 7, cmd := newCmdReplicaPost "00000000-0000-4000-8000-000000000003" 1 false },
    { index := 8, cmd := newCmdReplicaDelete 3 }])

def lostShard : Shard := lostSnapshot.firstShard

private theorem lostSnapshot_evaluates :
    (lostShard.tags.getD ∅)["placement:vary"]? = some "zone" ∧
      lostSnapshot.state.undesired lostSnapshot.pass.1.demand lostShard.id = [] ∧
      lostSnapshot.pass.1.demand.desired["member"]? = some 3 ∧
      (lostSnapshot.state.matching lostSnapshot.pass.1.demand lostShard.id "member" : ℤ) < 3 ∧
      (∃ host ∈ lostSnapshot.state.hostIterate, lostSnapshot.pass.1.demand.selects "member" host ∧
        lostSnapshot.state.Vacant lostShard.id host ∧ host.value "zone" = some "c" ∧
        lostSnapshot.state.held lostSnapshot.pass.1.demand lostShard.id "zone" "member" "c" = 0) ∧
      ¬ ∃ call ∈ lostSnapshot.pass.2, call.1.isCreate := by
  decide +kernel

/-- The lost member is not replaced, although a host in a zone of its own is free. -/
theorem lost_member_not_replaced :
    ¬ (reconcileTraced lostSnapshot lostShard).Records (fun _ _ => True) fun trace calls =>
      lostSnapshot.state.undesired trace.demand lostShard.id = [] →
        (∃ group count host value, trace.demand.desired[group]? = some count ∧
          (lostSnapshot.state.matching trace.demand lostShard.id group : ℤ) < count ∧
          host ∈ lostSnapshot.state.hostIterate ∧
          trace.demand.selects group host ∧ lostSnapshot.state.Vacant lostShard.id host ∧
          host.value "zone" = some value ∧ lostSnapshot.state.held trace.demand lostShard.id "zone" group value = 0) →
        ∃ call ∈ calls, call.1.isCreate := by
  refine mt pass_of_records fun outcome => ?_
  obtain ⟨-, desired, wanted, lacks, ⟨host, registered, free⟩, quiet⟩ := lostSnapshot_evaluates
  exact quiet (outcome desired ⟨"member", 3, host, "c", wanted, lacks, registered, free⟩)

private theorem freshSnapshot_evaluates :
    (freshSnapshot.firstShard.tags.getD ∅)["placement:vary"]? = some "zone" ∧
      freshSnapshot.state.undesired freshSnapshot.pass.1.demand freshSnapshot.firstShard.id = [] ∧
      ∃ call ∈ freshSnapshot.pass.2, call.1.isCreate := by
  decide +kernel

/-- Any host extends a shard without replicas. Where two members are left, the free host joins neither. -/
theorem first_member_extends :
    freshSnapshot.state.Extends freshSnapshot.pass.1.demand freshSnapshot.firstShard.id "zone" ∧
      ¬ lostSnapshot.state.Extends lostSnapshot.pass.1.demand lostShard.id "zone" := by
  have creates {snapshot : Snapshot}
      (varies : (snapshot.firstShard.tags.getD ∅)["placement:vary"]? = some "zone") :=
    pass_of_records (@vary_creates_iff snapshot _ "zone" (by decide +kernel) varies)
  constructor
  · obtain ⟨varies, desired, made⟩ := freshSnapshot_evaluates
    exact (creates varies desired).mp made
  · obtain ⟨varies, desired, -, -, -, quiet⟩ := lostSnapshot_evaluates
    exact fun extends_ => quiet ((creates varies desired).mpr extends_)

end Progress

section Policy

variable {snapshot : Snapshot} {state : State} {demand : Demand} {shard : Shard} {key group : String} {tally : Tally}
  {plan : Plan} {start placing : Placing} {placed : List Placed} {err : Option String}

/-- The hosts that are free for a group after some calls of a pass, in the order in which they are registered. -/
def State.freeHosts (state : State) (demand : Demand) (shardID : ℕ) (group : String) (earlier : List Attempt) :
    List Host :=
  state.hostIterate.filter fun host => demand.selects group host &&
    (state.replicaIterateByShardID shardID).all (·.hostID ≠ host.id) && earlier.all (·.hostID ≠ host.id)

/-- The replicas of a group with a value, counting those that were created earlier in the pass. -/
def State.heldAfter (state : State) (demand : Demand) (shardID : ℕ) (key group : String) (earlier : List Attempt)
    (value : String) : ℕ :=
  state.held demand shardID key group value + earlier.countP fun attempt =>
    attempt.group = group && (state.hostOrZero attempt.hostID).value key = some value

/-- The host has a value that no more replicas of the group have than any value of a free host, and no member
if the group is that of the members. -/
def State.Fits (state : State) (demand : Demand) (shardID : ℕ) (key group : String) (earlier : List Attempt)
    (host : Host) : Prop :=
  ∃ value, host.value key = some value ∧
    (∀ other ∈ state.freeHosts demand shardID group earlier, ∀ rival, other.value key = some rival →
      state.heldAfter demand shardID key group earlier value ≤ state.heldAfter demand shardID key group earlier rival) ∧
    (group = "member" → state.heldAfter demand shardID key group earlier value = 0)

/-- The group is that of the members, or none of its replicas is counted. -/
def State.TakesAny (state : State) (demand : Demand) (shardID : ℕ) (key group : String) : Prop :=
  group = "member" ∨ ∀ value, state.held demand shardID key group value = 0

/-- Where any host is taken, the first free one fits. Elsewhere no free host has a value that no replica has. -/
def State.Suits (state : State) (demand : Demand) (shardID : ℕ) (key group : String) (earlier : List Attempt) : Prop :=
  state.TakesAny demand shardID key group ∧ (∃ first,
    (state.freeHosts demand shardID group earlier).head? = some first ∧
    state.Fits demand shardID key group earlier first) ∨
  ¬ state.TakesAny demand shardID key group ∧ ∀ host ∈ state.freeHosts demand shardID group earlier,
    ∀ value, host.value key = some value → 0 < state.held demand shardID key group value

theorem Ready.freeHosts_eq (ready : Ready state demand shard.id tally plan start)
    (desired : state.undesired demand shard.id = []) {count : ℤ} (wanted : demand.desired[group]? = some count)
    (lacks : (state.matching demand shard.id group : ℤ) < count) (remaining : Remaining start placed placing) :
    (start.matches_.getD group []).filter placing.free =
      state.freeHosts demand shard.id group (placed.map (Placed.attempt shard)) := by
  rw [ready.listed, List.filter_filter, State.freeHosts]
  refine List.filter_congr fun host _ => ?_
  rw [Bool.eq_iff_iff, Bool.and_eq_true, remaining.free, ready.admits_iff desired wanted lacks,
    ready.vacant_iff desired]
  simp only [Bool.and_eq_true, List.all_eq_true, List.forall_mem_map, decide_eq_true_eq]
  change (state.Vacant shard.id host ∧ _) ∧ _ ↔ (_ ∧ state.Vacant shard.id host) ∧ _
  tauto

/-- Hosts that are picked for a group with one value have this value. -/
theorem value_of_placed (named : isTagKey key) (keyed : start.Keyed key)
    (path : Path (Placing.Places (Placing.Chooses key)) start placed placing) {one : Placed} (member : one ∈ placed)
    {varyTags : List String} (chosen : start.choice one.group = some varyTags) :
    matchTagFilter one.host.tags varyTags := by
  obtain ⟨front, back, rfl⟩ := List.append_of_mem member
  obtain ⟨before, after, reached, ⟨tags, chooses, picked, -⟩, -⟩ := path.cut
  obtain ⟨kept, same⟩ := choice_of_path named keyed reached
  cases (chooses kept).trans ((same one.group).trans chosen)
  rw [Placing.pick_eq] at picked
  have fits := List.find?_some picked
  exact fits

/-- The values that are held decide where a replica can go. -/
theorem takesAny_or_value (valued : Valued state demand shard.id start) (vary : demand.vary.toList = [(key, true)])
    (wanted : group ∈ demand.desired) {varyTags : List String} (chosen : start.choice group = some varyTags) :
    state.TakesAny demand shard.id key group ∧ varyTags = [] ∨
      ¬ state.TakesAny demand shard.id key group ∧ ∃ value, 0 < state.held demand shard.id key group value ∧
        (∀ other, 0 < state.held demand shard.id key group other → other = value) ∧
        varyTags = [writeTag key value] := by
  have view := choice_view valued vary wanted
  generalize start.choice group = choice at view chosen
  cases view with
  | none_held none_ =>
    cases chosen
    exact .inl ⟨.inr none_, rfl⟩
  | @one value holds only =>
    split at chosen
    · cases chosen
    · cases chosen
      by_cases member : group = "member"
      · exact .inl ⟨.inl member, if_pos member⟩
      · refine .inr ⟨?_, value, holds, only, if_neg member⟩
        rintro (is | none_)
        · exact member is
        · exact absurd (none_ value) holds.ne'
  | several => cases chosen

/-- Where all replicas of a group have one value, a further one fits exactly if no free host has another. -/
theorem fits_iff_of_value {earlier : List Attempt} {host : Host} {value : String}
    (holds : 0 < state.held demand shard.id key group value)
    (only : ∀ other, 0 < state.held demand shard.id key group other → other = value)
    (alike : ∀ attempt ∈ earlier, attempt.group = group → (state.hostOrZero attempt.hostID).value key = some value)
    (member : group ≠ "member") (here : host.value key = some value) :
    state.Fits demand shard.id key group earlier host ↔
      ∀ other ∈ state.freeHosts demand shard.id group earlier, ∀ rival, other.value key = some rival →
        0 < state.held demand shard.id key group rival := by
  have nobody {rival : String} (different : rival ≠ value) :
      state.heldAfter demand shard.id key group earlier rival = 0 := by
    have unheld : state.held demand shard.id key group rival = 0 :=
      Nat.eq_zero_of_not_pos fun also => different (only rival also)
    rw [State.heldAfter, unheld, Nat.zero_add, List.countP_eq_zero]
    intro attempt among matched
    rw [Bool.and_eq_true, decide_eq_true_eq, decide_eq_true_eq] at matched
    exact different (Option.some.inj (matched.2.symm.trans (alike attempt among matched.1)))
  constructor
  · rintro ⟨own, valued, fewest, -⟩ other free rival rivals
    cases here.symm.trans valued
    by_contra unheld
    have less := fewest other free rival rivals
    have different : rival ≠ value := fun same => unheld (same ▸ holds)
    rw [nobody different, State.heldAfter] at less
    omega
  · intro others
    refine ⟨value, here, fun other free rival rivals => ?_, fun is => absurd is member⟩
    rw [only rival (others other free rival rivals)]

/-- A replica of the members, or of a group without one, goes to the first free host. One of another group
goes where its others are. So the policy is kept exactly if this suits it. -/
theorem vary_policy_iff (named : isTagKey key) (varies : (shard.tags.getD ∅)["placement:vary"]? = some key) :
    (reconcileTraced snapshot shard).Records (fun _ _ => True) fun trace _ =>
      ∀ earlier attempt later, trace.attempts = earlier ++ attempt :: later →
        (snapshot.state.Fits trace.demand shard.id key attempt.group earlier
            (snapshot.state.hostOrZero attempt.hostID) ↔
          snapshot.state.Suits trace.demand shard.id key attempt.group earlier) := by
  refine (reconcileTraced_records (chooseVaryTags_chooses named)).mono
    fun ⟨demand, err, attempts⟩ calls ⟨⟨visited, listed, same⟩, run⟩ earlier attempt later split => ?_
  dsimp only at same run split ⊢
  have vary : demand.vary.toList = [(key, true)] := by
    rw [same, Demand.vary_resolve varies listed, toList_insert_empty]
  generalize changes calls = changed at run
  cases run with
  | idle => simp at split
  | delete => simp at split
  | @add tally plan start placed _ desired ready valued run =>
    obtain ⟨front, rest, rfl, rfl, tail⟩ := List.map_eq_append_iff.mp split
    obtain ⟨one, back, rfl, rfl, rfl⟩ := List.map_eq_cons_iff.mp tail
    obtain ⟨final, path⟩ := run.path
    obtain ⟨before, after, reached, ⟨varyTags, chooses, picked, -⟩, -⟩ := path.cut
    obtain ⟨count, wanted, lacks⟩ := ready.lacks_of_placed desired run (List.mem_append_right front List.mem_cons_self)
    obtain ⟨registered, -, -⟩ := ready.of_placed desired run (List.mem_append_right front List.mem_cons_self)
    have remaining := Remaining.of_path reached
    have free := ready.freeHosts_eq desired wanted lacks remaining
    obtain ⟨kept, same⟩ := choice_of_path named (valued.keyed vary) reached
    have chosen : start.choice one.group = some varyTags := (same one.group).symm.trans (chooses kept).symm
    have host_eq : snapshot.state.hostOrZero (one.attempt shard).hostID = one.host := hostOrZero_of_mem registered
    rw [remaining.pick_eq, free] at picked
    rw [host_eq]
    have present : one.group ∈ demand.desired := ExtTreeMap.isSome_getElem?_iff_mem.mp (by simp [wanted])
    obtain ⟨any, rfl⟩ | ⟨narrow, value, holds, only, rfl⟩ := takesAny_or_value valued vary present chosen
    · have first : (snapshot.state.freeHosts demand shard.id one.group
          (front.map (Placed.attempt shard))).head? = some one.host := by
        rw [← picked]
        cases snapshot.state.freeHosts demand shard.id one.group (front.map (Placed.attempt shard)) <;> rfl
      constructor
      · exact fun fits => .inl ⟨any, one.host, first, fits⟩
      · rintro (⟨-, host, here, fits⟩ | ⟨narrow, -⟩)
        · cases first.symm.trans here
          exact fits
        · exact absurd any narrow
    · have alike (attempt : Attempt) (among : attempt ∈ front.map (Placed.attempt shard))
          (same : attempt.group = one.group) :
          (snapshot.state.hostOrZero attempt.hostID).value key = some value := by
        obtain ⟨earlier, member, rfl⟩ := List.mem_map.mp among
        obtain ⟨registered, -, -⟩ := ready.of_placed desired run (List.mem_append_left _ member)
        have fits := value_of_placed named (valued.keyed vary) reached member (same ▸ chosen)
        have host_eq : snapshot.state.hostOrZero (earlier.attempt shard).hostID = earlier.host :=
          hostOrZero_of_mem registered
        rw [host_eq]
        exact (matchTagFilter_writeTag named earlier.host value).mp fits
      have here : one.host.value key = some value := by
        have fits := List.find?_some picked
        exact (matchTagFilter_writeTag named one.host value).mp fits
      have fits_iff := fits_iff_of_value holds only alike (fun member => narrow (.inl member)) here
      constructor
      · exact fun fits => .inr ⟨narrow, fits_iff.mp fits⟩
      · rintro (⟨any, -⟩ | ⟨-, others⟩)
        · exact absurd any narrow
        · exact fits_iff.mpr others

/-- The second of two members goes to a host in a zone with so many. -/
def Snapshot.secondMember (snapshot : Snapshot) (zone : String) (held : ℕ) : Bool :=
  (snapshot.firstShard.tags.getD ∅)["placement:vary"]? = some "zone" &&
    match snapshot.pass.1.attempts with
    | [first, second] => second.group = "member" ∧
        (snapshot.state.hostOrZero second.hostID).value "zone" = some zone ∧
        snapshot.state.heldAfter snapshot.pass.1.demand snapshot.firstShard.id "zone" "member" [first] zone = held
    | _ => false

private theorem secondMember_facts {zone : String} {held : ℕ} (created : snapshot.secondMember zone held) :
    (snapshot.firstShard.tags.getD ∅)["placement:vary"]? = some "zone" ∧
      ∃ first second, snapshot.pass.1.attempts = [first] ++ second :: [] ∧
        (snapshot.state.Fits snapshot.pass.1.demand snapshot.firstShard.id "zone" second.group [first]
          (snapshot.state.hostOrZero second.hostID) ↔ held = 0) := by
  rw [Snapshot.secondMember, Bool.and_eq_true, decide_eq_true_eq] at created
  obtain ⟨varies, pass⟩ := created
  split at pass
  · next first second made =>
    obtain ⟨member, valued, taken⟩ := of_decide_eq_true pass
    refine ⟨varies, first, second, made, ?_⟩
    rw [member]
    constructor
    · rintro ⟨value, same, -, alone⟩
      cases valued.symm.trans same
      exact taken.symm.trans (alone rfl)
    · rintro rfl
      exact ⟨zone, valued, fun _ _ _ _ => taken ▸ Nat.zero_le _, fun _ => taken⟩
  · cases pass

/-- Two hosts in one zone before one in another, and a shard that wants two members. -/
def unevenSnapshot : Snapshot := .after (zonesLog "a" "b" "2")

/-- The host in the other zone comes second. -/
def evenSnapshot : Snapshot := .after (zonesLog "b" "a" "2")

private theorem unevenSnapshot_shares : unevenSnapshot.secondMember "a" 1 := by
  decide +kernel

private theorem evenSnapshot_parts : evenSnapshot.secondMember "b" 0 := by
  decide +kernel

/-- Both members are created in the first zone, although a host in the second is free. -/
theorem members_share_zone :
    ¬ (reconcileTraced unevenSnapshot unevenSnapshot.firstShard).Records (fun _ _ => True) fun trace _ =>
      ∀ earlier attempt later, trace.attempts = earlier ++ attempt :: later →
        unevenSnapshot.state.Fits trace.demand unevenSnapshot.firstShard.id "zone" attempt.group earlier
          (unevenSnapshot.state.hostOrZero attempt.hostID) := by
  refine mt pass_of_records fun outcome => ?_
  obtain ⟨-, first, second, made, fits⟩ := secondMember_facts unevenSnapshot_shares
  exact absurd (fits.mp (outcome [first] second [] made)) (by decide)

/-- The second member is suited where the next host is in another zone, and not where it shares the first. -/
theorem second_zone_suits :
    (∃ first second, evenSnapshot.pass.1.attempts = [first] ++ second :: [] ∧
      evenSnapshot.state.Suits evenSnapshot.pass.1.demand evenSnapshot.firstShard.id "zone" second.group [first]) ∧
    ∃ first second, unevenSnapshot.pass.1.attempts = [first] ++ second :: [] ∧
      ¬ unevenSnapshot.state.Suits unevenSnapshot.pass.1.demand unevenSnapshot.firstShard.id "zone" second.group
        [first] := by
  have policy {snapshot : Snapshot}
      (varies : (snapshot.firstShard.tags.getD ∅)["placement:vary"]? = some "zone") :=
    pass_of_records (@vary_policy_iff snapshot _ "zone" (by decide +kernel) varies)
  constructor
  · obtain ⟨varies, first, second, made, fits⟩ := secondMember_facts evenSnapshot_parts
    exact ⟨first, second, made, (policy varies [first] second [] made).mp (fits.mpr rfl)⟩
  · obtain ⟨varies, first, second, made, fits⟩ := secondMember_facts unevenSnapshot_shares
    refine ⟨first, second, made, fun suits => ?_⟩
    exact absurd (fits.mp ((policy varies [first] second [] made).mpr suits)) (by decide)

end Policy

end Zongzi
