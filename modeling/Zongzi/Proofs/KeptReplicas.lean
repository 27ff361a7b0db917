import Zongzi.Proofs.Convergence

/-! # Replicas that are created and deleted again

A pass counts a replica for a group if its host has the tag that the shard asks to vary. It creates replicas
on hosts that a group's filter selects, and the first ones of a group, and every member, without looking at
that tag. So the next pass may delete what a pass has created, and it never does exactly when the hosts that
the filters select have the tag.
-/

namespace Zongzi

open Std Machine

section Faults

variable {before after : State}

/-- Serve the calls of a controller, which may see an error, also where the proposal is applied. -/
def serveFaulty : Serve State ControlOp ControlRes Choice := fun state op choice =>
  match op, choice with
  | .create hostID shardID isNonVoting, .timedOut index err =>
    (state.propose index (newCmdReplicaPost hostID shardID isNonVoting)).map fun (_, next) => (.error err, next)
  | .delete replicaID, .timedOut index err =>
    (state.propose index (newCmdReplicaDelete replicaID)).map fun (_, next) => (.error err, next)
  | .create .., .failed err => some (.error err, state)
  | .delete _, .failed err => some (.error err, state)
  | op, choice => serveControl state op choice

theorem faulty_cases {call : Σ op, ControlRes op} (served : Program.Served serveFaulty before call after) :
    after = before ∨
    (∃ hostID shardID isNonVoting index, call.1 = .create hostID shardID isNonVoting ∧
      Fsm.Advances before { index, cmd := newCmdReplicaPost hostID shardID isNonVoting } after) ∨
    ∃ replicaID index, call.1 = .delete replicaID ∧
      Fsm.Advances before { index, cmd := newCmdReplicaDelete replicaID } after := by
  obtain ⟨op, answer⟩ := call
  obtain ⟨choice, served⟩ := served
  dsimp only at answer served ⊢
  unfold serveFaulty at served
  split at served
  · obtain ⟨⟨result, next⟩, proposed, same⟩ := Option.map_eq_some_iff.mp served
    cases same
    exact .inr (.inl ⟨_, _, _, _, rfl, advances_of_propose proposed⟩)
  · obtain ⟨⟨result, next⟩, proposed, same⟩ := Option.map_eq_some_iff.mp served
    cases same
    exact .inr (.inr ⟨_, _, rfl, advances_of_propose proposed⟩)
  · cases served
    exact .inl rfl
  · cases served
    exact .inl rfl
  · have served : Program.Served serveControl before ⟨op, answer⟩ after := ⟨choice, served⟩
    obtain ⟨-, same⟩ | ⟨_, _, _, _, _, is, advances⟩ | ⟨_, _, is, advances⟩ := served_cases served
    · exact .inl same
    · cases is
      exact .inr (.inl ⟨_, _, _, _, rfl, advances⟩)
    · cases is
      exact .inr (.inr ⟨_, _, rfl, advances⟩)

/-- A replica that a deletion leaves was there before. -/
theorem replica_before_delete {replicaID index id : ℕ} {replica : Replica}
    (advances : Fsm.Advances before { index, cmd := newCmdReplicaDelete replicaID } after)
    (found : after.replica id = some replica) : before.replica id = some replica := by
  obtain ⟨result, updated⟩ := advances.applies
  obtain ⟨same, -⟩ | ⟨is, -⟩ | ⟨-, other, stored, owner, record, present, write, written⟩ :=
    (Fsm.update_ledger updated).of_replica rfl
  · exact (congrArg (fun ledger => ledger.replicas id) same).symm.trans found
  · cases is
  · have lookup : Function.update before.ledger.replicas other record id = some replica :=
      (congrArg (fun ledger => ledger.replicas id) written).symm.trans found
    by_cases named : id = other
    · cases write with
      | status is => cases is
      | put is => cases is
      | tags is _ tagFn =>
        cases is
        cases tagFn
      | del is => simp [named] at lookup
    · rwa [Function.update_of_ne named] at lookup

end Faults

section Kept

variable {before state next : State} {demand : Demand} {hostIterateByTag : String → List Host} {shard : Shard}
  {calls : List (Σ op, ControlRes op)}

/-- No pass over the shard deletes a replica that the pass before has created. -/
def State.KeepsCreated (state : State) (hostIterateByTag : String → List Host) (shard : Shard) : Prop :=
  ∀ choices err calls next,
    Program.exec serveFaulty (reconcile ⟨state, hostIterateByTag⟩ shard) state choices = some (err, calls, next) →
  ∀ answers again choices' err' calls' last,
    (∀ key, (answers key).map Host.tags = (hostIterateByTag key).map Host.tags) →
    again.id = shard.id → again.tags = shard.tags →
    Program.exec serveFaulty (reconcile ⟨next, answers⟩ again) next choices' = some (err', calls', last) →
  ∀ id answer, ⟨.delete id, answer⟩ ∈ calls' → (state.replica id).isSome

theorem mem_changes {call : Σ op, ControlRes op} (member : call ∈ calls) (change : call.1.isOrder = false) :
    call ∈ changes calls :=
  List.mem_filter.mpr ⟨member, by simp [change]⟩

theorem PassOutcome.create {err : Option String} (outcome : PassOutcome state demand shard err calls)
    {hostID : String} {shardID : ℕ} {isNonVoting : Bool} {answer : Except String ℕ}
    (member : ⟨.create hostID shardID isNonVoting, answer⟩ ∈ calls) :
    ∃ group host, host.id = hostID ∧ state.Lacks demand shard.id group host := by
  unfold PassOutcome at outcome
  split at outcome
  · rw [outcome, List.mem_singleton] at member
    cases member
  · cases err with
    | none =>
      obtain ⟨created, rfl, lacks, -⟩ := outcome
      obtain ⟨one, made, is⟩ := List.mem_map.mp member
      injection is with ops
      injection ops with named
      exact ⟨one.group, one.host, named, lacks one made⟩
    | some err =>
      obtain ⟨created, group, host, lacking, rfl, lacks⟩ := outcome
      obtain member | last := List.mem_append.mp member
      · obtain ⟨one, made, is⟩ := List.mem_map.mp member
        injection is with ops
        injection ops with named
        exact ⟨one.group, one.host, named, lacks one made⟩
      · rw [List.mem_singleton] at last
        injection last with ops
        injection ops with named
        exact ⟨group, host, named.symm, lacking⟩

theorem PassOutcome.delete {err : Option String} (outcome : PassOutcome state demand shard err calls) {id : ℕ}
    {answer : Except String Unit} (member : ⟨.delete id, answer⟩ ∈ calls) :
    id ∈ state.undesired demand shard.id := by
  unfold PassOutcome at outcome
  split at outcome
  · next first rest unwanted =>
    rw [outcome, List.mem_singleton] at member
    injection member with ops
    injection ops with named
    rw [unwanted, named]
    exact List.mem_cons_self
  · have creates (one : Created) : Created.call shard one ≠ ⟨.delete id, answer⟩ := by
      intro is
      injection is with ops
      cases ops
    cases err with
    | none =>
      obtain ⟨created, rfl, -⟩ := outcome
      obtain ⟨one, -, is⟩ := List.mem_map.mp member
      exact absurd is (creates one)
    | some err =>
      obtain ⟨created, group, host, -, rfl, -⟩ := outcome
      obtain member | last := List.mem_append.mp member
      · obtain ⟨one, -, is⟩ := List.mem_map.mp member
        exact absurd is (creates one)
      · rw [List.mem_singleton] at last
        injection last with ops
        cases ops

/-- The hosts that the filter of a group selects have the tags that vary. -/
def State.Varied (state : State) (demand : Demand) : Prop :=
  ∀ group ∈ demand.desired, ∀ host ∈ state.hostIterate, demand.selects group host → demand.varied host

theorem State.Varied.wants (varied : state.Varied demand) {group : String} {host : Host} {shardID : ℕ}
    (lacks : state.Lacks demand shardID group host) : demand.wants (state.hostOrZero host.id) := by
  obtain ⟨count, wanted, -⟩ := lacks.lacks
  have named : group ∈ demand.desired := ExtTreeMap.isSome_getElem?_iff_mem.mp (by simp [wanted])
  rw [hostOrZero_of_mem lacks.registered, Demand.wants, List.any_eq_true]
  refine ⟨group, ExtTreeMap.mem_keys.mpr named, ?_⟩
  rw [counts_eq lacks.selected]
  exact varied group named host lacks.registered lacks.selected

/-- Since a registry, replicas have been deleted, or created on hosts that some group wants. -/
structure Grown (before : State) (demand : Demand) (shardID : ℕ) (state : State) : Prop where
  reached : state.Reached
  same : before.ledger.SameHosts state.ledger
  replicas : ∀ id replica, state.replica id = some replica → replica.shardID = shardID →
    (before.replica id).isSome ∨ demand.wants (before.hostOrZero replica.hostID)

theorem Grown.call {shardID : ℕ} {call : Σ op, ControlRes op} (grown : Grown before demand shardID state)
    (wanted : ∀ hostID shardID isNonVoting, call.1 = .create hostID shardID isNonVoting →
      demand.wants (before.hostOrZero hostID))
    (served : Program.Served serveFaulty state call next) : Grown before demand shardID next := by
  obtain rfl | ⟨hostID, ofShard, isNonVoting, index, is, advances⟩ | ⟨replicaID, index, is, advances⟩ :=
    faulty_cases served
  · exact grown
  · obtain ⟨result, updated⟩ := advances.applies
    refine ⟨grown.reached.step advances, grown.same.trans ((Fsm.update_ledger updated).sameHosts rfl), ?_⟩
    intro id replica found placed
    obtain ⟨added, onHost, -, perm⟩ := replicas_of_post grown.reached.orderly advances
    obtain rfl := State.replica_id found
    rw [← State.mem_replicaIterate, perm.mem_iff, List.mem_cons] at found
    obtain rfl | old := found
    · exact .inr (onHost ▸ wanted hostID ofShard isNonVoting is)
    · exact grown.replicas _ replica (State.mem_replicaIterate.mp old) placed
  · obtain ⟨result, updated⟩ := advances.applies
    exact ⟨grown.reached.step advances, grown.same.trans ((Fsm.update_ledger updated).sameHosts rfl),
      fun id replica found => grown.replicas id replica (replica_before_delete advances found)⟩

theorem Grown.path {shardID : ℕ} (grown : Grown before demand shardID state)
    (wanted : ∀ call ∈ calls, ∀ hostID shardID isNonVoting, call.1 = .create hostID shardID isNonVoting →
      demand.wants (before.hostOrZero hostID))
    (path : Path (Program.Served serveFaulty) state calls next) : Grown before demand shardID next := by
  induction calls generalizing state with
  | nil =>
    cases Path.nil_iff.mp path
    exact grown
  | cons call calls ih =>
    obtain ⟨middle, served, rest⟩ := Path.cons_iff.mp path
    exact ih (grown.call (wanted call List.mem_cons_self) served)
      (fun call member => wanted call (List.mem_cons_of_mem _ member)) rest

/-- Where the selected hosts have the tags that vary, a replica that was created is wanted. -/
theorem keepsCreated_of_varied (reached : state.Reached) (once : shard.tags.coversOnce)
    (varied : state.Varied (.ofTags hostIterateByTag shard.tags)) : state.KeepsCreated hostIterateByTag shard := by
  intro choices err calls next ran answers again choices' err' calls' last alike ids tags reran id answer deleted
  generalize is : Demand.ofTags hostIterateByTag shard.tags = demand at varied
  have records : (reconcile ⟨state, hostIterateByTag⟩ shard).Records (fun _ _ => True) _ := reconcile_records once
  have outcome := records.of_exec (fun _ => trivial) ran
  rw [is] at outcome
  have grown : Grown state demand shard.id next := by
    refine Grown.path ⟨reached, .refl _, fun id replica found _ => .inl (by simp [found])⟩ ?_
      (Program.path_of_exec ran)
    rintro ⟨op, answer⟩ member hostID shardID isNonVoting rfl
    obtain ⟨group, host, rfl, lacks⟩ := outcome.create (mem_changes member rfl)
    exact varied.wants lacks
  have records' : (reconcile ⟨next, answers⟩ again).Records (fun _ _ => True) _ :=
    reconcile_records (tags ▸ once)
  have outcome' := records'.of_exec (fun _ => trivial) reran
  rw [tags, Demand.ofTags_congr alike, is] at outcome'
  have unwanted := outcome'.delete (mem_changes deleted rfl)
  obtain ⟨replica, listed, rfl⟩ := List.mem_map.mp unwanted
  rw [List.mem_filter, State.replicaIterateByShardID_eq, List.mem_filter, State.mem_replicaIterate] at listed
  obtain ⟨⟨found, placed⟩, unwanted⟩ := listed
  refine (grown.replicas _ replica found ((of_decide_eq_true placed).trans ids)).resolve_right fun wanted => ?_
  rw [wants_congr (hostOrZero_tags grown.same replica.hostID), wanted] at unwanted
  cases unwanted

end Kept

section Greedy

variable {tag : String} {filter : List String} {hostIterateByTag : String → List Host}

/-- As many members as there can be, on the hosts that have the tags of a filter. -/
def membersOn (filter : List String) : String :=
  String.ofList (List.intercalate [';'] ("9223372036854775807".toList :: filter.map String.toList))

/-- A shard that wants members wherever a filter allows them, varied by a tag. -/
def greedyShard (id : ℕ) (filter : List String) (tag : String) : Shard :=
  { id, tags := some (ExtTreeMap.ofList [("placement:member", membersOn filter), ("placement:vary", tag)]) }

theorem split_membersOn (plain : ∀ part ∈ filter, ';' ∉ part.toList) :
    split ';' (membersOn filter) = "9223372036854775807" :: filter := by
  rw [split, membersOn, String.toList_ofList, splitChars_intercalate]
  · simp [Function.comp_def]
  · intro other member
    obtain rfl | member := List.mem_cons.mp member
    · decide
    · obtain ⟨part, listed, rfl⟩ := List.mem_map.mp member
      exact plain part listed

/-- What such a shard asks for. -/
def greedyDemand (filter : List String) (tag : String) : Demand where
  desired := (∅ : Counts).insert "member" (2 ^ 63 - 1)
  filters := (∅ : ExtTreeMap String (List String)).insert "member" filter
  vary := (∅ : ExtTreeMap String Bool).insert tag true

theorem demand_greedyShard (id : ℕ) (plain : ∀ part ∈ filter, ';' ∉ part.toList) :
    Demand.ofTags hostIterateByTag (greedyShard id filter tag).tags = greedyDemand filter tag := by
  have listed : (ExtTreeMap.ofList [("placement:member", membersOn filter), ("placement:vary", tag)]).toList =
      [("placement:member", membersOn filter), ("placement:vary", tag)] := rfl
  have size : atoi "9223372036854775807" = some (2 ^ 63 - 1) := by decide
  have member : after? "placement:" "placement:member" = some "member" := by decide
  have vary : after? "placement:" "placement:vary" = some "vary" := by decide
  rw [Demand.ofTags, greedyShard, Option.getD_some, listed, List.foldl_cons, List.foldl_cons, List.foldl_nil]
  simp [Demand.addTag, member, vary, Demand.group, split_membersOn plain, size, greedyDemand]

theorem greedyDemand_selects (host : Host) :
    (greedyDemand filter tag).selects "member" host = matchTagFilter host.tags filter := by
  simp [Demand.selects, greedyDemand]

/-- It has no use for a replica on a host without the tag. -/
theorem greedyDemand_wants {host : Host} (lacks : (host.tags.bind (·[tag]?)).isSome = false) :
    (greedyDemand filter tag).wants host = false := by
  have unvaried : (greedyDemand filter tag).varied host = false := by
    rw [Demand.varied, List.all_eq_false]
    exact ⟨tag, by simp [greedyDemand], by simp [lacks]⟩
  rw [Demand.wants, List.any_eq_false]
  simp [Demand.counts, unvaried]

end Greedy

section Room

variable {base state : State}

theorem replicaPut_ok {replica : Replica} {key : String} (parsed : uuidKey replica.hostID = some key) :
    ∃ next, state.replicaPut replica = .ok next ∧ next.hosts = state.hosts := by
  rw [State.replicaPut, dif_pos (by simp [parsed])]
  exact ⟨_, rfl, rfl⟩

theorem propose_of_apply {cmd : Cmd} (valid : cmd ≠ .invalid) (room : state.index + 1 < 2 ^ 64)
    (applies : ∃ outcome, Fsm.apply state { index := state.index + 1, cmd } = .ok outcome) :
    ∃ result next, state.propose (state.index + 1) cmd = some (result, next) ∧ next.index = state.index + 1 := by
  obtain ⟨⟨next, result⟩, applied⟩ := applies
  have updated : Fsm.update state { index := state.index + 1, cmd } =
      .ok (next.metaSetIndex (state.index + 1), result) := by
    rw [Fsm.update, if_neg valid, applied]
    rfl
  refine ⟨result, next.metaSetIndex (state.index + 1), ?_, rfl⟩
  rw [State.propose, if_pos ⟨Nat.lt_succ_self _, room⟩, updated]

theorem propose_post {host : Host} (registered : host ∈ state.hostIterate) (shardID : ℕ) (isNonVoting : Bool)
    (room : state.index + 1 < 2 ^ 64) : ∃ result next,
      state.propose (state.index + 1) (newCmdReplicaPost host.id shardID isNonVoting) = some (result, next) ∧
        next.index = state.index + 1 := by
  refine propose_of_apply nofun room ?_
  obtain ⟨key, found⟩ := mem_hostIterate.mp registered
  have parsed := state.hosts.keyed key host found
  refine ExceptFold.bind_succeeds (replicaPut_ok parsed) fun middle kept => ?_
  have hosted : middle.topology.Hosts host.id := ⟨key, parsed, by simp [State.topology, kept, found]⟩
  refine ExceptFold.bind_succeeds ?_ fun touched (_ : True) => ⟨_, rfl⟩
  exact (Fsm.touchOwners_succeeds hosted _).imp fun touched ok => ⟨ok, trivial⟩

theorem propose_delete (reached : state.Reached) (replicaID : ℕ) (room : state.index + 1 < 2 ^ 64) :
    ∃ result next, state.propose (state.index + 1) (newCmdReplicaDelete replicaID) = some (result, next) ∧
      next.index = state.index + 1 := by
  refine propose_of_apply nofun room ?_
  change ∃ outcome, Fsm.replicaCmdDel state _ { id := replicaID } = .ok outcome
  rw [Fsm.replicaCmdDel]
  cases found : state.replica replicaID with
  | none => exact ⟨_, rfl⟩
  | some replica =>
    obtain rfl := State.replica_id found
    have hosted := State.hosts_of_mem reached.hosted (State.mem_replicaIterate.mpr found)
    obtain ⟨touched, ok⟩ := Fsm.touchOwners_succeeds hosted (state.index + 1)
    exact ⟨_, ExceptFold.bind_eq_ok_iff.mpr ⟨touched, ok, rfl⟩⟩


/-- The call is answered without an error. -/
def ControlOp.Succeeds : (op : ControlOp) → ControlRes op → Prop
  | .order _, _ => True
  | .create .., answer => ∃ id, answer = .ok id
  | .delete _, answer => answer = .ok ()

/-- A replica is created on a host that is registered. -/
def State.Able (base : State) (op : ControlOp) : Prop :=
  ∀ hostID shardID isNonVoting, op = .create hostID shardID isNonVoting → ∃ host ∈ base.hostIterate, host.id = hostID

/-- A registry with the hosts of another, whose log has room for some more entries. -/
structure Roomy (base : State) (count : ℕ) (state : State) : Prop where
  reached : state.Reached
  same : base.ledger.SameHosts state.ledger
  room : state.index + count < 2 ^ 64

theorem Roomy.step {left index : ℕ} {action : Action} {replica : Replica} {next : State}
    (roomy : Roomy base (left + 1) state)
    (advances : Fsm.Advances state { index, cmd := .replica action replica } next)
    (moved : next.index = state.index + 1) : Roomy base left next := by
  obtain ⟨result, updated⟩ := advances.applies
  have room := roomy.room
  exact ⟨roomy.reached.step advances, roomy.same.trans ((Fsm.update_ledger updated).sameHosts rfl), by omega⟩

/-- While there is room, every call can be answered. -/
theorem Roomy.serves {op : ControlOp} {left : ℕ} (able : base.Able op)
    (roomy : Roomy base (left + (!op.isOrder).toNat) state) :
    ∃ choice answer next, serveFaulty state op choice = some (answer, next) ∧ op.Succeeds answer ∧
      Roomy base left next := by
  cases op with
  | order count =>
    refine ⟨.order (List.range count), .unmoved count, state, ?_, trivial, roomy⟩
    simp [serveFaulty, serveControl, Program.Order.unmoved]
  | create hostID shardID isNonVoting =>
    obtain ⟨host, registered, rfl⟩ := able hostID shardID isNonVoting rfl
    obtain ⟨stored, registered, ids, -⟩ := SameHosts.mem_hostIterate roomy.same.symm registered
    obtain ⟨result, next, proposed, moved⟩ :=
      propose_post registered shardID isNonVoting (by have room := roomy.room; simp [ControlOp.isOrder] at room; omega)
    rw [ids] at proposed
    refine ⟨.applied (state.index + 1), .ok result.value, next, ?_, ⟨_, rfl⟩,
      roomy.step (advances_of_propose proposed) moved⟩
    simp [serveFaulty, serveControl, proposed]
  | delete replicaID =>
    obtain ⟨result, next, proposed, moved⟩ :=
      propose_delete roomy.reached replicaID (by have room := roomy.room; simp [ControlOp.isOrder] at room; omega)
    refine ⟨.applied (state.index + 1), .ok (), next, ?_, rfl, roomy.step (advances_of_propose proposed) moved⟩
    simp [serveFaulty, serveControl, proposed]

/-- A pass creates at most one replica for each host. -/
theorem PassOutcome.bounded {demand : Demand} {shard : Shard} {err : Option String}
    {calls : List (Σ op, ControlRes op)} (outcome : PassOutcome state demand shard err calls)
    (same : base.ledger.SameHosts state.ledger) (succeed : ∀ call ∈ calls, call.1.Succeeds call.2) :
    calls.length ≤ base.hostIterate.length + 1 := by
  unfold PassOutcome at outcome
  split at outcome
  · simp [outcome]
  · cases err with
    | none =>
      obtain ⟨created, rfl, lacks, distinct, -⟩ := outcome
      have listed : created.map (·.host.id) ⊆ base.hostIterate.map Host.id := by
        intro id member
        obtain ⟨one, made, rfl⟩ := List.mem_map.mp member
        obtain ⟨stored, registered, ids, -⟩ := SameHosts.mem_hostIterate same (lacks one made).registered
        exact List.mem_map.mpr ⟨stored, registered, ids⟩
      have few := (distinct.subperm listed).length_le
      simp only [List.length_map] at few ⊢
      omega
    | some err =>
      obtain ⟨created, group, host, -, rfl, -⟩ := outcome
      obtain ⟨id, is⟩ := succeed ⟨createOn shard group host, .error err⟩ (by simp)
      cases is

theorem countP_eq_length_changes (calls : List (Σ op, ControlRes op)) :
    calls.countP (!·.1.isOrder) = (changes calls).length :=
  List.countP_eq_length_filter ..

/-- While there is room, a pass has a run without an error. -/
theorem Roomy.exists_pass {count : ℕ} {shard : Shard} (roomy : Roomy base count state)
    (enough : base.hostIterate.length + 1 ≤ count) (once : shard.tags.coversOnce)
    (hostIterateByTag : String → List Host) :
    ∃ choices err calls next,
      Program.exec serveFaulty (reconcile ⟨state, hostIterateByTag⟩ shard) state choices = some (err, calls, next) ∧
      (∀ call ∈ calls, call.1.Succeeds call.2) ∧
      PassOutcome state (.ofTags hostIterateByTag shard.tags) shard err (changes calls) ∧
      Roomy base (count - (base.hostIterate.length + 1)) next := by
  have records {possible : (op : ControlOp) → ControlRes op → Prop} :
      (reconcile ⟨state, hostIterateByTag⟩ shard).Records possible _ := reconcile_records once
  have bounded {err : Option String} {calls : List (Σ op, ControlRes op)}
      (outcome : PassOutcome state (.ofTags hostIterateByTag shard.tags) shard err (changes calls))
      (succeed : ∀ call ∈ calls, call.1.Succeeds call.2) :
      calls.countP (!·.1.isOrder) ≤ base.hostIterate.length + 1 := by
    rw [countP_eq_length_changes]
    exact outcome.bounded roomy.same fun call member => succeed call (List.mem_of_mem_filter member)
  have answerable (op : ControlOp) : ∃ answer, op.Succeeds answer := by
    cases op with
    | order count => exact ⟨.unmoved count, trivial⟩
    | create => exact ⟨.ok 0, 0, rfl⟩
    | delete => exact ⟨.ok (), rfl⟩
  have affordable : (reconcile ⟨state, hostIterateByTag⟩ shard).Records ControlOp.Succeeds fun _ calls =>
      (∀ call ∈ calls, base.Able call.1) ∧ calls.countP (!·.1.isOrder) ≤ count := by
    refine records.and_possible.mono fun err calls ⟨outcome, succeed⟩ => ⟨?_, (bounded outcome succeed).trans enough⟩
    rintro ⟨op, answer⟩ member hostID shardID isNonVoting rfl
    obtain ⟨group, host, rfl, lacks⟩ := outcome.create (mem_changes member rfl)
    obtain ⟨stored, registered, ids, -⟩ := SameHosts.mem_hostIterate roomy.same lacks.registered
    exact ⟨stored, registered, ids⟩
  obtain ⟨choices, err, calls, next, ran, succeed, left⟩ := Program.exec_exists answerable
    (fun (op : ControlOp) left state (able : base.Able op)
      (roomy : Roomy base (left + (!op.isOrder).toNat) state) => roomy.serves able) affordable roomy
  have recorded : (reconcile ⟨state, hostIterateByTag⟩ shard).Records (fun _ _ => True) _ := records
  have outcome := recorded.of_exec (fun _ => trivial) ran
  have spent := bounded outcome succeed
  refine ⟨choices, err, calls, next, ran, succeed, outcome, left.reached, left.same, ?_⟩
  have room := left.room
  omega

end Room


section Exact

variable {state : State} {hostIterateByTag : String → List Host} {filter : List String} {tag : String}

/-- A call that succeeds is served without a fault. -/
theorem served_of_succeeds {before after : State} {call : Σ op, ControlRes op} (succeeds : call.1.Succeeds call.2)
    (served : Program.Served serveFaulty before call after) : Program.Served serveControl before call after := by
  obtain ⟨op, answer⟩ := call
  obtain ⟨choice, served⟩ := served
  refine ⟨choice, ?_⟩
  dsimp only at answer served succeeds ⊢
  unfold serveFaulty at served
  split at served
  · obtain ⟨_, -, same⟩ := Option.map_eq_some_iff.mp served
    cases same
    obtain ⟨_, is⟩ := succeeds
    cases is
  · obtain ⟨_, -, same⟩ := Option.map_eq_some_iff.mp served
    cases same
    cases succeeds
  · cases served
    obtain ⟨_, is⟩ := succeeds
    cases is
  · cases served
    cases succeeds
  · exact served

theorem path_of_succeeds {before after : State} {calls : List (Σ op, ControlRes op)}
    (succeed : ∀ call ∈ calls, call.1.Succeeds call.2)
    (path : Path (Program.Served serveFaulty) before calls after) :
    Path (Program.Served serveControl) before calls after := by
  induction calls generalizing before with
  | nil => exact Path.nil_iff.mpr (Path.nil_iff.mp path)
  | cons call calls ih =>
    obtain ⟨middle, served, rest⟩ := Path.cons_iff.mp path
    exact Path.cons_iff.mpr ⟨middle, served_of_succeeds (succeed call List.mem_cons_self) served,
      ih (fun call member => succeed call (List.mem_cons_of_mem _ member)) rest⟩

/-- A shard without replicas gets one on every host that the filter of its members selects. -/
theorem created_of_greedy {demand : Demand} {shard : Shard} {created : List Created} {host : Host}
    (few : state.hostIterate.length + 1 < 2 ^ 63) (fresh : state.replicaIterateByShardID shard.id = [])
    (lacking : ∀ one ∈ created, state.Lacks demand shard.id one.group one.host)
    (distinct : (created.map (·.host.id)).Nodup)
    (filled : state.Filled demand shard.id created "member" (2 ^ 63 - 1))
    (registered : host ∈ state.hostIterate) (selected : demand.selects "member" host) :
    ∃ one ∈ created, one.host.id = host.id := by
  obtain enough | taken := filled
  · have listed : created.map (·.host.id) ⊆ state.hostIterate.map Host.id := by
      intro id member
      obtain ⟨one, made, rfl⟩ := List.mem_map.mp member
      exact List.mem_map_of_mem (lacking one made).registered
    have fits := (distinct.subperm listed).length_le
    have some_of := List.countP_le_length (p := fun one : Created => one.group = "member") (l := created)
    rw [State.foundIn, fresh, List.countP_nil] at enough
    simp only [List.length_map] at fits
    omega
  · refine (taken host registered selected).resolve_left ?_
    rintro ⟨replica, member, -⟩
    simp [fresh] at member

/-- Where a shard had no replica, the ones that it has now are new. -/
theorem replica_of_undesired {next : State} {demand : Demand} {id first : ℕ}
    (fresh : state.replicaIterateByShardID id = []) (kept : state.replicaIterate ⊆ next.replicaIterate)
    (member : first ∈ next.undesired demand id) : state.replica first = none := by
  obtain ⟨replica, listed, rfl⟩ := List.mem_map.mp member
  rw [List.mem_filter, State.replicaIterateByShardID_eq, List.mem_filter, State.mem_replicaIterate] at listed
  obtain ⟨⟨found, ofShard⟩, -⟩ := listed
  refine Option.eq_none_iff_forall_ne_some.mpr fun old stored => ?_
  obtain named := State.replica_id stored
  have still := State.mem_replicaIterate.mp (kept (State.mem_replicaIterate.mpr (named ▸ stored)))
  rw [named, found] at still
  cases still
  have present : replica ∈ state.replicaIterateByShardID id := by
    rw [State.replicaIterateByShardID_eq, List.mem_filter, State.mem_replicaIterate]
    exact ⟨stored, ofShard⟩
  rw [fresh] at present
  cases present

/-- A host that the filter selects and that lacks the tag gets a member, which the next pass deletes. -/
theorem not_keepsCreated {host : Host} {id : ℕ} (reached : state.Reached)
    (room : state.index + 2 * (state.hostIterate.length + 1) < 2 ^ 63)
    (plain : ∀ part ∈ filter, ';' ∉ part.toList) (fresh : state.replicaIterateByShardID id = [])
    (registered : host ∈ state.hostIterate) (selected : matchTagFilter host.tags filter)
    (lacks : (host.tags.bind (·[tag]?)).isSome = false) :
    ¬ state.KeepsCreated hostIterateByTag (greedyShard id filter tag) := by
  intro keeps
  have once : (greedyShard id filter tag).tags.coversOnce := rfl
  have roomy : Roomy state (2 * (state.hostIterate.length + 1)) state := ⟨reached, .refl _, by omega⟩
  obtain ⟨choices, err, calls, next, ran, succeed, outcome, roomy⟩ :=
    roomy.exists_pass (by omega) once hostIterateByTag
  obtain ⟨choices', err', calls', last, reran, -, outcome', -⟩ :=
    roomy.exists_pass (by omega) once hostIterateByTag
  rw [demand_greedyShard id plain] at outcome outcome'
  unfold PassOutcome at outcome outcome'
  have nobody : state.undesired (greedyDemand filter tag) (greedyShard id filter tag).id = [] := by
    simp [State.undesired, greedyShard, fresh]
  rw [nobody] at outcome
  dsimp only at outcome
  cases err with
  | some err =>
    obtain ⟨created, group, other, -, made, -⟩ := outcome
    have member : ⟨createOn (greedyShard id filter tag) group other, .error err⟩ ∈ changes calls := by simp [made]
    obtain ⟨_, failed⟩ := succeed _ (List.mem_of_mem_filter member)
    cases failed
  | none =>
    obtain ⟨created, made, lacking, distinct, filled⟩ := outcome
    have size : (greedyDemand filter tag).desired["member"]? = some (2 ^ 63 - 1) := by simp [greedyDemand]
    obtain ⟨one, among, onHost⟩ := created_of_greedy (by omega) fresh lacking distinct
      (filled (.inr fresh) "member" _ size) registered ((greedyDemand_selects host).trans selected)
    have path := path_changes (path_of_succeeds succeed (Program.path_of_exec ran))
    rw [made] at path
    obtain ⟨-, same, placed, kept⟩ := placedOn_of_created reached path
    have occupied : host.id ∈ next.placedOn (greedyShard id filter tag).id :=
      placed.mem_iff.mpr (List.mem_append_left _ (List.mem_map.mpr ⟨one, among, onHost⟩))
    split at outcome'
    · next first rest undesired =>
      have deleted : ⟨.delete first, err'.elim (.ok ()) .error⟩ ∈ calls' :=
        List.mem_of_mem_filter (outcome' ▸ List.mem_singleton_self _)
      have stored := keeps choices _ calls next ran _ _ choices' err' calls' last (fun _ => rfl) rfl rfl reran
        first _ deleted
      rw [replica_of_undesired fresh kept (undesired ▸ List.mem_cons_self)] at stored
      cases stored
    · next nobody =>
      have wanted := undesired_eq_nil_iff.mp nobody host.id occupied
      rw [wants_congr (hostOrZero_tags same host.id), hostOrZero_of_mem registered,
        greedyDemand_wants lacks] at wanted
      cases wanted

/-- Over the shards that vary by a tag and whose groups have some of these filters: no pass deletes what the pass
before has created, exactly when the registered hosts that the filters select have the tag. -/
theorem created_replicas_kept {log : List Entry} (reached : Path Fsm.Advances {} log state)
    (room : state.index + 2 * (state.hostIterate.length + 1) < 2 ^ 63) (vary : Option String)
    (filters : List (List String)) (plain : ∀ filter ∈ filters, ∀ part ∈ filter, ';' ∉ part.toList) :
    (∀ hostIterateByTag shard, shard.tags.coversOnce → (shard.tags.getD ∅)["placement:vary"]? = vary →
      (∀ group ∈ (Demand.ofTags hostIterateByTag shard.tags).desired,
        (Demand.ofTags hostIterateByTag shard.tags).filters.getD group [] ∈ filters) →
      state.KeepsCreated hostIterateByTag shard) ↔
    ∀ filter ∈ filters, ∀ host ∈ state.hostIterate, matchTagFilter host.tags filter →
      ∀ tag ∈ vary, (host.tags.bind (·[tag]?)).isSome := by
  constructor
  · intro keeps filter listed host registered selected tag varies
    obtain rfl := Option.mem_def.mp varies
    by_contra lacks
    obtain ⟨id, fresh⟩ := Infinite.exists_notMem_finset (state.replicaIterate.map Replica.shardID).toFinset
    refine not_keepsCreated ⟨log, reached⟩ room (plain filter listed) ?_ registered selected
      (Bool.eq_false_iff.mpr lacks) (keeps (fun _ => []) (greedyShard id filter tag) rfl rfl ?_)
    · rw [State.replicaIterateByShardID_eq, List.filter_eq_nil_iff]
      intro replica member ofShard
      exact fresh (List.mem_toFinset.mpr (List.mem_map.mpr ⟨replica, member, of_decide_eq_true ofShard⟩))
    · intro group wanted
      rw [demand_greedyShard id (plain filter listed)] at wanted ⊢
      have named : "member" = group := by simpa [greedyDemand] using wanted
      simpa [greedyDemand, ← named] using listed
  · intro tagged hostIterateByTag shard once varies named
    refine keepsCreated_of_varied ⟨log, reached⟩ once fun group wanted host registered selected => ?_
    rw [Demand.varied, List.all_eq_true]
    intro tag varied
    have is := Demand.mem_vary_ofTags (ExtTreeMap.mem_keys.mp varied)
    exact tagged _ (named group wanted) host registered selected tag (varies ▸ is)

end Exact

section Examples

/-- A host with a zone. -/
def zonedLog : List Entry :=
  [{ index := 1, cmd := .host .put { Fsm.exampleHost with tags := tagMapFromList ["geo:zone=a"] } }]

/-- Where every host has a zone, replicas that vary by it are kept. -/
theorem zoned_replicas_kept :
    ∃ state results, Fsm.run {} zonedLog = .ok (state, results) ∧
      ∀ hostIterateByTag shard, shard.tags.coversOnce →
        (shard.tags.getD ∅)["placement:vary"]? = some "geo:zone" →
        (∀ group ∈ (Demand.ofTags hostIterateByTag shard.tags).desired,
          (Demand.ofTags hostIterateByTag shard.tags).filters.getD group [] ∈ [([] : List String)]) →
        state.KeepsCreated hostIterateByTag shard := by
  obtain ⟨⟨state, results⟩, applied, room, tagged⟩ : ∃ reached ∈ (Fsm.run {} zonedLog).toOption,
      reached.1.index + 2 * (reached.1.hostIterate.length + 1) < 2 ^ 63 ∧
        ∀ host ∈ reached.1.hostIterate, (host.tags.bind (·["geo:zone"]?)).isSome := by
    decide +kernel
  rw [Option.mem_def, ExceptFold.toOption_eq_some_iff] at applied
  have reached : Path Fsm.Advances {} zonedLog state :=
    (Fsm.path_of_numbered ⟨by decide, by decide⟩ (Fsm.path_iff_run.mpr ⟨results, applied⟩)).1
  refine ⟨state, results, applied, (created_replicas_kept reached room (some "geo:zone") [[]]
    (by simp)).mpr fun _ _ host registered _ tag varies => ?_⟩
  cases varies
  exact tagged host registered

/-- A host without a zone, and a shard that wants a member and varies by zone. -/
def zonelessLog : List Entry :=
  [{ index := 1, cmd := .host .put Fsm.exampleHost },
    { index := 2
      cmd := newCmdShardPost { newShard "kv" with
        tags := tagMapFromList ["placement:member=1", "placement:vary=geo:zone"] } }]

/-- The pass that creates the member. -/
def creatingPass : List Choice :=
  [.order [0, 1], .order [0], .order [], .order [0], .order [0], .order [], .order [], .applied 3]

/-- The pass that deletes it. -/
def deletingPass : List Choice :=
  [.order [0, 1], .order [0], .order [0], .order [0], .order [0], .order [], .applied 4]

/-- The member is deleted by the pass after the one that has created it. -/
theorem zoneless_replica_deleted :
    ∃ state results shard, Fsm.run {} zonelessLog = .ok (state, results) ∧ state.shard 1 = some shard ∧
      ¬ state.KeepsCreated (fun _ => []) shard := by
  obtain ⟨⟨state, results⟩, applied, shard, found, absent, ⟨err, calls, next⟩, ran, ⟨err', calls', last⟩, reran,
      ⟨op, answer⟩, member, deletes⟩ :
      ∃ reached ∈ (Fsm.run {} zonelessLog).toOption, ∃ shard ∈ reached.1.shard 1, reached.1.replica 1 = none ∧
        ∃ first ∈ Program.exec serveFaulty (reconcile ⟨reached.1, fun _ => []⟩ shard) reached.1 creatingPass,
        ∃ second ∈ Program.exec serveFaulty (reconcile ⟨first.2.2, fun _ => []⟩ shard) first.2.2 deletingPass,
          ∃ call ∈ second.2.1, call.1 = .delete 1 := by
    decide +kernel
  rw [Option.mem_def, ExceptFold.toOption_eq_some_iff] at applied
  refine ⟨state, results, shard, applied, found, fun keeps => ?_⟩
  obtain rfl : op = .delete 1 := deletes
  have stored := keeps _ _ _ _ ran _ _ _ _ _ _ (fun _ => rfl) rfl rfl reran 1 answer member
  rw [absent] at stored
  cases stored

end Examples

end Zongzi
