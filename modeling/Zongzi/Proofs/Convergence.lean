import Zongzi.Model.Agent
import Zongzi.Proofs.ChangeTracking
import Zongzi.Proofs.ReconcilePass
import Zongzi.Proofs.References

/-! # Placement converges

Passes of the default controller follow one another, each on the registry that the one before has left, and
what they create and delete takes effect. Every pass that finds a replica no group wants deletes one. The first
that finds none adds what is missing, and leaves nothing to do.
-/

namespace Zongzi

open Std Machine

section Controls

/-- Apply a command under a later index. -/
def State.propose (state : State) (index : ℕ) (cmd : Cmd) : Option (Result × State) :=
  if state.index < index ∧ index < 2 ^ 64 then
    match Fsm.update state { index, cmd } with
    | .ok (next, result) => some (result, next)
    | .error _ => none
  else none

/-- Serve the calls of a controller without an error. -/
def serveControl : Serve State ControlOp ControlRes Choice := fun state op choice =>
  match op, choice with
  | .order count, .order order =>
    if permutes : order.Perm (List.range count) then some (⟨order, permutes⟩, state) else none
  | .create hostID shardID isNonVoting, .applied index =>
    (state.propose index (newCmdReplicaPost hostID shardID isNonVoting)).map fun (result, next) =>
      (.ok result.value, next)
  | .delete replicaID, .applied index =>
    (state.propose index (newCmdReplicaDelete replicaID)).map fun (_, next) => (.ok (), next)
  | _, _ => none

/-- One pass over a shard, with the answers of the tag index that it sees. -/
def pass (hostIterateByTag : String → List Host) (shardID : ℕ) (state : State) (choices : List Choice) :
    Option (Option String × List (Σ op, ControlRes op) × State) := do
  let shard ← state.shard shardID
  Program.exec serveControl (reconcile ⟨state, hostIterateByTag⟩ shard) state choices

/-- Passes follow one another. The tag index returns the same hosts to all of them, which may have been touched
in the meantime. -/
def Passes (hostIterateByTag : String → List Host) (shardID : ℕ) (before : State)
    (event : (String → List Host) × List Choice) (after : State) : Prop :=
  (∀ key, (event.1 key).map Host.tags = (hostIterateByTag key).map Host.tags) ∧
    ∃ err calls, pass event.1 shardID before event.2 = some (err, calls, after)

end Controls

section Effects

variable {before after : State} {entry : Entry} {index : ℕ}

/-- A registry that some log leads to. -/
def State.Reached (state : State) : Prop := ∃ log, Path Fsm.Advances {} log state

theorem State.Reached.orderly (reached : before.Reached) : before.Orderly := by
  obtain ⟨log, path⟩ := reached
  exact Fsm.orderly_of_path path State.orderly_empty

theorem State.Reached.hosted (reached : before.Reached) : before.topology.Hosted := by
  obtain ⟨log, path⟩ := reached
  exact path.invariant Fsm.hosted_empty fun _ _ _ _ hosted ⟨_, _, _, updated⟩ =>
    (Fsm.update_refines updated).hosted hosted

theorem State.Reached.step (reached : before.Reached) (advances : Fsm.Advances before entry after) :
    after.Reached := by
  obtain ⟨log, path⟩ := reached
  exact ⟨log ++ [entry], .snoc path advances⟩

/-- Hosts and shards keep everything that placement depends on. -/
structure Ledger.SameHosts (before after : Ledger) : Prop where
  hosts : ∀ key, (after.hosts key).map (fun host => (host.id, host.tags)) =
    (before.hosts key).map fun host => (host.id, host.tags)
  shards : ∀ id, (after.shards id).map Shard.tags = (before.shards id).map Shard.tags

theorem Ledger.sameHosts_touchOwners (ledger : Ledger) (replica : Replica) (index : ℕ) :
    ledger.SameHosts (ledger.touchOwners replica index) where
  hosts _ := PartialTable.map_rewrite fun _ => rfl
  shards _ := PartialTable.map_rewrite fun _ => rfl

/-- A replica command changes nothing, or posts a replica, or writes one that is stored. -/
theorem Ledger.Step.of_replica {ledger next : Ledger} {action : Action} {replica : Replica}
    (step : ledger.Step entry next) (cmd : entry.cmd = .replica action replica) :
    next = ledger ∧ action ≠ .post ∨
    (action = .post ∧ ∃ id status, id = (ledger.replicaID + 1) % 2 ^ 64 ∧
      next = { ledger.touchOwners replica entry.index with
        replicaID := id
        replicas := Function.update ledger.replicas id
          (some { replica with id, created := entry.index, updated := entry.index, status }) }) ∨
    (action ≠ .post ∧ ∃ id stored owner record, ledger.replicas id = some stored ∧
      ReplicaWrite entry id stored record owner ∧ next = { ledger.touchOwners owner entry.index with
        replicas := Function.update ledger.replicas id record }) := by
  cases step with
  | idle post =>
    refine .inl ⟨rfl, ?_⟩
    rintro rfl
    exact post replica cmd
  | @host key record write =>
    generalize ledger.hosts key = stored at write
    cases write with
    | new is => cases cmd.symm.trans is
    | put is => cases cmd.symm.trans is
    | tags is => cases cmd.symm.trans is
    | del is => cases cmd.symm.trans is
  | shardPost is => cases cmd.symm.trans is
  | shardLeader is => cases cmd.symm.trans is
  | @shard id record write =>
    generalize ledger.shards id = stored at write
    cases write with
    | prime is => cases cmd.symm.trans is
    | put is => cases cmd.symm.trans is
    | touch is => cases cmd.symm.trans is
    | status is => cases cmd.symm.trans is
    | tags is => cases cmd.symm.trans is
    | del is => cases cmd.symm.trans is
  | @replicaPost named id status is fresh =>
    cases cmd.symm.trans is
    exact .inr (.inl ⟨rfl, id, status, fresh, rfl⟩)
  | @replica id stored owner record found write =>
    refine .inr (.inr ⟨?_, id, stored, owner, record, found, write, rfl⟩)
    rintro rfl
    cases write with
    | status is => cases cmd.symm.trans is
    | put is => cases cmd.symm.trans is
    | del is => cases cmd.symm.trans is
    | tags is _ tagFn =>
      cases cmd.symm.trans is
      cases tagFn

theorem Ledger.Step.sameHosts {ledger next : Ledger} {action : Action} {replica : Replica}
    (step : ledger.Step entry next) (cmd : entry.cmd = .replica action replica) : ledger.SameHosts next := by
  have touched (owner : Replica) := ledger.sameHosts_touchOwners owner entry.index
  obtain ⟨rfl, -⟩ | ⟨-, id, status, -, rfl⟩ | ⟨-, id, stored, owner, record, -, -, rfl⟩ :=
    step.of_replica cmd
  · exact ⟨fun _ => rfl, fun _ => rfl⟩
  · exact ⟨(touched replica).hosts, (touched replica).shards⟩
  · exact ⟨(touched owner).hosts, (touched owner).shards⟩

theorem Ledger.SameHosts.refl (ledger : Ledger) : ledger.SameHosts ledger := ⟨fun _ => rfl, fun _ => rfl⟩

theorem Ledger.SameHosts.trans {first second third : Ledger} (one : first.SameHosts second)
    (two : second.SameHosts third) : first.SameHosts third :=
  ⟨fun key => (two.hosts key).trans (one.hosts key), fun id => (two.shards id).trans (one.shards id)⟩

theorem Ledger.SameHosts.symm {first second : Ledger} (same : first.SameHosts second) : second.SameHosts first :=
  ⟨fun key => (same.hosts key).symm, fun id => (same.shards id).symm⟩

theorem nodup_replicaIterate (state : State) : state.replicaIterate.Nodup := state.replicas.keyed.nodup_values

/-- One more record in a table is one more record in its list. -/
theorem perm_of_update {id : ℕ} {replica : Replica} (vacant : before.ledger.replicas id = none)
    (same : after.ledger.replicas = Function.update before.ledger.replicas id (some replica)) :
    after.replicaIterate.Perm (replica :: before.replicaIterate) := by
  have here : after.replica id = some replica := (congrFun same id).trans (Function.update_self ..)
  obtain rfl := State.replica_id here
  have absent : replica ∉ before.replicaIterate := by
    rw [State.mem_replicaIterate]
    exact fun present => by cases vacant.symm.trans present
  refine (List.perm_ext_iff_of_nodup (nodup_replicaIterate _)
    (List.nodup_cons.mpr ⟨absent, nodup_replicaIterate _⟩)).mpr fun other => ?_
  rw [List.mem_cons, State.mem_replicaIterate, State.mem_replicaIterate]
  have lookup : after.replica other.id = Function.update before.ledger.replicas replica.id (some replica) other.id :=
    congrFun same other.id
  by_cases named : other.id = replica.id
  · rw [lookup, named, Function.update_self]
    constructor
    · exact fun equal => .inl (Option.some.inj equal).symm
    · rintro (rfl | present)
      · rfl
      · cases vacant.symm.trans present
  · rw [lookup, Function.update_of_ne named]
    exact ⟨.inr, fun either => either.resolve_left fun equal => named (congrArg Replica.id equal)⟩

/-- A post adds one replica. -/
theorem replicas_of_post {hostID : String} {shardID : ℕ} {isNonVoting : Bool} (orderly : before.Orderly)
    (advances : Fsm.Advances before { index, cmd := newCmdReplicaPost hostID shardID isNonVoting } after) :
    ∃ replica : Replica, replica.hostID = hostID ∧ replica.shardID = shardID ∧
      after.replicaIterate.Perm (replica :: before.replicaIterate) := by
  have vacant := advances.vacant orderly
  obtain ⟨result, updated⟩ := advances.applies
  obtain ⟨-, other⟩ | ⟨-, id, status, rfl, written⟩ | ⟨other, -⟩ := (Fsm.update_ledger updated).of_replica rfl
  · exact absurd rfl other
  · exact ⟨_, rfl, rfl, perm_of_update (vacant.2 _ rfl) (congrArg Ledger.replicas written)⟩
  · exact absurd rfl other

theorem replica_of_delete {id : ℕ} {result : Result}
    (updated : Fsm.update before { index, cmd := newCmdReplicaDelete id } = .ok (after, result)) :
    after.replica id = none := by
  obtain ⟨invalid, -⟩ | ⟨middle, applied, rfl, -⟩ := Fsm.update_cases updated
  · cases invalid
  · obtain ⟨absent, rfl, -⟩ | ⟨stored, touched, found, -, rfl, -⟩ := Fsm.replicaCmdDel_cases applied
    · exact absent
    · have erased := congrArg (fun ledger => ledger.replicas id) (State.ledger_replicaDelete touched stored)
      refine erased.trans ?_
      simp only [State.replica_id found, Function.update_self]

/-- A deletion takes the replica away. -/
theorem replicas_of_delete {replica : Replica} (found : before.replica replica.id = some replica)
    (advances : Fsm.Advances before { index, cmd := newCmdReplicaDelete replica.id } after) :
    before.replicaIterate.Perm (replica :: after.replicaIterate) := by
  obtain ⟨result, updated⟩ := advances.applies
  have gone := replica_of_delete updated
  refine perm_of_update gone ?_
  obtain ⟨same, -⟩ | ⟨is, -⟩ | ⟨-, id, stored, owner, record, present, write, written⟩ :=
    (Fsm.update_ledger updated).of_replica rfl
  · have still : after.ledger.replicas replica.id = some replica := same ▸ found
    cases gone.symm.trans still
  · cases is
  · have dropped : after.ledger.replicas = Function.update before.ledger.replicas replica.id none := by
      rw [written]
      cases write with
      | status is => cases is
      | put is => cases is
      | tags is _ tagFn =>
        cases is
        cases tagFn
      | del is named =>
        cases is
        cases named
        rfl
    rw [dropped, Function.update_idem]
    exact (Function.update_eq_self_iff.mpr found.symm).symm

end Effects

section Served

variable {before after : State} {calls : List (Σ op, ControlRes op)}

theorem advances_of_propose {index : ℕ} {cmd : Cmd} {result : Result}
    (proposed : before.propose index cmd = some (result, after)) :
    Fsm.Advances before { index, cmd } after := by
  unfold State.propose at proposed
  split at proposed
  · next later =>
    split at proposed
    · next updated =>
      cases proposed
      exact ⟨later.1, later.2, _, updated⟩
    · cases proposed
  · cases proposed

/-- A call is an order that changes nothing, or it is applied without an error. -/
theorem served_cases {call : Σ op, ControlRes op} (served : Program.Served serveControl before call after) :
    (call.1.isOrder ∧ after = before) ∨
    (∃ hostID shardID isNonVoting value index, call = ⟨.create hostID shardID isNonVoting, .ok value⟩ ∧
      Fsm.Advances before { index, cmd := newCmdReplicaPost hostID shardID isNonVoting } after) ∨
    ∃ replicaID index, call = ⟨.delete replicaID, .ok ()⟩ ∧
      Fsm.Advances before { index, cmd := newCmdReplicaDelete replicaID } after := by
  obtain ⟨op, answer⟩ := call
  obtain ⟨choice, served⟩ := served
  dsimp only at answer served ⊢
  unfold serveControl at served
  split at served
  · split at served
    · cases served
      exact .inl ⟨rfl, rfl⟩
    · cases served
  · obtain ⟨⟨result, next⟩, proposed, same⟩ := Option.map_eq_some_iff.mp served
    cases same
    exact .inr (.inl ⟨_, _, _, _, _, rfl, advances_of_propose proposed⟩)
  · obtain ⟨⟨result, next⟩, proposed, same⟩ := Option.map_eq_some_iff.mp served
    cases same
    exact .inr (.inr ⟨_, _, rfl, advances_of_propose proposed⟩)
  · cases served

/-- Only the changes matter to the registry. -/
theorem path_changes (path : Path (Program.Served serveControl) before calls after) :
    Path (Program.Served serveControl) before (changes calls) after := by
  induction calls generalizing before with
  | nil => exact path
  | cons call calls ih =>
    obtain ⟨middle, served, rest⟩ := Path.cons_iff.mp path
    cases asks : call.1.isOrder with
    | true =>
      have same : middle = before := by
        obtain ⟨-, same⟩ | ⟨_, _, _, _, _, rfl, -⟩ | ⟨_, _, rfl, -⟩ := served_cases served
        · exact same
        · cases asks
        · cases asks
      rw [changes, List.filter_cons_of_neg (by simp [asks]), ← changes]
      exact same ▸ ih rest
    | false =>
      rw [changes, List.filter_cons_of_pos (by simp [asks]), ← changes]
      exact Path.cons_iff.mpr ⟨middle, served, ih rest⟩

end Served

section PlacedOn

variable {before after state : State} {demand : Demand} {shard : Shard} {shardID : ℕ} {group hostID : String}

/-- The hosts of the replicas of a shard. -/
def State.placedOn (state : State) (shardID : ℕ) : List String :=
  (state.replicaIterateByShardID shardID).map Replica.hostID

theorem foundIn_eq : state.foundIn demand shardID group =
    (state.placedOn shardID).countP fun id => demand.counts (state.hostOrZero id) group := by
  rw [State.placedOn, List.countP_map]
  rfl

theorem occupies_iff : state.Occupies demand shardID hostID ↔
    hostID ∈ state.placedOn shardID ∧ demand.wants (state.hostOrZero hostID) := by
  rw [State.placedOn, List.mem_map]
  constructor
  · rintro ⟨replica, member, wanted, rfl⟩
    exact ⟨⟨replica, member, rfl⟩, wanted⟩
  · rintro ⟨⟨replica, member, rfl⟩, wanted⟩
    exact ⟨replica, member, wanted, rfl⟩

theorem length_undesired : (state.undesired demand shardID).length =
    (state.placedOn shardID).countP fun id => !demand.wants (state.hostOrZero id) := by
  rw [State.placedOn, List.countP_map, State.undesired, List.length_map, ← List.countP_eq_length_filter]
  rfl

theorem undesired_eq_nil_iff : state.undesired demand shardID = [] ↔
    ∀ id ∈ state.placedOn shardID, demand.wants (state.hostOrZero id) := by
  rw [← List.length_eq_zero_iff, length_undesired, List.countP_eq_zero]
  simp

theorem placedOn_of_perm {replica : Replica} (perm : after.replicaIterate.Perm (replica :: before.replicaIterate))
    (ofShard : replica.shardID = shardID) :
    (after.placedOn shardID).Perm (replica.hostID :: before.placedOn shardID) := by
  rw [State.placedOn, State.placedOn, State.replicaIterateByShardID_eq, State.replicaIterateByShardID_eq]
  have filtered := (perm.filter fun replica => replica.shardID = shardID).map Replica.hostID
  rwa [List.filter_cons_of_pos (by simpa using ofShard), List.map_cons] at filtered

/-- The host stored under the key keeps its identifier and its tags. -/
def Ledger.AlikeAt (before after : Ledger) (key : String) : Prop :=
  (after.hosts key).map (fun host => (host.id, host.tags)) = (before.hosts key).map fun host => (host.id, host.tags)

theorem Ledger.AlikeAt.stored {key : String} {host : Host} (alike : before.ledger.AlikeAt after.ledger key)
    (present : after.hosts.id[key]? = some host) :
    ∃ old, before.hosts.id[key]? = some old ∧ old.id = host.id ∧ old.tags = host.tags := by
  have records : (after.hosts.id[key]?).map (fun host => (host.id, host.tags)) =
    (before.hosts.id[key]?).map fun host => (host.id, host.tags) := alike
  rw [present, Option.map_some] at records
  obtain ⟨old, stored, same⟩ := Option.map_eq_some_iff.mp records.symm
  injection same with ids tags
  exact ⟨old, stored, ids, tags⟩

theorem hostOrZero_tags_of_alikeAt {hostID : String}
    (alike : ∀ key, uuidKey hostID = some key → before.ledger.AlikeAt after.ledger key) :
    (after.hostOrZero hostID).tags = (before.hostOrZero hostID).tags := by
  unfold State.hostOrZero State.host
  cases parsed : uuidKey hostID with
  | none => rfl
  | some key =>
    have same := alike key parsed
    dsimp only
    cases new : after.hosts.id[key]? with
    | none =>
      have absent : before.hosts.id[key]? = none := by
        have records : (after.hosts.id[key]?).map _ = (before.hosts.id[key]?).map _ := same
        rw [new, Option.map_none] at records
        exact Option.map_eq_none_iff.mp records.symm
      rw [absent]
    | some host =>
      obtain ⟨old, stored, -, tags⟩ := same.stored new
      rw [stored]
      exact tags.symm

theorem hostOrZero_tags (same : before.ledger.SameHosts after.ledger) (hostID : String) :
    (after.hostOrZero hostID).tags = (before.hostOrZero hostID).tags :=
  hostOrZero_tags_of_alikeAt fun key _ => same.hosts key

theorem mem_hostIterate {host : Host} :
    host ∈ state.hostIterate ↔ ∃ key : String, state.hosts.id[key]? = some host := by
  rw [State.hostIterate, List.mem_map]
  constructor
  · rintro ⟨⟨key, host⟩, member, rfl⟩
    exact ⟨key, ExtTreeMap.mem_toList_iff_getElem?_eq_some.mp member⟩
  · rintro ⟨key, found⟩
    exact ⟨(key, host), ExtTreeMap.mem_toList_iff_getElem?_eq_some.mpr found, rfl⟩

/-- A registered host is found under its own identifier. -/
theorem hostOrZero_of_mem {host : Host} (registered : host ∈ state.hostIterate) : state.hostOrZero host.id = host := by
  obtain ⟨key, found⟩ := mem_hostIterate.mp registered
  rw [State.hostOrZero, State.host, state.hosts.keyed key host found]
  simp [found]

/-- Hosts with the same tags are alike to every group. -/
theorem counts_congr {host other : Host} (same : host.tags = other.tags) :
    demand.counts host = demand.counts other := by
  funext group
  simp only [Demand.counts, Demand.selects, Demand.varied, same]

theorem wants_congr {host other : Host} (same : host.tags = other.tags) :
    demand.wants host = demand.wants other := by
  rw [Demand.wants, Demand.wants, counts_congr same]

theorem SameHosts.mem_hostIterate (same : before.ledger.SameHosts after.ledger) {host : Host}
    (registered : host ∈ after.hostIterate) :
    ∃ old ∈ before.hostIterate, old.id = host.id ∧ old.tags = host.tags := by
  obtain ⟨key, found⟩ := Zongzi.mem_hostIterate.mp registered
  have alike : before.ledger.AlikeAt after.ledger key := same.hosts key
  obtain ⟨old, stored, ids, tags⟩ := alike.stored found
  exact ⟨old, Zongzi.mem_hostIterate.mpr ⟨key, stored⟩, ids, tags⟩

end PlacedOn

section Settle

variable {before after state : State} {hostIterateByTag : String → List Host} {shard : Shard}
  {demand : Demand} {shardID : ℕ}

/-- Every replica counts for a group, and every group has what it wants or a replica on every host that its
filter selects. -/
structure State.Settled (state : State) (demand : Demand) (shardID : ℕ) : Prop where
  desired : state.undesired demand shardID = []
  filled : ∀ (group : String) (count : ℤ), demand.desired[group]? = some count →
    count ≤ state.foundIn demand shardID group ∨
      ∀ host ∈ state.hostIterate, demand.selects group host → state.Occupies demand shardID host.id

theorem State.Settled.not_lacks (settled : state.Settled demand shardID) {group : String} {host : Host} :
    ¬ state.Lacks demand shardID group host := by
  rintro ⟨⟨count, wanted, lacks⟩, registered, selected, free⟩
  obtain enough | taken := settled.filled group count wanted
  · omega
  · exact free (taken host registered selected)

/-- Where nothing has to vary, a host that a filter selects counts for the group. -/
theorem counts_of_selects (plain : demand.vary = ∅) {host : Host} {group : String}
    (selected : demand.selects group host) : demand.counts host group := by
  simp [Demand.counts, selected, Demand.varied, plain]

theorem State.Lacks.wants (plain : demand.vary = ∅) {group : String} {host : Host}
    (lacks : state.Lacks demand shardID group host) : demand.wants (state.hostOrZero host.id) := by
  obtain ⟨count, wanted, -⟩ := lacks.lacks
  rw [hostOrZero_of_mem lacks.registered, Demand.wants, List.any_eq_true]
  refine ⟨group, ?_, counts_of_selects plain lacks.selected⟩
  rw [ExtTreeMap.mem_keys, ← ExtTreeMap.isSome_getElem?_iff_mem, wanted]
  rfl

/-- After replicas were added there is nothing left to do. -/
theorem settled_of_added {created : List Created} (plain : demand.vary = ∅)
    (nobody : before.undesired demand shardID = []) (same : before.ledger.SameHosts after.ledger)
    (placed : (after.placedOn shardID).Perm (created.map (·.host.id) ++ before.placedOn shardID))
    (lacks : ∀ one ∈ created, before.Lacks demand shardID one.group one.host)
    (filled : ∀ (group : String) (count : ℤ), demand.desired[group]? = some count →
      before.Filled demand shardID created group count) : after.Settled demand shardID := by
  have alike (id : String) : demand.wants (after.hostOrZero id) = demand.wants (before.hostOrZero id) :=
    wants_congr (hostOrZero_tags same id)
  have wanted (id : String) (member : id ∈ after.placedOn shardID) : demand.wants (after.hostOrZero id) := by
    rw [alike]
    obtain added | old := List.mem_append.mp (placed.mem_iff.mp member)
    · obtain ⟨one, made, rfl⟩ := List.mem_map.mp added
      exact (lacks one made).wants plain
    · exact undesired_eq_nil_iff.mp nobody id old
  refine ⟨undesired_eq_nil_iff.mpr wanted, fun group count wants => ?_⟩
  obtain enough | taken := filled group count wants
  · left
    have more : created.countP (·.group = group) ≤
        (created.map (·.host.id)).countP fun id => demand.counts (after.hostOrZero id) group := by
      rw [List.countP_map]
      refine List.countP_mono_left fun one member named => ?_
      have placed := lacks one member
      simp only [decide_eq_true_eq] at named
      rw [Function.comp_apply, counts_congr (hostOrZero_tags same _), hostOrZero_of_mem placed.registered]
      exact counts_of_selects plain (named ▸ placed.selected)
    have old : before.foundIn demand shardID group =
        (before.placedOn shardID).countP fun id => demand.counts (after.hostOrZero id) group := by
      rw [foundIn_eq]
      refine congrArg (fun p => (before.placedOn shardID).countP p) (funext fun id => ?_)
      rw [counts_congr (hostOrZero_tags same id)]
    rw [foundIn_eq, placed.countP_eq, List.countP_append]
    omega
  · right
    intro host registered selected
    obtain ⟨stored, member, ids, tags⟩ := SameHosts.mem_hostIterate same registered
    have selects : demand.selects group stored := by
      rw [Demand.selects, tags]
      exact selected
    rw [← ids]
    obtain occupied | ⟨one, member, placedHere⟩ := taken stored member selects
    · obtain ⟨member, -⟩ := occupies_iff.mp occupied
      have member := placed.mem_iff.mpr (List.mem_append_right _ member)
      exact occupies_iff.mpr ⟨member, wanted _ member⟩
    · have member : stored.id ∈ after.placedOn shardID :=
        placed.mem_iff.mpr (List.mem_append_left _ (List.mem_map.mpr ⟨one, member, placedHere⟩))
      exact occupies_iff.mpr ⟨member, wanted _ member⟩

end Settle

section Pass

variable {before after : State} {hostIterateByTag : String → List Host} {shard : Shard}
  {demand : Demand} {shardID : ℕ}

/-- Replicas that are created one after the other are all there in the end. -/
theorem placedOn_of_created {created : List Created} (reached : before.Reached)
    (path : Path (Program.Served serveControl) before (created.map (Created.call shard)) after) :
    after.Reached ∧ before.ledger.SameHosts after.ledger ∧
      (after.placedOn shard.id).Perm (created.map (·.host.id) ++ before.placedOn shard.id) ∧
      before.replicaIterate ⊆ after.replicaIterate := by
  induction created generalizing before with
  | nil =>
    cases Path.nil_iff.mp path
    exact ⟨reached, .refl _, .refl _, List.Subset.refl _⟩
  | cons one created ih =>
    obtain ⟨middle, served, rest⟩ := Path.cons_iff.mp path
    obtain ⟨asks, -⟩ | ⟨hostID, shardID, isNonVoting, value, index, is, advances⟩ | ⟨_, _, is, -⟩ :=
      served_cases served
    · cases asks
    · cases is
      obtain ⟨reached', same, placed, kept⟩ := ih (reached.step advances) rest
      obtain ⟨replica, onHost, ofShard, perm⟩ := replicas_of_post reached.orderly advances
      obtain ⟨result, updated⟩ := advances.applies
      refine ⟨reached', ((Fsm.update_ledger updated).sameHosts rfl).trans same, placed.trans ?_, fun old member =>
        kept (perm.mem_iff.mpr (List.mem_cons_of_mem _ member))⟩
      have here := placedOn_of_perm perm ofShard
      rw [onHost] at here
      exact (here.append_left _).trans List.perm_middle
    · cases is

/-- A deleted replica that no group wants is one less. -/
theorem undesired_of_deleted {first : ℕ} {index : ℕ} (member : first ∈ before.undesired demand shardID)
    (advances : Fsm.Advances before { index, cmd := newCmdReplicaDelete first } after) :
    before.ledger.SameHosts after.ledger ∧
      (before.undesired demand shardID).length = (after.undesired demand shardID).length + 1 := by
  obtain ⟨result, updated⟩ := advances.applies
  have same := (Fsm.update_ledger updated).sameHosts rfl
  obtain ⟨replica, listed, rfl⟩ := List.mem_map.mp member
  rw [List.mem_filter, State.replicaIterateByShardID_eq, List.mem_filter, State.mem_replicaIterate] at listed
  obtain ⟨⟨found, ofShard⟩, unwanted⟩ := listed
  have placed := placedOn_of_perm (replicas_of_delete found advances) (of_decide_eq_true ofShard)
  have alike : (fun id => !demand.wants (before.hostOrZero id)) = fun id => !demand.wants (after.hostOrZero id) :=
    funext fun id => by rw [wants_congr (hostOrZero_tags same id)]
  refine ⟨same, ?_⟩
  rw [length_undesired, length_undesired, placed.countP_eq, List.countP_cons, if_pos unwanted, alike]

/-- A pass deletes one replica that no group wants, or leaves nothing to do. -/
theorem pass_effect {choices : List Choice} {err : Option String} {calls : List (Σ op, ControlRes op)}
    (reached : before.Reached) (found : before.shard shardID = some shard) (once : shard.tags.coversOnce)
    (unvaried : shard.tags.varies = false) (is : demand = .ofTags hostIterateByTag shard.tags)
    (ran : pass hostIterateByTag shardID before choices = some (err, calls, after)) :
    after.Reached ∧ before.ledger.SameHosts after.ledger ∧
      ((before.undesired demand shardID).length = (after.undesired demand shardID).length + 1 ∨
        after.Settled demand shardID ∧ (before.Settled demand shardID → changes calls = [])) := by
  obtain rfl := State.shard_id found
  have plain : demand.vary = ∅ := is ▸ Demand.vary_ofTags unvaried
  rw [pass, found, Option.bind_eq_bind, Option.bind_some] at ran
  have path := path_changes (Program.path_of_exec ran)
  have records : (reconcile ⟨before, hostIterateByTag⟩ shard).Records (fun _ _ => True) _ := reconcile_records once
  have outcome := records.of_exec (fun _ => trivial) ran
  rw [← is] at outcome
  unfold PassOutcome at outcome
  split at outcome
  · next first rest unwanted =>
    rw [outcome, Path.singleton_iff] at path
    obtain ⟨asks, -⟩ | ⟨_, _, _, _, _, is, -⟩ | ⟨replicaID, index, is, advances⟩ := served_cases path
    · cases asks
    · cases is
    · have named : first = replicaID := by
        injection is with ops
        injection ops
      subst named
      have member : first ∈ before.undesired demand shard.id := by
        rw [unwanted]
        exact List.mem_cons_self
      obtain ⟨same, fewer⟩ := undesired_of_deleted member advances
      exact ⟨reached.step advances, same, .inl fewer⟩
  · next nobody =>
    cases err with
    | none =>
      obtain ⟨created, made, lacks, -, filled⟩ := outcome
      rw [made] at path
      obtain ⟨reached, same, placed, -⟩ := placedOn_of_created reached path
      refine ⟨reached, same, .inr
        ⟨settled_of_added plain nobody same placed lacks (filled (.inl plain)), fun settled => ?_⟩⟩
      have empty : created = [] :=
        List.eq_nil_iff_forall_not_mem.mpr fun one member => settled.not_lacks (lacks one member)
      rw [made, empty, List.map_nil]
    | some err =>
      obtain ⟨created, group, host, -, made, -⟩ := outcome
      rw [made] at path
      obtain ⟨middle, -, last⟩ := Path.append_iff.mp path
      obtain ⟨asks, -⟩ | ⟨_, _, _, _, _, is, -⟩ | ⟨_, _, is, -⟩ := served_cases (Path.singleton_iff.mp last)
      · cases asks
      · cases is
      · cases is

/-- The shard has these tags. -/
structure Steady (shardID : ℕ) (tags : Tags) (state : State) : Prop where
  reached : state.Reached
  shard : ∃ shard, state.shard shardID = some shard ∧ shard.tags = tags

section Passes

variable {tags : Tags} (once : tags.coversOnce) (unvaried : tags.varies = false)
include once unvaried

theorem Steady.passes {event : (String → List Host) × List Choice} (steady : Steady shardID tags before)
    (ran : Passes hostIterateByTag shardID before event after) :
    Steady shardID tags after ∧
      ((before.undesired (.ofTags hostIterateByTag tags) shardID).length =
          (after.undesired (.ofTags hostIterateByTag tags) shardID).length + 1 ∨
        after.Settled (.ofTags hostIterateByTag tags) shardID) := by
  obtain ⟨answers, err, calls, ran⟩ := ran
  obtain ⟨shard, found, rfl⟩ := steady.shard
  obtain ⟨reached, same, effect⟩ :=
    pass_effect steady.reached found once unvaried (Demand.ofTags_congr answers).symm ran
  have kept := same.shards shardID
  rw [show before.ledger.shards shardID = some shard from found, Option.map_some] at kept
  exact ⟨⟨reached, Option.map_eq_some_iff.mp kept⟩, effect.imp_right And.left⟩

/-- Passes that outnumber the replicas no group wants leave nothing to do. -/
theorem settled_of_passes {log : List ((String → List Host) × List Choice)} (steady : Steady shardID tags before)
    (path : Path (Passes hostIterateByTag shardID) before log after)
    (long : (before.undesired (.ofTags hostIterateByTag tags) shardID).length < log.length ∨
      before.Settled (.ofTags hostIterateByTag tags) shardID) :
    Steady shardID tags after ∧ after.Settled (.ofTags hostIterateByTag tags) shardID := by
  induction log generalizing before with
  | nil =>
    cases Path.nil_iff.mp path
    exact ⟨steady, long.resolve_left (by simp)⟩
  | cons event log ih =>
    obtain ⟨middle, ran, rest⟩ := Path.cons_iff.mp path
    obtain ⟨steady', fewer | settled⟩ := steady.passes once unvaried ran
    · refine ih steady' rest (.inl ?_)
      obtain longer | settled := long
      · rw [List.length_cons] at longer
        omega
      · rw [settled.desired, List.length_nil] at fewer
        omega
    · exact ih steady' rest (.inr settled)

end Passes

/-- A host that holds a replica of a shard that is settled. -/
theorem host_of_settled (reached : before.Reached) (settled : before.Settled demand shardID) {replica : Replica}
    (member : replica ∈ before.replicaIterateByShardID shardID) :
    ∃ host group, before.host replica.hostID = .ok (some host) ∧ group ∈ demand.desired ∧
      demand.selects group host := by
  have wanted := undesired_eq_nil_iff.mp settled.desired replica.hostID (List.mem_map_of_mem member)
  have listed : replica ∈ before.replicaIterate := by
    rw [State.replicaIterateByShardID_eq] at member
    exact List.mem_of_mem_filter member
  obtain ⟨key, parsed, present⟩ := State.hosts_of_mem reached.hosted listed
  obtain ⟨host, stored⟩ : ∃ host, before.hosts.id[key]? = some host := by
    refine Option.isSome_iff_exists.mp ?_
    simpa [State.topology] using present
  have looked : before.host replica.hostID = .ok (some host) := State.host_eq_ok_iff.mpr ⟨key, parsed, stored⟩
  rw [State.hostOrZero, looked, Demand.wants, List.any_eq_true] at wanted
  obtain ⟨group, wanted, counts⟩ := wanted
  exact ⟨host, group, looked, ExtTreeMap.mem_keys.mp wanted, (Bool.and_eq_true_iff.mp counts).1⟩

/-- Without a tag to vary, one pass more than the shard has replicas at first leaves nothing to do: no further
pass creates or deletes a replica, every replica is on a host that the filter of some group selects, and every
group has what it wants or a replica on every host that its filter selects. -/
theorem placement_converges {log : List Entry} {initial last : State} {shard : Shard}
    {passes : List ((String → List Host) × List Choice)} (reached : Path Fsm.Advances {} log initial)
    (found : initial.shard shardID = some shard) (once : shard.tags.coversOnce)
    (unvaried : shard.tags.varies = false) (path : Path (Passes hostIterateByTag shardID) initial passes last)
    (long : (initial.replicaIterateByShardID shardID).length + 1 ≤ passes.length) :
    (∀ answers choices err calls next, (∀ key, (answers key).map Host.tags = (hostIterateByTag key).map Host.tags) →
      pass answers shardID last choices = some (err, calls, next) → changes calls = []) ∧
    (∀ replica ∈ last.replicaIterateByShardID shardID, ∃ host group,
      last.host replica.hostID = .ok (some host) ∧ group ∈ (Demand.ofTags hostIterateByTag shard.tags).desired ∧
      (Demand.ofTags hostIterateByTag shard.tags).selects group host) ∧
    ∀ (group : String) (count : ℤ), (Demand.ofTags hostIterateByTag shard.tags).desired[group]? = some count →
      count ≤ ((last.replicaIterateByShardID shardID).countP fun replica =>
        (Demand.ofTags hostIterateByTag shard.tags).selects group (last.hostOrZero replica.hostID) : ℕ) ∨
      ∀ host ∈ last.hostIterate, (Demand.ofTags hostIterateByTag shard.tags).selects group host →
        ∃ replica ∈ last.replicaIterateByShardID shardID, replica.hostID = host.id := by
  have few : (initial.undesired (.ofTags hostIterateByTag shard.tags) shardID).length < passes.length := by
    have bounded := List.countP_le_length (p := fun id =>
      !(Demand.ofTags hostIterateByTag shard.tags).wants (initial.hostOrZero id)) (l := initial.placedOn shardID)
    rw [← length_undesired, State.placedOn, List.length_map] at bounded
    omega
  obtain ⟨⟨reached', stored, found', tags⟩, settled⟩ :=
    settled_of_passes once unvaried ⟨⟨log, reached⟩, shard, found, rfl⟩ path (.inl few)
  refine ⟨fun answers choices err calls next same ran => ?_, fun replica member =>
    host_of_settled reached' settled member, fun group count wanted => ?_⟩
  · have demand : Demand.ofTags hostIterateByTag shard.tags = .ofTags answers stored.tags := by
      rw [tags, Demand.ofTags_congr same]
    obtain ⟨-, -, fewer | ⟨-, idle⟩⟩ := pass_effect reached' found' (tags ▸ once) (tags ▸ unvaried) demand ran
    · rw [settled.desired, List.length_nil] at fewer
      omega
    · exact idle settled
  · refine (settled.filled group count wanted).imp (fun enough => ?_) fun taken host registered selected => ?_
    · refine enough.trans (Int.ofNat_le.mpr (List.countP_mono_left fun replica _ counts => ?_))
      exact (Bool.and_eq_true_iff.mp counts).1
    · obtain ⟨replica, member, -, same⟩ := taken host registered selected
      exact ⟨replica, member, same⟩

end Pass

section Witness

/-- A host, and a shard that wants one member. -/
def lackingLog : List Entry :=
  [{ index := 1, cmd := .host .put Fsm.exampleHost },
    { index := 2
      cmd := newCmdShardPost { newShard "kv" with tags := tagMapFromList ["placement:member=1"] } }]

/-- A pass that creates the member. -/
def fillingPass : List Choice :=
  [.order [0], .order [0], .order [], .order [0], .order [], .order [], .order [], .applied 3]

/-- One pass creates the member that is missing, and the next has nothing to do. -/
theorem one_pass_fills :
    ∃ initial last results, Fsm.run {} lackingLog = .ok (initial, results) ∧
      Path (Passes (fun _ => []) 1) initial [(fun _ => [], fillingPass)] last ∧
      (last.replicaIterateByShardID 1).length = 1 ∧
      ∀ choices err calls next, pass (fun _ => []) 1 last choices = some (err, calls, next) →
        changes calls = [] := by
  obtain ⟨⟨initial, results⟩, applied, shard, found, once, unvaried, none, ⟨err, calls, last⟩, ran, one⟩ :
      ∃ reached ∈ (Fsm.run {} lackingLog).toOption, ∃ shard ∈ reached.1.shard 1,
        shard.tags.coversOnce ∧ shard.tags.varies = false ∧ (reached.1.replicaIterateByShardID 1).length = 0 ∧
        ∃ passed ∈ pass (fun _ => []) 1 reached.1 fillingPass, (passed.2.2.replicaIterateByShardID 1).length = 1 := by
    decide +kernel
  rw [Option.mem_def, ExceptFold.toOption_eq_some_iff] at applied
  have reached : Path Fsm.Advances {} lackingLog initial :=
    (Fsm.path_of_numbered ⟨by decide, by decide⟩ (Fsm.path_iff_run.mpr ⟨results, applied⟩)).1
  have path : Path (Passes (fun _ => []) 1) initial [(fun _ => [], fillingPass)] last :=
    Path.singleton_iff.mpr ⟨fun _ => rfl, err, calls, ran⟩
  refine ⟨initial, last, results, applied, path, one, fun choices err calls next ran => ?_⟩
  have long : (initial.replicaIterateByShardID 1).length + 1 ≤ 1 := by rw [none]
  exact (placement_converges reached found once unvaried path long).1 _ choices err calls next (fun _ => rfl) ran

end Witness

end Zongzi
