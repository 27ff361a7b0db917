import Zongzi.Model.SharedMaps
import Zongzi.Proofs.Runs
import Zongzi.Proofs.Tags

/-! # Tag maps behind pointers refine the registry

Whatever order the range loops take, a registry whose records point to their maps reads like the registry of the
state machine: a command writes the tags of the record whose map it is about, and no two records share a map. A
snapshot shares its maps with the registry. It goes on showing what it showed exactly as long as no tag action
changes a map that the snapshot has and that the record still has.
-/

namespace Zongzi

open Std ExceptFold Machine Pointers

namespace Fsm

section Loops

variable {new old : Tags} {order : List (String × String)}

/-- Two entries of a map are one, or have different keys. -/
private theorem eq_or_keys_ne (visits : order.Perm (entries old)) {left right : String × String}
    (memberLeft : left ∈ order) (memberRight : right ∈ order) : left = right ∨ left.1 ≠ right.1 := by
  by_cases same : left.1 = right.1
  · have first := mem_entries_iff.mp (visits.mem_iff.mp memberLeft)
    have second := mem_entries_iff.mp (visits.mem_iff.mp memberRight)
    rw [same, second] at first
    exact .inl (Prod.ext same (Option.some.inj first).symm)
  · exact .inr same

private theorem assign_comm (tags : Tags) {left right : String × String} (different : left.1 ≠ right.1) :
    (assign tags left.1 left.2 >>= fun tags => assign tags right.1 right.2) =
      (assign tags right.1 right.2 >>= fun tags => assign tags left.1 left.2) := by
  cases tags with
  | none => rfl
  | some tagMap =>
    have swapped : (tagMap.insert left.1 left.2).insert right.1 right.2 =
        (tagMap.insert right.1 right.2).insert left.1 left.2 := by
      apply ExtTreeMap.ext_getElem?
      intro key
      simp only [ExtTreeMap.getElem?_insert, LawfulEqCmp.compare_eq_iff_eq]
      by_cases here : right.1 = key
      · have elsewhere : left.1 ≠ key := fun same => different (same.trans here.symm)
        simp [here, elsewhere]
      · simp [here]
    exact congrArg (fun tagMap => Except.ok (some tagMap)) swapped

theorem setLoop_eq (visits : order.Perm (entries old)) : setLoop new order = tagsSet new old := by
  refine foldlM_perm visits (fun left memberLeft right memberRight state => ?_) _
  rcases eq_or_keys_ne visits memberLeft memberRight with rfl | different
  · rfl
  · have swapped := assign_comm state.1 different
    simp only [bind_assoc, pure_bind]
    simp only [← bind_assoc]
    rw [swapped]

theorem setNXLoop_eq (visits : order.Perm (entries old)) : setNXLoop new order = tagsSetNX new old := by
  refine foldlM_perm visits (fun left memberLeft right memberRight state => ?_) _
  rcases eq_or_keys_ne visits memberLeft memberRight with rfl | different
  · rfl
  · obtain ⟨tags, written⟩ := state
    cases tags with
    | none => rfl
    | some tagMap =>
      have swapped := assign_comm (some tagMap) different
      simp only [assign] at swapped
      by_cases hasLeft : (tagMap[left.1]?).isSome
      all_goals by_cases hasRight : (tagMap[right.1]?).isSome
      all_goals simp_all [assign, bind, Except.bind, pure, Except.pure, different.symm]

theorem removeLoop_eq (visits : order.Perm (entries old)) : removeLoop new order = tagsRemove new old := by
  refine congrArg Except.ok (visits.foldl_eq' (fun left _ right _ state => ?_) _)
  obtain ⟨tags, written⟩ := state
  cases tags with
  | none => rfl
  | some tagMap =>
    have swapped : (tagMap.erase left.1).erase right.1 = (tagMap.erase right.1).erase left.1 := by
      apply ExtTreeMap.ext_getElem?
      intro key
      simp only [ExtTreeMap.getElem?_erase, LawfulEqCmp.compare_eq_iff_eq]
      split
      · simp
      · rfl
    exact congrArg (fun tagMap => (some tagMap, true)) swapped

end Loops

/-- The loop of a tag action computes its tag function. -/
theorem tagLoop_eq {action : Action} {loop : TagLoop} {fn : TagFn} (isLoop : tagLoop action = some loop)
    (isFn : action.tagFn = some fn) (visits : order.Perm (entries old)) : loop new order = fn new old := by
  cases action with
  | tagsSet =>
    cases isLoop
    cases isFn
    exact setLoop_eq visits
  | tagsSetNX =>
    cases isLoop
    cases isFn
    exact setNXLoop_eq visits
  | tagsRemove =>
    cases isLoop
    cases isFn
    exact removeLoop_eq visits
  | _ => cases isFn

theorem isSome_tagLoop (action : Action) : (tagLoop action).isSome = action.tagFn.isSome := by
  cases action with
  | _ => rfl

section Ranged

variable (ranging : Ranging) (state : State) (entry : Entry)

theorem rangedFn_eq {action : Action} {loop : TagLoop} {fn : TagFn} (isLoop : tagLoop action = some loop)
    (isFn : action.tagFn = some fn) : rangedFn ranging loop = fn :=
  funext₂ fun _ old => tagLoop_eq isLoop isFn (ranging.visits old)

theorem ranged_eq {action : Action} {put tag : TagFn → Outcome} {other : Outcome}
    (puts : action = .put → other = put tagsSetNX) (tags : ∀ fn, action.tagFn = some fn → other = tag fn) :
    ranged ranging action put tag other = other := by
  have tagged {loop : TagLoop} {fn : TagFn} (isLoop : tagLoop action = some loop) (isFn : action.tagFn = some fn) :
      tag (rangedFn ranging loop) = other := by
    rw [tags fn isFn, rangedFn_eq ranging isLoop isFn]
  cases action with
  | put =>
    rw [puts rfl]
    exact congrArg put (@rangedFn_eq ranging .tagsSetNX _ _ rfl rfl)
  | tagsSet => exact tagged rfl rfl
  | tagsSetNX => exact tagged rfl rfl
  | tagsRemove => exact tagged rfl rfl
  | _ => rfl

theorem hostUpdateIn_eq (action : Action) (host : Host) :
    hostUpdateIn ranging state entry action host = hostUpdate state entry action host := by
  refine ranged_eq ranging (fun put => by rw [put]; rfl) fun fn is => ?_
  cases action <;> cases is <;> rfl

theorem shardUpdateIn_eq (action : Action) (shard : Shard) :
    shardUpdateIn ranging state entry action shard = shardUpdate state entry action shard := by
  refine ranged_eq ranging (fun put => by rw [put]; rfl) fun fn is => ?_
  cases action <;> cases is <;> rfl

theorem replicaUpdateIn_eq (action : Action) (replica : Replica) :
    replicaUpdateIn ranging state entry action replica = replicaUpdate state entry action replica := by
  refine ranged_eq ranging (fun put => by rw [put]; rfl) fun fn is => ?_
  cases action <;> cases is <;> rfl

/-- The order of the loops changes neither the outcome of an entry nor whether it panics. -/
theorem updateIn_eq : updateIn ranging state entry = update state entry := by
  have same : applyIn ranging state entry = apply state entry := by
    unfold applyIn apply
    cases entry.cmd with
    | host action host => exact hostUpdateIn_eq ranging state entry action host
    | shard action shard => exact shardUpdateIn_eq ranging state entry action shard
    | replica action replica => exact replicaUpdateIn_eq ranging state entry action replica
    | _ => rfl
  rw [updateIn, update, same]

end Ranged

end Fsm

/-- The tags of a record, if there is one. -/
def State.tagsOf (state : State) : RecordName → Option Tags
  | .host key => (state.hosts.id[key]?).map Host.tags
  | .shard id => (state.shard id).map Shard.tags
  | .replica id => (state.replica id).map Replica.tags

/-- The first table has records of the second one only, with the same tags. -/
def Within (left right : RecordName → Option Tags) : Prop :=
  ∀ name tags, left name = some tags → right name = some tags

theorem Within.trans {left middle right : RecordName → Option Tags} (first : Within left middle)
    (second : Within middle right) : Within left right :=
  fun name tags found => second name tags (first name tags found)

theorem Within.of_eq {left right : RecordName → Option Tags} (same : left = right) : Within left right := by
  subst same
  exact fun _ _ found => found

namespace State

variable {state next : State}

section TagsOf

theorem tagsOf_shardPut (shard : Shard) :
    (state.shardPut shard).tagsOf = Function.update state.tagsOf (.shard shard.id) (some shard.tags) := by
  funext name
  cases name with
  | host key => rfl
  | replica id => rfl
  | shard id =>
    by_cases same : shard.id = id
    · subst same
      simp [tagsOf]
    · rw [Function.update_of_ne (by simpa using Ne.symm same)]
      simp [tagsOf, same]

/-- A shard that is put with its own tags is a copy. -/
theorem tagsOf_shardPut_self {id : ℕ} {stored shard : Shard} (found : state.shard id = some stored)
    (sameID : shard.id = stored.id) (sameTags : shard.tags = stored.tags) :
    (state.shardPut shard).tagsOf = state.tagsOf := by
  rw [tagsOf_shardPut, Function.update_eq_self_iff, sameID, sameTags, shard_id found]
  simp [tagsOf, found]

theorem tagsOf_shardTouch (id index : ℕ) : (state.shardTouch id index).tagsOf = state.tagsOf := by
  unfold shardTouch
  split
  · next found => exact tagsOf_shardPut_self found rfl rfl
  · rfl

theorem tagsOf_shardDelete (shard : Shard) : Within (state.shardDelete shard).tagsOf state.tagsOf := by
  intro name tags found
  cases name with
  | host key => exact found
  | replica id => exact found
  | shard id =>
    simp only [tagsOf, shard_shardDelete] at found ⊢
    split at found
    · cases found
    · exact found

theorem tagsOf_hostPut {host : Host} {key : String} (stored : state.hostPut host = .ok next)
    (parsed : uuidKey host.id = some key) :
    next.tagsOf = Function.update state.tagsOf (.host key) (some host.tags) := by
  obtain ⟨other, valid, rfl⟩ := hostPut_eq_ok_iff.mp stored
  cases parsed.symm.trans valid
  funext name
  cases name with
  | shard id => rfl
  | replica id => rfl
  | host other =>
    by_cases same : key = other
    · subst same
      simp [tagsOf, HostTable.insert]
    · rw [Function.update_of_ne (by simpa using Ne.symm same)]
      simp [tagsOf, HostTable.insert, ExtTreeMap.getElem?_insert, same]

theorem tagsOf_hostTouch {id : String} {index : ℕ} (touched : state.hostTouch id index = .ok next) :
    next.tagsOf = state.tagsOf := by
  obtain ⟨key, host, parsed, found, stored⟩ := hostTouch_eq_ok_iff.mp touched
  rw [tagsOf_hostPut stored (state.hosts.keyed key host found), Function.update_eq_self_iff]
  simp [tagsOf, found]

theorem tagsOf_hostDelete {host : Host} (deleted : state.hostDelete host = .ok next) :
    Within next.tagsOf state.tagsOf := by
  obtain ⟨key, parsed, rfl⟩ := hostDelete_eq_ok_iff.mp deleted
  intro name tags found
  cases name with
  | shard id => exact found
  | replica id => exact found
  | host other =>
    simp only [tagsOf, HostTable.delete, ExtTreeMap.getElem?_erase] at found ⊢
    split at found
    · cases found
    · exact found

theorem tagsOf_replicaPut {replica : Replica} (stored : state.replicaPut replica = .ok next) :
    next.tagsOf = Function.update state.tagsOf (.replica replica.id) (some replica.tags) := by
  obtain ⟨valid, rfl⟩ := replicaPut_eq_ok_iff.mp stored
  funext name
  cases name with
  | host key => rfl
  | shard id => rfl
  | replica id =>
    by_cases same : replica.id = id
    · subst same
      simp [tagsOf, State.replica, ReplicaTable.insert]
    · rw [Function.update_of_ne (by simpa using Ne.symm same)]
      simp [tagsOf, State.replica, ReplicaTable.insert, ExtTreeMap.getElem?_insert, same]

theorem tagsOf_replicaDelete (replica : Replica) : Within (state.replicaDelete replica).tagsOf state.tagsOf := by
  intro name tags found
  cases name with
  | host key => exact found
  | shard id => exact found
  | replica id =>
    simp only [tagsOf, replica_replicaDelete] at found ⊢
    split at found
    · cases found
    · exact found

theorem tagsOf_touchShards (replicas : List Replica) (index : ℕ) :
    (Fsm.touchShards state replicas index).tagsOf = state.tagsOf := by
  unfold Fsm.touchShards
  induction replicas generalizing state with
  | nil => rfl
  | cons replica rest ih => rw [List.foldl_cons, ih, tagsOf_shardTouch]

theorem tagsOf_touchHosts {replicas : List Replica} {index : ℕ}
    (touched : Fsm.touchHosts state replicas index = .ok next) : next.tagsOf = state.tagsOf :=
  foldlM_invariant (fun middle : State => middle.tagsOf = state.tagsOf) touched rfl
    fun _ _ _ _ same step => (tagsOf_hostTouch step).trans same

theorem tagsOf_touchOwners {replica : Replica} {index : ℕ}
    (touched : Fsm.touchOwners state replica index = .ok next) : next.tagsOf = state.tagsOf := by
  obtain ⟨middle, stepped, last⟩ := bind_eq_ok_iff.mp touched
  cases last
  rw [tagsOf_shardTouch, tagsOf_hostTouch stepped]

theorem tagsOf_dropOnHost (replicas : List Replica) (index : ℕ) :
    Within (replicas.foldl (fun state replica =>
      (state.replicaDelete replica).shardTouch replica.shardID index) state).tagsOf state.tagsOf := by
  induction replicas generalizing state with
  | nil => exact .of_eq rfl
  | cons replica rest ih =>
    refine ih.trans ?_
    rw [tagsOf_shardTouch]
    exact tagsOf_replicaDelete replica

theorem tagsOf_dropOfShard {replicas : List Replica} {index : ℕ}
    (dropped : replicas.foldlM (fun state replica =>
      (state.replicaDelete replica).hostTouch replica.hostID index) state = .ok next) :
    Within next.tagsOf state.tagsOf :=
  foldlM_invariant (fun middle : State => Within middle.tagsOf state.tagsOf) dropped (.of_eq rfl)
    fun replica _ before _ within step => by
      rw [tagsOf_hostTouch step]
      exact (tagsOf_replicaDelete replica).trans within

end TagsOf

end State

/-- The tags of a record whose map an operation writes. -/
def MapOp.result (stored : Tags) : MapOp → Except Panic Tags
  | .store tags => .ok tags
  | .merge tags => Prod.fst <$> Fsm.tagsSetNX tags stored
  | .change action tags =>
    match action.tagFn with
    | none => .ok stored
    | some fn => Prod.fst <$> fn stored tags

/-- The operation leaves these tags, whatever is found where there is no record. -/
def MapOp.Leaves (op : MapOp) (stored : Option Tags) (tags : Tags) : Prop :=
  ∀ found, (∀ held, stored = some held → found = held) → op.result found = .ok tags

/-- Records keep their tags, except for the one whose map is written. -/
def Follows (op : Option (RecordName × MapOp)) (before after : RecordName → Option Tags) : Prop :=
  match op with
  | none => Within after before
  | some (name, op) => ∃ tags, op.Leaves (before name) tags ∧
      Within after (Function.update before name (some tags))

section Follows

open Fsm

variable {state next : State} {name : RecordName} {action : Action} {fn : TagFn} {stored tags named : Tags}

theorem Follows.alone {op : Option (RecordName × MapOp)} {before after : RecordName → Option Tags}
    (none : op = none) (within : Within after before) : Follows op before after := by
  subst none
  exact within

theorem Follows.wrote {op : Option (RecordName × MapOp)} {mapOp : MapOp} {before after : RecordName → Option Tags}
    (is : op = some (name, mapOp)) (leaves : mapOp.Leaves (before name) tags)
    (written : after = Function.update before name (some tags)) : Follows op before after := by
  subst is
  exact ⟨tags, leaves, .of_eq written⟩

theorem leaves_store (found : Option Tags) : (MapOp.store tags).Leaves found tags := fun _ _ => rfl

theorem leaves_merge {written : Bool} (merged : tagsSetNX named stored = .ok (tags, written)) :
    (MapOp.merge named).Leaves (some stored) tags := by
  intro found held
  rw [held stored rfl, MapOp.result, merged]
  rfl

theorem leaves_change {written : Bool} (isFn : action.tagFn = some fn)
    (ran : fn stored named = .ok (tags, written)) : (MapOp.change action named).Leaves (some stored) tags := by
  intro found held
  simp only [held stored rfl, MapOp.result, isFn, ran]
  rfl

/-- A tag action that has not written has left the tags. -/
theorem Follows.unwritten (isFn : action.tagFn = some fn) (found : state.tagsOf name = some stored)
    (ran : fn stored named = .ok (tags, false)) :
    Follows (tagMapOp name true action named) state.tagsOf state.tagsOf := by
  have isLoop : (tagLoop action).isSome := by rw [isSome_tagLoop, isFn]; rfl
  have same := tags_of_unwritten isFn ran
  subst same
  simp only [tagMapOp, isLoop, Bool.and_self, if_true]
  refine ⟨tags, ?_, .of_eq ?_⟩
  · rw [found]
    exact leaves_change isFn ran
  · rw [eq_comm, Function.update_eq_self_iff, found]

theorem Follows.written (isFn : action.tagFn = some fn) (found : state.tagsOf name = some stored)
    (ran : fn stored named = .ok (tags, true))
    (written : next.tagsOf = Function.update state.tagsOf name (some tags)) :
    Follows (tagMapOp name true action named) state.tagsOf next.tagsOf := by
  have isLoop : (tagLoop action).isSome := by rw [isSome_tagLoop, isFn]; rfl
  simp only [tagMapOp, isLoop, Bool.and_self, if_true]
  refine ⟨tags, ?_, .of_eq written⟩
  rw [found]
  exact leaves_change isFn ran

theorem Follows.absent :
    Follows (tagMapOp name false action named) state.tagsOf state.tagsOf :=
  .of_eq rfl

end Follows

namespace Fsm

variable {state next : State} {entry : Entry} {result : Result}

section Host

theorem hostCmdPut_follows {host : Host} (applied : hostCmdPut state entry host = .ok (next, result)) :
    Follows (hostMapOp state .put host) state.tagsOf next.tagsOf := by
  obtain ⟨key, written, source, parsed, sameID, -, new, stored, -⟩ := hostCmdPut_cases applied
  have put := State.tagsOf_hostPut stored (sameID ▸ parsed)
  rw [State.tagsOf_touchShards] at put
  rcases new with ⟨old, tags, changed, found, merged, rfl, rfl⟩ | ⟨absent, rfl, rfl⟩
  · refine .wrote (by simp only [hostMapOp, parsed, Option.bind_some, found]; rfl) ?_ put
    simp only [State.tagsOf, found]
    exact leaves_merge merged
  · exact .wrote (by simp only [hostMapOp, parsed, Option.bind_some, absent]; rfl) (leaves_store _) put

theorem hostCmdDel_follows {host : Host} (applied : hostCmdDel state entry host = .ok (next, result)) :
    Within next.tagsOf state.tagsOf := by
  obtain ⟨key, parsed, ⟨-, rfl, -⟩ | ⟨stored, found, deleted, -⟩⟩ := hostCmdDel_cases applied
  · exact .of_eq rfl
  · exact (State.tagsOf_hostDelete deleted).trans (State.tagsOf_dropOnHost _ _)

theorem hostTagAction_follows {action : Action} {fn : TagFn} {host : Host} (isFn : action.tagFn = some fn)
    (applied : hostTagAction fn state entry host = .ok (next, result)) :
    Follows ((uuidKey host.id).bind fun key =>
      tagMapOp (.host key) (state.hosts.id[key]?).isSome action host.tags) state.tagsOf next.tagsOf := by
  simp only [hostTagAction, bind_eq_ok_iff, State.host_eq_ok_iff] at applied
  obtain ⟨found, ⟨key, parsed, looked⟩, applied⟩ := applied
  rw [parsed, Option.bind_some, looked]
  cases found with
  | none =>
    obtain ⟨rfl, -⟩ := accept_eq_ok_iff.mp applied
    exact .absent
  | some stored =>
    have present : state.tagsOf (.host key) = some stored.tags := by simp [State.tagsOf, looked]
    obtain ⟨⟨tags, written⟩, ran, applied⟩ := bind_eq_ok_iff.mp applied
    cases written with
    | false =>
      obtain ⟨rfl, -⟩ := accept_eq_ok_iff.mp applied
      exact .unwritten isFn present ran
    | true =>
      simp only [↓reduceIte, bind_eq_ok_iff] at applied
      obtain ⟨replicas, -, last, put, applied⟩ := applied
      obtain ⟨rfl, -⟩ := accept_eq_ok_iff.mp applied
      refine .written isFn present ran ?_
      rw [State.tagsOf_hostPut put (state.hosts.keyed key stored looked), State.tagsOf_touchShards]

theorem hostUpdate_follows {action : Action} {host : Host}
    (applied : hostUpdate state entry action host = .ok (next, result)) :
    Follows (hostMapOp state action host) state.tagsOf next.tagsOf := by
  cases action with
  | put => exact hostCmdPut_follows applied
  | tagsSet => exact hostTagAction_follows rfl applied
  | tagsSetNX => exact hostTagAction_follows rfl applied
  | tagsRemove => exact hostTagAction_follows rfl applied
  | del => exact .alone (by simp [hostMapOp, tagMapOp, tagLoop]) (hostCmdDel_follows applied)
  | _ =>
    obtain ⟨rfl, -⟩ := reject_eq_ok_iff.mp applied
    exact .alone (by simp [hostMapOp, tagMapOp, tagLoop]) (.of_eq rfl)

end Host

section Shard

theorem shardCmdPost_follows {shard : Shard} (applied : shardCmdPost state entry shard = .ok (next, result)) :
    Follows (shardMapOp state .post shard) state.tagsOf next.tagsOf := by
  rcases shardCmdPost_cases applied with ⟨named, taken, rfl, -⟩ | ⟨free, rfl, -⟩
  · exact .alone (if_pos ⟨named, taken⟩) (.of_eq rfl)
  · have untaken : ¬ (shard.name ≠ "" ∧ (state.shardFindByName shard.name).isSome) := by
      rcases free with unnamed | unknown
      · simp [unnamed]
      · simp [unknown]
    exact .wrote (if_neg untaken) (leaves_store _) (State.tagsOf_shardPut _)

theorem shardCmdPut_follows {shard : Shard} (applied : shardCmdPut state entry shard = .ok (next, result)) :
    Follows (shardMapOp state .put shard) state.tagsOf next.tagsOf := by
  rcases shardCmdPut_cases applied with ⟨absent, later, rfl, -⟩ | ⟨written, sameID, -, -, new, touched, -⟩
  · refine .alone ?_ (.of_eq rfl)
    simp only [shardMapOp, absent, Option.isSome_none, Bool.false_eq_true, if_false]
    exact if_neg later
  · have put := State.tagsOf_touchHosts touched
    rw [State.tagsOf_shardPut, sameID] at put
    rcases new with ⟨old, tags, changed, found, merged, rfl⟩ | ⟨absent, prime, first, rfl⟩
    · refine .wrote (by simp only [shardMapOp, found]; rfl) ?_ put
      simp only [State.tagsOf, found]
      exact leaves_merge merged
    · have stores : shardMapOp state .put shard = some (.shard shard.id, .store shard.tags) := by
        simp only [shardMapOp, absent, Option.isSome_none, Bool.false_eq_true, if_false]
        exact if_pos ⟨prime, first⟩
      exact .wrote stores (leaves_store _) put

theorem shardCmdStatusUpdate_follows {cmd : Shard}
    (applied : shardCmdStatusUpdate state entry cmd = .ok (next, result)) : next.tagsOf = state.tagsOf := by
  rcases shardCmdStatusUpdate_cases applied with ⟨-, rfl, -⟩ | ⟨stored, found, touched, -⟩
  · rfl
  · exact (State.tagsOf_touchHosts touched).trans (State.tagsOf_shardPut_self found rfl rfl)

theorem shardCmdLeaderSet_follows {cmd : Shard}
    (applied : shardCmdLeaderSet state entry cmd = .ok (next, result)) : next.tagsOf = state.tagsOf := by
  rcases shardCmdLeaderSet_cases applied with ⟨-, rfl, -⟩ | ⟨stored, found, rfl, -⟩
  · rfl
  · exact State.tagsOf_shardPut_self found rfl rfl

theorem shardCmdTouch_follows {shard : Shard}
    (applied : shardCmdTouch state entry shard = .ok (next, result)) : next.tagsOf = state.tagsOf := by
  rw [State.tagsOf_touchHosts (shardCmdTouch_cases applied).1, State.tagsOf_shardTouch]

theorem shardCmdDel_follows {cmd : Shard} (applied : shardCmdDel state entry cmd = .ok (next, result)) :
    Within next.tagsOf state.tagsOf := by
  rcases shardCmdDel_cases applied with ⟨-, rfl, -⟩ | ⟨stored, middle, -, dropped, rfl, -⟩
  · exact .of_eq rfl
  · exact (State.tagsOf_shardDelete stored).trans (State.tagsOf_dropOfShard dropped)

theorem shardTagAction_follows {action : Action} {fn : TagFn} {shard : Shard} (isFn : action.tagFn = some fn)
    (applied : shardTagAction fn state entry shard = .ok (next, result)) :
    Follows (tagMapOp (.shard shard.id) (state.shard shard.id).isSome action shard.tags) state.tagsOf
      next.tagsOf := by
  unfold shardTagAction at applied
  cases found : state.shard shard.id with
  | none =>
    simp only [found] at applied
    obtain ⟨rfl, -⟩ := accept_eq_ok_iff.mp applied
    exact .absent
  | some stored =>
    have present : state.tagsOf (.shard shard.id) = some stored.tags := by simp [State.tagsOf, found]
    simp only [found, bind_eq_ok_iff] at applied
    obtain ⟨⟨tags, written⟩, ran, applied⟩ := applied
    cases written with
    | false =>
      obtain ⟨rfl, -⟩ := accept_eq_ok_iff.mp applied
      exact .unwritten isFn present ran
    | true =>
      simp only [↓reduceIte, bind_eq_ok_iff] at applied
      obtain ⟨middle, touched, applied⟩ := applied
      obtain ⟨rfl, -⟩ := accept_eq_ok_iff.mp applied
      refine .written isFn present ran ?_
      rw [State.tagsOf_shardPut, State.tagsOf_touchHosts touched, State.shard_id found]

theorem shardUpdate_follows {action : Action} {shard : Shard}
    (applied : shardUpdate state entry action shard = .ok (next, result)) :
    Follows (shardMapOp state action shard) state.tagsOf next.tagsOf := by
  cases action with
  | post => exact shardCmdPost_follows applied
  | put => exact shardCmdPut_follows applied
  | tagsSet => exact shardTagAction_follows rfl applied
  | tagsSetNX => exact shardTagAction_follows rfl applied
  | tagsRemove => exact shardTagAction_follows rfl applied
  | touch => exact .alone (by simp [shardMapOp, tagMapOp, tagLoop]) (.of_eq (shardCmdTouch_follows applied))
  | statusUpdate =>
    exact .alone (by simp [shardMapOp, tagMapOp, tagLoop]) (.of_eq (shardCmdStatusUpdate_follows applied))
  | leaderSet => exact .alone (by simp [shardMapOp, tagMapOp, tagLoop]) (.of_eq (shardCmdLeaderSet_follows applied))
  | del => exact .alone (by simp [shardMapOp, tagMapOp, tagLoop]) (shardCmdDel_follows applied)
  | unrecognized text =>
    obtain ⟨rfl, -⟩ := reject_eq_ok_iff.mp applied
    exact .alone (by simp [shardMapOp, tagMapOp, tagLoop]) (.of_eq rfl)

end Shard

section Replica

theorem replicaCmdPost_follows {replica : Replica}
    (applied : replicaCmdPost state entry replica = .ok (next, result)) :
    Follows (replicaMapOp state .post replica) state.tagsOf next.tagsOf := by
  obtain ⟨written, middle, sameID, same, -, -, put, touched, -⟩ := replicaCmdPost_cases applied
  refine .wrote rfl (leaves_store _) ?_
  have tags : written.tags = replica.tags := by rw [same]
  rw [State.tagsOf_touchOwners touched, State.tagsOf_replicaPut put, sameID, tags]
  rfl

theorem replicaCmdStatusUpdate_follows {cmd : Replica}
    (applied : replicaCmdStatusUpdate state entry cmd = .ok (next, result)) : next.tagsOf = state.tagsOf := by
  rcases replicaCmdStatusUpdate_cases applied with ⟨-, rfl, -⟩ | ⟨stored, middle, found, put, touched, -⟩
  · rfl
  · rw [State.tagsOf_touchOwners touched, State.tagsOf_replicaPut put, Function.update_eq_self_iff,
      State.replica_id found]
    simp [State.tagsOf, found]

theorem replicaCmdPut_follows {replica : Replica}
    (applied : replicaCmdPut state entry replica = .ok (next, result)) :
    Follows (replicaMapOp state .put replica) state.tagsOf next.tagsOf := by
  rcases replicaCmdPut_cases applied with
    ⟨absent, rfl, -⟩ | ⟨old, tags, changed, middle, found, merged, put, touched, -⟩
  · exact .alone (by simp only [replicaMapOp, absent]; rfl) (.of_eq rfl)
  · have written := (State.tagsOf_touchOwners touched).trans (State.tagsOf_replicaPut put)
    refine .wrote (by simp only [replicaMapOp, found]; rfl) ?_ written
    simp only [State.tagsOf, found]
    exact leaves_merge merged

theorem replicaCmdDel_follows {cmd : Replica} (applied : replicaCmdDel state entry cmd = .ok (next, result)) :
    Within next.tagsOf state.tagsOf := by
  rcases replicaCmdDel_cases applied with ⟨-, rfl, -⟩ | ⟨stored, middle, -, touched, rfl, -⟩
  · exact .of_eq rfl
  · exact (State.tagsOf_replicaDelete stored).trans (.of_eq (State.tagsOf_touchOwners touched))

theorem replicaTagAction_follows {action : Action} {fn : TagFn} {cmd : Replica} (isFn : action.tagFn = some fn)
    (applied : replicaTagAction fn state entry cmd = .ok (next, result)) :
    Follows (tagMapOp (.replica cmd.id) (state.replica cmd.id).isSome action cmd.tags) state.tagsOf
      next.tagsOf := by
  unfold replicaTagAction at applied
  cases found : state.replica cmd.id with
  | none =>
    simp only [found] at applied
    obtain ⟨rfl, -⟩ := accept_eq_ok_iff.mp applied
    exact .absent
  | some stored =>
    have present : state.tagsOf (.replica cmd.id) = some stored.tags := by simp [State.tagsOf, found]
    simp only [found, bind_eq_ok_iff] at applied
    obtain ⟨⟨tags, written⟩, ran, applied⟩ := applied
    cases written with
    | false =>
      obtain ⟨rfl, -⟩ := accept_eq_ok_iff.mp applied
      exact .unwritten isFn present ran
    | true =>
      simp only [↓reduceIte, bind_eq_ok_iff] at applied
      obtain ⟨middle, touched, last, put, applied⟩ := applied
      obtain ⟨rfl, -⟩ := accept_eq_ok_iff.mp applied
      refine .written isFn present ran ?_
      rw [State.tagsOf_replicaPut put, State.tagsOf_touchOwners touched, State.replica_id found]

theorem replicaUpdate_follows {action : Action} {replica : Replica}
    (applied : replicaUpdate state entry action replica = .ok (next, result)) :
    Follows (replicaMapOp state action replica) state.tagsOf next.tagsOf := by
  cases action with
  | post => exact replicaCmdPost_follows applied
  | put => exact replicaCmdPut_follows applied
  | tagsSet => exact replicaTagAction_follows rfl applied
  | tagsSetNX => exact replicaTagAction_follows rfl applied
  | tagsRemove => exact replicaTagAction_follows rfl applied
  | statusUpdate =>
    exact .alone (by simp [replicaMapOp, tagMapOp, tagLoop]) (.of_eq (replicaCmdStatusUpdate_follows applied))
  | del => exact .alone (by simp [replicaMapOp, tagMapOp, tagLoop]) (replicaCmdDel_follows applied)
  | _ =>
    obtain ⟨rfl, -⟩ := reject_eq_ok_iff.mp applied
    exact .alone (by simp [replicaMapOp, tagMapOp, tagLoop]) (.of_eq rfl)

end Replica

/-- An entry writes the tags of the record whose map it is about, and of no other. -/
theorem update_follows (updated : update state entry = .ok (next, result)) :
    Follows (mapOp state entry) state.tagsOf next.tagsOf := by
  obtain ⟨invalid, rfl, -⟩ | ⟨middle, applied, rfl, valid⟩ := update_cases updated
  · simp only [mapOp, invalid]
    exact .of_eq rfl
  · have same : (middle.metaSetIndex entry.index).tagsOf = middle.tagsOf := rfl
    rw [same]
    unfold apply at applied
    cases cmd : entry.cmd with
    | invalid => exact absurd cmd valid
    | unrecognized =>
      simp only [cmd] at applied
      obtain ⟨rfl, -⟩ := reject_eq_ok_iff.mp applied
      simp only [mapOp, cmd]
      exact .of_eq rfl
    | host action host =>
      simp only [cmd] at applied
      simp only [mapOp, cmd]
      exact hostUpdate_follows applied
    | shard action shard =>
      simp only [cmd] at applied
      simp only [mapOp, cmd]
      exact shardUpdate_follows applied
    | replica action replica =>
      simp only [cmd] at applied
      simp only [mapOp, cmd]
      exact replicaUpdate_follows applied

end Fsm

namespace State

variable {state : State} {left right read : RecordName → Tags}

section WithTags

theorem tagsOf_withTags (name : RecordName) :
    (state.withTags read).tagsOf name = (state.tagsOf name).map fun _ => read name := by
  cases name with
  | host key =>
    simp only [tagsOf, withTags, HostTable.withTags, ExtTreeMap.getElem?_map, Option.map_map]
    rfl
  | shard id =>
    simp only [tagsOf, State.shard, withTags, ShardTable.withTags, ExtTreeMap.getElem?_map, Option.map_map]
    refine Option.map_congr fun shard found => ?_
    exact congrArg (fun id => read (.shard id)) (shard_id found)
  | replica id =>
    simp only [tagsOf, State.replica, withTags, ReplicaTable.withTags, ExtTreeMap.getElem?_map, Option.map_map]
    refine Option.map_congr fun replica found => ?_
    exact congrArg (fun id => read (.replica id)) (replica_id found)

/-- Only the tags of the records that there are count. -/
theorem withTags_eq_iff :
    state.withTags left = state.withTags right ↔ ∀ name, (state.tagsOf name).isSome → left name = right name := by
  constructor
  · intro same name present
    obtain ⟨tags, found⟩ := Option.isSome_iff_exists.mp present
    have looked := congrArg (fun state => state.tagsOf name) same
    simpa [tagsOf_withTags, found] using looked
  · intro same
    have sameShard (shard : Shard) (found : state.shard shard.id = some shard) :
        shard.withTags (fun id => left (.shard id)) = shard.withTags fun id => right (.shard id) := by
      rw [Shard.withTags, same (.shard shard.id) (by simp [tagsOf, found])]
      rfl
    refine ext_maps rfl rfl rfl rfl ?_ ?_ ?_ ?_
    · apply ExtTreeMap.ext_getElem?
      intro key
      simp only [withTags, HostTable.withTags, ExtTreeMap.getElem?_map]
      refine Option.map_congr fun host found => ?_
      rw [same (.host key) (by simp [tagsOf, found])]
    · apply ExtTreeMap.ext_getElem?
      intro id
      simp only [withTags, ShardTable.withTags, ExtTreeMap.getElem?_map]
      refine Option.map_congr fun shard found => sameShard shard ?_
      rw [state.shards.keyed id shard found]
      exact found
    · apply ExtTreeMap.ext_getElem?
      intro name
      simp only [withTags, ShardTable.withTags, ExtTreeMap.getElem?_map]
      refine Option.map_congr fun shard found => sameShard shard ?_
      exact (state.shards.name_sound name shard found).2
    · apply ExtTreeMap.ext_getElem?
      intro id
      simp only [withTags, ReplicaTable.withTags, ExtTreeMap.getElem?_map]
      refine Option.map_congr fun replica found => ?_
      have atID := replica_id found
      subst atID
      rw [Replica.withTags, same (.replica replica.id) (by rw [tagsOf, State.replica, found]; rfl)]
      rfl

theorem withTags_tagsOf (state : State) : state.withTags (fun name => (state.tagsOf name).getD none) = state := by
  refine ext_maps rfl rfl rfl rfl ?_ ?_ ?_ ?_
  · apply ExtTreeMap.ext_getElem?
    intro key
    simp only [withTags, HostTable.withTags, ExtTreeMap.getElem?_map, tagsOf]
    cases found : state.hosts.id[key]? with
    | none => rfl
    | some host => rfl
  · apply ExtTreeMap.ext_getElem?
    intro id
    simp only [withTags, ShardTable.withTags, ExtTreeMap.getElem?_map, tagsOf]
    cases found : state.shards.id[id]? with
    | none => rfl
    | some shard =>
      have looked : state.shard shard.id = some shard := by rw [state.shards.keyed id shard found]; exact found
      simp [Shard.withTags, looked]
  · apply ExtTreeMap.ext_getElem?
    intro name
    simp only [withTags, ShardTable.withTags, ExtTreeMap.getElem?_map, tagsOf]
    cases found : state.shards.name[name]? with
    | none => rfl
    | some shard =>
      have looked : state.shard shard.id = some shard := (state.shards.name_sound name shard found).2
      simp [Shard.withTags, looked]
  · apply ExtTreeMap.ext_getElem?
    intro id
    simp only [withTags, ReplicaTable.withTags, ExtTreeMap.getElem?_map, tagsOf]
    cases found : state.replicas.id[id]? with
    | none => rfl
    | some replica =>
      have looked : state.replica replica.id = some replica := by
        rw [state.replicas.keyed id replica found]
        exact found
      simp [Replica.withTags, looked]

theorem withTags_eq_self_iff :
    state.withTags read = state ↔ ∀ name tags, state.tagsOf name = some tags → read name = tags := by
  nth_rewrite 2 [← withTags_tagsOf state]
  rw [withTags_eq_iff]
  constructor
  · intro same name tags found
    rw [same name (by simp [found]), found, Option.getD_some]
  · intro same name present
    obtain ⟨tags, found⟩ := Option.isSome_iff_exists.mp present
    rw [same name tags found, found, Option.getD_some]

end WithTags

end State

section Perform

open Fsm

variable {maps : TagMaps} {name : RecordName} {op : MapOp} {tags : Tags}

/-- The maps once an operation has left these tags. -/
def TagMaps.after (maps : TagMaps) (name : RecordName) (op : MapOp) (tags : Tags) : TagMaps :=
  match op with
  | .store _ => maps.store name tags
  | .merge _ => maps.store name tags
  | .change _ _ => maps.mutate name tags

/-- A tag function never makes a nil map, and never a map of one. -/
theorem isSome_of_tagFn {action : Action} {fn : TagFn} (is : action.tagFn = some fn) {stored named : Tags}
    {written : Bool} (ran : fn stored named = .ok (tags, written)) : tags.isSome = stored.isSome := by
  cases action with
  | tagsSet => cases is; exact (tagsSet_spec ran).1
  | tagsSetNX => cases is; exact (tagsSetNX_spec ran).1
  | tagsRemove => cases is; exact (tagsRemove_spec ran).1
  | _ => cases is

theorem isSome_of_change {action : Action} {named stored : Tags}
    (result : (MapOp.change action named).result stored = .ok tags) : tags.isSome = stored.isSome := by
  cases is : action.tagFn with
  | none =>
    simp only [MapOp.result, is, Except.ok.injEq] at result
    rw [result]
  | some fn =>
    simp only [MapOp.result, is, map_eq_ok_iff, Prod.exists] at result
    obtain ⟨_, written, ran, rfl⟩ := result
    exact isSome_of_tagFn is ran

/-- What the tags come to decides what is done to the maps. -/
theorem perform_eq (ranging : Ranging) (result : op.result (maps.read name) = .ok tags) :
    maps.perform ranging name op = .ok (maps.after name op tags) := by
  cases op with
  | store other =>
    cases result
    rfl
  | merge other =>
    simp only [MapOp.result, map_eq_ok_iff, Prod.exists] at result
    obtain ⟨_, written, ran, rfl⟩ := result
    simp only [TagMaps.perform, setNXLoop_eq (ranging.visits _), ran]
    rfl
  | change action named =>
    cases is : action.tagFn with
    | none =>
      have isLoop : tagLoop action = none := by
        rw [← Option.isNone_iff_eq_none, ← Option.not_isSome, isSome_tagLoop, is]
        rfl
      simp only [MapOp.result, is, Except.ok.injEq] at result
      subst result
      simp only [TagMaps.perform, isLoop, TagMaps.after, Heap.mutate_read]
    | some fn =>
      obtain ⟨loop, isLoop⟩ : ∃ loop, tagLoop action = some loop := by
        rw [← Option.isSome_iff_exists, isSome_tagLoop, is]
        rfl
      simp only [MapOp.result, is, map_eq_ok_iff, Prod.exists] at result
      obtain ⟨_, written, ran, rfl⟩ := result
      simp only [TagMaps.perform, isLoop, tagLoop_eq isLoop is (ranging.visits _), ran]
      rfl

theorem owned_after (owned : maps.Owned) : (maps.after name op tags).Owned := by
  cases op with
  | change action named => exact owned.mutate name tags
  | _ => exact owned.store name tags

theorem read_after (owned : maps.Owned) (result : op.result (maps.read name) = .ok tags) :
    (maps.after name op tags).read = Function.update maps.read name tags := by
  cases op with
  | change action named => exact Heap.read_mutate owned name (isSome_of_change result)
  | _ => exact Heap.read_store owned name tags

end Perform

namespace SharedRegistry

variable {registry next : SharedRegistry} {ranging : Ranging} {entry : Entry} {state : State} {result : Result}

theorem tagsOf_view (name : RecordName) (tags : Tags) (found : registry.view.tagsOf name = some tags) :
    registry.maps.read name = tags := by
  rw [view, State.tagsOf_withTags, Option.map_eq_some_iff] at found
  obtain ⟨_, -, same⟩ := found
  exact same

/-- The maps after an entry. -/
def Writes (op : Option (RecordName × MapOp)) (before after : TagMaps) : Prop :=
  match op with
  | none => after = before
  | some (name, op) => ∃ tags, op.result (before.read name) = .ok tags ∧ after = before.after name op tags

/-- An entry does to the maps what the state machine does to the tags. -/
theorem update_eq_ok (owned : registry.maps.Owned) (ranging : Ranging)
    (updated : Fsm.update registry.view entry = .ok (state, result)) :
    ∃ maps, registry.update ranging entry = .ok ({ state, maps }, result) ∧
      Writes (Fsm.mapOp registry.view entry) registry.maps maps ∧ maps.Owned ∧ state.withTags maps.read = state := by
  have follows := Fsm.update_follows updated
  cases is : Fsm.mapOp registry.view entry with
  | none =>
    rw [is] at follows
    refine ⟨registry.maps, ?_, rfl, owned, ?_⟩
    · simp only [update, Fsm.updateIn_eq, updated, is]
      rfl
    · rw [State.withTags_eq_self_iff]
      intro name tags found
      exact tagsOf_view name tags (follows name tags found)
  | some target =>
    obtain ⟨name, op⟩ := target
    rw [is] at follows
    obtain ⟨tags, leaves, within⟩ := follows
    have made := leaves (registry.maps.read name) (tagsOf_view name)
    refine ⟨registry.maps.after name op tags, ?_, ⟨tags, made, rfl⟩, owned_after owned, ?_⟩
    · simp only [update, Fsm.updateIn_eq, updated, is]
      change (registry.maps.perform ranging name op >>= _) = _
      rw [perform_eq ranging made]
      rfl
    · rw [State.withTags_eq_self_iff, read_after owned made]
      intro other found present
      have kept := within other found present
      by_cases same : other = name
      · subst same
        rw [Function.update_self] at kept ⊢
        exact Option.some.inj kept
      · rw [Function.update_of_ne same] at kept ⊢
        exact tagsOf_view other found kept

/-- An entry that does not panic, and the registry after it. -/
def Applied (registry : SharedRegistry) (event : Entry × Ranging) (next : SharedRegistry) : Prop :=
  ∃ result, registry.update event.2 event.1 = .ok (next, result)

theorem applied_determined : Determined Applied := by
  rintro registry event left right ⟨result, updated⟩ ⟨other, again⟩
  rw [updated] at again
  cases again
  rfl

theorem update_inv (owned : registry.maps.Owned) (updated : registry.update ranging entry = .ok (next, result)) :
    Fsm.update registry.view entry = .ok (next.view, result) ∧ next.maps.Owned ∧
      Writes (Fsm.mapOp registry.view entry) registry.maps next.maps := by
  have ran := updated
  simp only [update, Fsm.updateIn_eq, bind_eq_ok_iff, Prod.exists] at ran
  obtain ⟨state, value, applied, -⟩ := ran
  obtain ⟨maps, again, writes, kept, same⟩ := update_eq_ok owned ranging applied
  rw [updated] at again
  cases again
  have shown : ({ state, maps } : SharedRegistry).view = state := same
  exact ⟨by rw [shown]; exact applied, kept, writes⟩

theorem update_error {panic : Panic} (ranging : Ranging) (failed : Fsm.update registry.view entry = .error panic) :
    registry.update ranging entry = .error panic := by
  simp only [update, Fsm.updateIn_eq, failed]
  rfl

theorem owned_of_path {log : List (Entry × Ranging)} (path : Path Applied registry log next)
    (owned : registry.maps.Owned) : next.maps.Owned := by
  apply path.invariant
  · exact owned
  rintro event - before after owned ⟨result, updated⟩
  exact (update_inv owned updated).2.1

theorem view_empty : ({} : SharedRegistry).view = {} := by
  rw [view, State.withTags_eq_self_iff]
  intro name tags found
  cases name with
  | _ => simp [State.tagsOf, State.shard, State.replica, HostTable.empty, ShardTable.empty, ReplicaTable.empty] at found

theorem run_view (owned : registry.maps.Owned) (log : List (Entry × Ranging)) :
    (fun out => (out.1.view, out.2)) <$> registry.run log = Fsm.run registry.view (log.map Prod.fst) := by
  induction log generalizing registry with
  | nil => rfl
  | cons event log ih =>
    obtain ⟨entry, ranging⟩ := event
    simp only [run, Fsm.run, List.map_cons]
    cases updated : Fsm.update registry.view entry with
    | error panic =>
      rw [update_error ranging updated]
      rfl
    | ok out =>
      obtain ⟨state, result⟩ := out
      obtain ⟨maps, moved, -, kept, same⟩ := update_eq_ok owned ranging updated
      have rest := @ih { state, maps } kept
      rw [show ({ state, maps } : SharedRegistry).view = state from same] at rest
      rw [moved]
      change _ <$> (SharedRegistry.run { state, maps } log >>= _) = (Fsm.run state (log.map Prod.fst) >>= _)
      rw [← rest]
      cases ({ state, maps } : SharedRegistry).run log with
      | error panic => rfl
      | ok out => rfl

/-- A registry whose records point to their maps answers every log as the state machine does, with the same panics,
whatever order its range loops take. -/
theorem shared_registry_refines (log : List (Entry × Ranging)) :
    (fun out => (out.1.view, out.2)) <$> ({} : SharedRegistry).run log = Fsm.run {} (log.map Prod.fst) := by
  rw [run_view (Heap.owned_empty ∅) log, view_empty]

section Isolation

variable {snapshot now : SharedRegistry}

/-- An entry that changes a map of the snapshot in place finds every tag as it wants it. -/
def Spares (snapshot now : SharedRegistry) (entry : Entry) : Prop :=
  ∀ name action tags, Fsm.mapOp now.view entry = some (name, .change action tags) →
    (snapshot.view.tagsOf name).isSome → snapshot.maps.held name = now.maps.held name →
    Fsm.Agrees action (now.maps.read name) tags

theorem change_eq_iff {action : Action} {named stored tags : Tags}
    (result : (MapOp.change action named).result stored = .ok tags) :
    tags = stored ↔ Fsm.Agrees action stored named := by
  cases is : action.tagFn with
  | none =>
    simp only [MapOp.result, is, Except.ok.injEq] at result
    refine ⟨fun _ key value _ => ?_, fun _ => result.symm⟩
    cases action with
    | tagsSet => cases is
    | tagsSetNX => cases is
    | tagsRemove => cases is
    | _ => trivial
  | some fn =>
    simp only [MapOp.result, is, map_eq_ok_iff, Prod.exists] at result
    obtain ⟨_, written, ran, rfl⟩ := result
    exact Fsm.tags_eq_iff_agrees is ran

theorem since_of_writes {op : Option (RecordName × MapOp)} {old before after : TagMaps} (since : Heap.Since old before)
    (writes : Writes op before after) : Heap.Since old after := by
  cases op with
  | none => exact writes ▸ since
  | some target =>
    obtain ⟨name, op⟩ := target
    obtain ⟨tags, -, rfl⟩ := writes
    cases op with
    | change action named => exact since.mutate name tags
    | _ => exact since.store name tags

theorem since_of_path {log : List (Entry × Ranging)} (path : Path Applied snapshot log now)
    (owned : snapshot.maps.Owned) : now.maps.Owned ∧ Heap.Since snapshot.maps now.maps := by
  apply path.invariant
  · exact ⟨owned, .refl _⟩
  rintro event - before after ⟨owned, since⟩ ⟨result, updated⟩
  obtain ⟨-, kept, writes⟩ := update_inv owned updated
  exact ⟨kept, since_of_writes since writes⟩

theorem shows_eq_iff :
    snapshot.shows now = snapshot.view ↔
      ∀ name, (snapshot.view.tagsOf name).isSome → now.maps.seen snapshot.maps.held name = snapshot.maps.read name := by
  rw [shows, view, State.withTags_eq_iff]
  simp [State.tagsOf_withTags]

/-- One entry keeps what the snapshot shows exactly when it spares the maps of the snapshot. -/
theorem shows_step_iff (ownedThen : snapshot.maps.Owned) (owned : now.maps.Owned)
    (since : Heap.Since snapshot.maps now.maps) (shown : snapshot.shows now = snapshot.view)
    (updated : now.update ranging entry = .ok (next, result)) :
    snapshot.shows next = snapshot.view ↔ snapshot.Spares now entry := by
  obtain ⟨-, -, writes⟩ := update_inv owned updated
  rw [shows_eq_iff] at shown ⊢
  cases is : Fsm.mapOp now.view entry with
  | none =>
    rw [is] at writes
    have spares : snapshot.Spares now entry := by
      intro name action tags other
      rw [is] at other
      cases other
    rw [show next.maps = now.maps from writes]
    exact ⟨fun _ => spares, fun _ => shown⟩
  | some target =>
    obtain ⟨name, op⟩ := target
    rw [is] at writes
    obtain ⟨tags, made, written⟩ := writes
    cases op with
    | change action named =>
      have spares : snapshot.Spares now entry ↔ ((snapshot.view.tagsOf name).isSome →
          snapshot.maps.held name = now.maps.held name → tags = now.maps.read name) := by
        rw [change_eq_iff made]
        refine ⟨fun spares => spares name action named is, fun agrees other tagAction wanted same => ?_⟩
        rw [is] at same
        cases same
        exact agrees
      rw [spares, written]
      change (∀ other, _ → (now.maps.mutate name tags).seen snapshot.maps.held other = _) ↔ _
      rw [since.seen_mutate ownedThen name (isSome_of_change made)]
      by_cases holds : snapshot.maps.held name = now.maps.held name
      · have same : now.maps.seen snapshot.maps.held name = now.maps.read name := by
          simp only [Heap.read, Heap.seen, holds]
        rw [if_pos holds]
        constructor
        · intro kept present _
          have here := kept name present
          rw [Function.update_self] at here
          rw [here, ← shown name present, same]
        · intro spared other present
          by_cases here : other = name
          · subst here
            rw [Function.update_self, spared present holds, ← same, shown other present]
          · rw [Function.update_of_ne here, shown other present]
      · rw [if_neg holds]
        exact ⟨fun _ _ held => absurd held holds, fun _ => shown⟩
    | _ =>
      have spares : snapshot.Spares now entry := by
        intro other action wanted same
        rw [is] at same
        cases same
      rw [written]
      refine ⟨fun _ => spares, fun _ other present => ?_⟩
      rw [TagMaps.after, since.seen_store ownedThen, shown other present]

/-- A snapshot of the registry goes on showing what it showed exactly when no tag action of the log changes a map
that a record of the snapshot has kept since. -/
theorem snapshot_isolated_iff {history log : List (Entry × Ranging)} (taken : Path Applied {} history snapshot)
    (path : Path Applied snapshot log now) :
    Always Applied snapshot log (fun now => snapshot.shows now = snapshot.view) ↔
      AlwaysStep Applied snapshot log fun now event => snapshot.Spares now event.1 := by
  have owned := owned_of_path taken (Heap.owned_empty ∅)
  refine always_iff applied_determined path rfl ?_
  rintro front event back before after - reached shown ⟨result, updated⟩
  obtain ⟨ownedNow, since⟩ := since_of_path reached owned
  exact shows_step_iff owned ownedNow since shown updated

/-- A tag action on a host, applied after a snapshot that has the host. -/
def taggedHost : Entry :=
  { index := 2, cmd := newCmdTagsSet (.host Fsm.exampleHost) ["zone=a"] }

/-- The snapshot shows the new tag. -/
theorem snapshot_shows_new_tag :
    ∃ snapshot now, Path Applied {} [({ index := 1, cmd := .host .put Fsm.exampleHost }, .sorted)] snapshot ∧
      Path Applied snapshot [(taggedHost, .sorted)] now ∧
      ¬ Always Applied snapshot [(taggedHost, .sorted)] fun now => snapshot.shows now = snapshot.view := by
  have run : ∃ snapshot now, Path Applied {} [({ index := 1, cmd := .host .put Fsm.exampleHost }, .sorted)] snapshot ∧
      Path Applied snapshot [(taggedHost, .sorted)] now ∧
      Fsm.mapOp snapshot.view taggedHost =
        some (.host "00000000000040008000000000000001", .change .tagsSet (some (tagMapFromList ["zone=a"]))) ∧
      (snapshot.view.tagsOf (.host "00000000000040008000000000000001")).isSome ∧
      snapshot.maps.read (.host "00000000000040008000000000000001") = some ∅ :=
    ⟨_, _, Path.singleton_iff.mpr ⟨_, rfl⟩, Path.singleton_iff.mpr ⟨_, rfl⟩, rfl, rfl, rfl⟩
  obtain ⟨snapshot, now, taken, path, is, present, read⟩ := run
  refine ⟨snapshot, now, taken, path, ?_⟩
  rw [snapshot_isolated_iff taken path]
  intro spares
  have agrees := spares [] _ [] snapshot rfl .nil _ _ _ is present rfl "zone" "a" rfl
  rw [read] at agrees
  cases agrees

end Isolation

end SharedRegistry

end Zongzi
