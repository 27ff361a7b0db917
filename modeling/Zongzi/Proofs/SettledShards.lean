import Zongzi.Proofs.Convergence
import Zongzi.Proofs.PlacementTags

/-! # What keeps a shard settled

A pass finds nothing to do exactly where its shard is settled. That depends on the replicas of the shard, on the tags
of all hosts and on the tags of the shard itself, but a command stamps a shard with its index only if it changes the
shard, one of its replicas or a host that holds one of them. So a command leaves a shard that it does not stamp
settled, unless it puts a host without a replica of the shard that the shard has been waiting for.
-/

namespace Zongzi

open Std Machine PartialTable

section Idle

variable {snapshot : Snapshot} {shard : Shard} {state : State} {demand : Demand}

/-- A pass creates and deletes nothing, however the maps are visited. -/
def Idle (snapshot : Snapshot) (shard : Shard) : Prop :=
  (reconcile snapshot shard).Records (fun _ _ => True) fun _ calls => changes calls = []

theorem idle_of_settled (once : shard.tags.coversOnce)
    (settled : snapshot.state.Settled (.ofTags snapshot.hostIterateByTag shard.tags) shard.id) :
    Idle snapshot shard := by
  refine (reconcile_records once).mono fun err calls outcome => ?_
  rw [PassOutcome, settled.desired] at outcome
  cases err with
  | none =>
    obtain ⟨created, made, lacks, -⟩ := outcome
    have none_made : created = [] :=
      List.eq_nil_iff_forall_not_mem.mpr fun one member => settled.not_lacks (lacks one member)
    rw [made, none_made, List.map_nil]
  | some err =>
    obtain ⟨-, group, host, lacks, -⟩ := outcome
    exact absurd lacks settled.not_lacks

/-- A call has created or deleted a replica. -/
def isDone : (Σ op, ControlRes op) → Bool
  | ⟨.order _, _⟩ => false
  | ⟨.create .., created⟩ => created.isOk
  | ⟨.delete _, deleted⟩ => deleted.isOk

/-- A pass without an error that has created and deleted nothing has found nothing to do. -/
theorem settled_of_outcome {calls : List (Σ op, ControlRes op)} (plain : demand.vary = ∅)
    (outcome : PassOutcome state demand shard none (changes calls)) (idle : calls.any isDone = false) :
    state.Settled demand shard.id := by
  have undone : ∀ call ∈ changes calls, isDone call = false := by
    intro call member
    simpa using List.any_eq_false.mp idle call (List.mem_of_mem_filter member)
  unfold PassOutcome at outcome
  split at outcome
  · next first rest unwanted =>
    rw [outcome] at undone
    cases undone _ (List.mem_singleton_self _)
  · next nobody =>
    obtain ⟨created, made, -, -, filled⟩ := outcome
    have none_made : created = [] := by
      refine List.eq_nil_iff_forall_not_mem.mpr fun one member => ?_
      rw [made] at undone
      cases undone _ (List.mem_map_of_mem member)
    refine ⟨nobody, fun group count wanted => ?_⟩
    have held := filled (.inl plain) group count wanted
    simpa [State.Filled, none_made] using held

/-- The controls keep the outcome of a program and remember whether one of its calls has done something. -/
theorem interpret_returns {ρ : Type} {possible : (op : AgentOp) → AgentRes op → Prop} {program : Reconciliation ρ}
    {post : ρ → List (Σ op, ControlRes op) → Prop} (records : program.Records (fun _ _ => True) post)
    (updated : Bool) :
    ((program.interpret controls).run updated).Returns possible fun (result, after) =>
      ∃ calls, post result calls ∧ after = (updated || calls.any isDone) := by
  induction program generalizing post updated with
  | done result => exact ⟨[], records, by simp⟩
  | call op next ih =>
    have onwards (answer : ControlRes op) (after : Bool) (same : after = (updated || isDone ⟨op, answer⟩)) :
        (((next answer).interpret controls).run after).Returns possible fun (result, last) =>
          ∃ calls, post result calls ∧ last = (updated || calls.any isDone) := by
      refine (ih answer (records answer trivial) after).mono fun (result, last) ⟨calls, held, flag⟩ => ?_
      exact ⟨⟨op, answer⟩ :: calls, held, by rw [flag, same, List.any_cons, Bool.or_assoc]⟩
    cases op with
    | order count => exact fun order _ => onwards order updated (by simp [isDone])
    | create hostID shardID isNonVoting =>
      intro answer _
      cases answer with
      | error err => exact onwards (.error err) updated (by simp [isDone, Except.isOk, Except.toBool])
      | ok result => exact onwards (.ok result.value) true (by simp [isDone, Except.isOk, Except.toBool])
    | delete replicaID =>
      intro answer _
      cases answer with
      | error err => exact onwards (.error err) updated (by simp [isDone, Except.isOk, Except.toBool])
      | ok result => exact onwards (.ok ()) true (by simp [isDone, Except.isOk, Except.toBool])

end Idle

section Placement

variable {tags other : Tags} {hostIterateByTag answers : String → List Host}

/-- The tags agree on everything that placement reads. -/
def Tags.SamePlacement (tags other : Tags) : Prop :=
  ∀ rest, Fsm.lookup tags ("placement:" ++ rest) = Fsm.lookup other ("placement:" ++ rest)

theorem getElem?_getD_tags (tags : Tags) (key : String) : (tags.getD ∅)[key]? = Fsm.lookup tags key := by
  cases tags <;> simp [Fsm.lookup]

namespace Demand

/-- Only the tags of placement matter. -/
theorem ofTags_of_samePlacement (same : tags.SamePlacement other) :
    ofTags hostIterateByTag tags = ofTags hostIterateByTag other := by
  let isPlacement (key : String) : Bool := (after? "placement:" key).isSome
  have unread (tags : Tags) : ofTags hostIterateByTag tags =
      ((tags.getD ∅).filter fun key _ => isPlacement key).toList.foldl
        (fun demand tag => demand.addTag hostIterateByTag tag.1 tag.2) {} := by
    rw [ExtTreeMap.toList_filter, List.foldl_filter, ofTags]
    congr 1
    funext demand tag
    obtain ⟨tagKey, tagValue⟩ := tag
    cases placement : after? "placement:" tagKey with
    | none => simp [isPlacement, placement, addTag]
    | some rest => simp [isPlacement, placement]
  rw [unread, unread]
  congr 2
  ext1 key
  rw [ExtTreeMap.getElem?_filter', ExtTreeMap.getElem?_filter', getElem?_getD_tags, getElem?_getD_tags]
  cases placement : after? "placement:" key with
  | none => simp [isPlacement, placement]
  | some rest =>
    obtain rfl := after?_eq_some_iff.mp placement
    rw [same rest]

/-- What the tag index returns matters only to the cover tag, which counts hosts. -/
theorem ofTags_congr_cover (same : ∀ value, Fsm.lookup tags "placement:cover" = some value →
    ∀ tag ∈ split ';' value, ((hostIterateByTag (parseTag tag).1).countP fun host =>
      (parseTag tag).2 = "" || (host.tags.bind (·[(parseTag tag).1]?)).getD "" = (parseTag tag).2) =
    (answers (parseTag tag).1).countP fun host =>
      (parseTag tag).2 = "" || (host.tags.bind (·[(parseTag tag).1]?)).getD "" = (parseTag tag).2) :
    ofTags hostIterateByTag tags = ofTags answers tags := by
  have iterated (counted : Host → Bool) (hosts : List Host) (desired : Counts) :
      hosts.foldl (fun desired host => if counted host then Counts.add desired "cover" 1 else desired) desired =
        (fun desired : Counts => desired.add "cover" 1)^[hosts.countP counted] desired := by
    induction hosts generalizing desired with
    | nil => rfl
    | cons host hosts ih =>
      rw [List.foldl_cons, ih, List.countP_cons]
      split
      · rw [← Function.iterate_succ_apply]
      · rfl
  have cover_eq (value : String) (held : Fsm.lookup tags "placement:cover" = some value) (demand : Demand) :
      (split ';' value).foldl (fun demand tag => demand.cover hostIterateByTag tag) demand =
        (split ';' value).foldl (fun demand tag => demand.cover answers tag) demand := by
    refine List.foldl_ext _ _ _ fun demand tag member => ?_
    simp only [cover, iterated, same value held tag member]
  refine List.foldl_ext _ _ _ fun demand tag member => ?_
  obtain ⟨tagKey, tagValue⟩ := tag
  have held : Fsm.lookup tags tagKey = some tagValue := by
    rw [← getElem?_getD_tags]
    exact ExtTreeMap.mem_toList_iff_getElem?_eq_some.mp member
  dsimp only [addTag]
  cases placement : after? "placement:" tagKey with
  | none => rfl
  | some rest =>
    obtain rfl := after?_eq_some_iff.mp placement
    dsimp only
    by_cases cover : rest = "cover"
    · subst cover
      rw [cover_eq tagValue held]
    · simp only [if_neg cover]

end Demand

theorem Tags.SamePlacement.varies (same : tags.SamePlacement other) : tags.varies = other.varies := by
  rw [Tags.varies, Tags.varies, ExtTreeMap.contains_eq_isSome_getElem?, ExtTreeMap.contains_eq_isSome_getElem?,
    getElem?_getD_tags, getElem?_getD_tags]
  exact congrArg Option.isSome (same "vary")

theorem Tags.SamePlacement.coversOnce (same : tags.SamePlacement other) : tags.coversOnce = other.coversOnce := by
  have cover := same "cover"
  have replica := same "replica:cover"
  simp only [Tags.coversOnce, ExtTreeMap.contains_eq_isSome_getElem?, getElem?_getD_tags]
  exact congrArg₂ (fun left right : Option String => !left.isSome || !right.isSome) cover replica

/-- A tag command that names no tag of placement leaves them as they are. -/
theorem samePlacement_of_tagFn {action : Action} {fn : Fsm.TagFn} (is : action.tagFn = some fn) {stored named : Tags}
    {changed : Bool} (done : fn stored named = .ok (tags, changed))
    (unnamed : ∀ rest, Fsm.lookup named ("placement:" ++ rest) = none) : tags.SamePlacement stored := by
  intro rest
  cases action with
  | tagsSet =>
    cases is
    rw [(Fsm.tagsSet_spec done).2.2, unnamed, Option.none_or]
  | tagsSetNX =>
    cases is
    rw [(Fsm.tagsSetNX_spec done).2.2, unnamed, Option.or_none]
  | tagsRemove =>
    cases is
    rw [(Fsm.tagsRemove_spec done).2.2, unnamed]
    rfl
  | _ => cases is

end Placement

section Hosts

variable {before after : State} {demand : Demand} {shardID : ℕ} {key : String}

/-- A host under the key that no group of the shard is waiting for, and that holds no replica of the shard. -/
structure State.Unwanted (before after : State) (demand : Demand) (shardID : ℕ) (key : String) : Prop where
  free : ∀ replica ∈ before.replicaIterateByShardID shardID, uuidKey replica.hostID ≠ some key
  filled : ∀ (host : Host) (group : String) (count : ℤ), after.hosts.id[key]? = some host →
    demand.desired[group]? = some count → demand.selects group host → count ≤ before.foundIn demand shardID group

/-- A shard stays settled if its replicas stay, and every host stays alike or is not wanted. -/
theorem State.Settled.kept (settled : before.Settled demand shardID)
    (placed : (after.replicaIterateByShardID shardID).Perm (before.replicaIterateByShardID shardID))
    (hosts : ∀ key, before.ledger.AlikeAt after.ledger key ∨ before.Unwanted after demand shardID key) :
    after.Settled demand shardID := by
  have placedOn : (after.placedOn shardID).Perm (before.placedOn shardID) := placed.map _
  have tags (hostID : String) (member : hostID ∈ before.placedOn shardID) :
      (after.hostOrZero hostID).tags = (before.hostOrZero hostID).tags := by
    obtain ⟨replica, listed, rfl⟩ := List.mem_map.mp member
    refine hostOrZero_tags_of_alikeAt fun key parsed => ?_
    exact (hosts key).resolve_right fun unwanted => unwanted.free replica listed parsed
  have found (group : String) : after.foundIn demand shardID group = before.foundIn demand shardID group := by
    rw [foundIn_eq, foundIn_eq, placedOn.countP_eq]
    exact List.countP_congr fun hostID member => by rw [counts_congr (tags hostID member)]
  have wanted (hostID : String) (member : hostID ∈ before.placedOn shardID) :
      demand.wants (after.hostOrZero hostID) := by
    rw [wants_congr (tags hostID member)]
    exact undesired_eq_nil_iff.mp settled.desired hostID member
  refine ⟨undesired_eq_nil_iff.mpr fun hostID member => wanted hostID (placedOn.mem_iff.mp member), ?_⟩
  intro group count wants
  rw [found]
  by_cases enough : count ≤ before.foundIn demand shardID group
  · exact .inl enough
  refine .inr fun host registered selected => ?_
  have taken := (settled.filled group count wants).resolve_left enough
  obtain ⟨key, stored⟩ := mem_hostIterate.mp registered
  obtain alike | unwanted := hosts key
  · obtain ⟨old, known, ids, tags⟩ := alike.stored stored
    have selects : demand.selects group old := by
      rw [Demand.selects, tags]
      exact selected
    obtain ⟨member, -⟩ := occupies_iff.mp (taken old (mem_hostIterate.mpr ⟨key, known⟩) selects)
    rw [← ids]
    exact occupies_iff.mpr ⟨placedOn.mem_iff.mpr member, wanted _ member⟩
  · exact absurd (unwanted.filled host group count stored wants selected) enough

/-- Hosts are counted by their keys. -/
theorem countP_hostIterate_congr {counted : Host → Bool}
    (same : ∀ key : String, (after.hosts.id[key]?).any counted = (before.hosts.id[key]?).any counted) :
    after.hostIterate.countP counted = before.hostIterate.countP counted := by
  have size (state : State) : state.hostIterate.countP counted =
      (state.hosts.id.filter fun _ => counted).keys.length := by
    rw [State.hostIterate, List.countP_map, List.countP_eq_length_filter, ← ExtTreeMap.map_fst_toList_eq_keys,
      List.length_map, ExtTreeMap.toList_filter]
    rfl
  rw [size, size]
  have same_keys := List.perm_ext_iff_of_nodup (ExtTreeMap.nodup_keys (t := after.hosts.id.filter fun _ => counted))
    (ExtTreeMap.nodup_keys (t := before.hosts.id.filter fun _ => counted))
  refine (same_keys.mpr fun key => ?_).length_eq
  rw [ExtTreeMap.mem_keys, ExtTreeMap.mem_keys, ← ExtTreeMap.isSome_getElem?_iff_mem,
    ← ExtTreeMap.isSome_getElem?_iff_mem, ExtTreeMap.getElem?_filter', ExtTreeMap.getElem?_filter',
    Option.isSome_filter, Option.isSome_filter, same]

end Hosts

section Commands

variable {ledger next : Ledger} {entry : Entry} {before after : State} {id : ℕ} {shard : Shard}

/-- Only host commands change more of a host than its update time. -/
theorem Ledger.Step.alikeAt (step : ledger.Step entry next) (other : ∀ action host, entry.cmd ≠ .host action host)
    (key : String) : ledger.AlikeAt next key := by
  cases step with
  | idle => rfl
  | host write =>
    obtain ⟨action, host, is, -⟩ := write.cmd
    exact absurd is (other action host)
  | shardPost => rfl
  | shardLeader => rfl
  | shard => exact map_rewrite fun _ => rfl
  | replicaPost => exact map_rewrite fun _ => rfl
  | replica => exact map_rewrite fun _ => rfl

/-- A put that takes effect writes one host and stamps the shards with a replica on it. -/
theorem Ledger.Step.of_hostPut {host : Host} (step : ledger.Step entry next) (cmd : entry.cmd = .host .put host) :
    next = ledger ∨ ∃ key record, uuidKey host.id = some key ∧ record.id = host.id ∧
      (ledger.hosts key = none ∧ record.tags = host.tags ∨
        ∃ old changed, ledger.hosts key = some old ∧ Fsm.tagsSetNX host.tags old.tags = .ok (record.tags, changed)) ∧
      next.hosts = Function.update ledger.hosts key (some record) ∧
      next.shards = rewrite ledger.shards (ledger.shardsOn key) (·.touch entry.index) := by
  cases step with
  | idle => exact .inl rfl
  | @host key record write =>
    right
    generalize stored : ledger.hosts key = before at write
    cases write with
    | new is parsed =>
      cases cmd.symm.trans is
      let record : Host := { host with created := entry.index, updated := entry.index }
      exact ⟨key, record, parsed, rfl, .inl ⟨stored, rfl⟩, rfl, rfl⟩
    | @put _ old tags changed is parsed merged =>
      cases cmd.symm.trans is
      let record : Host := { host with created := old.created, tags, updated := entry.index }
      exact ⟨key, record, parsed, rfl, .inr ⟨old, changed, stored, merged⟩, rfl, rfl⟩
    | tags is _ tagFn =>
      cases cmd.symm.trans is
      cases tagFn
    | del is => cases cmd.symm.trans is
  | shardPost is => cases cmd.symm.trans is
  | shardLeader is => cases cmd.symm.trans is
  | shard write =>
    obtain ⟨action, shard, is, -⟩ := write.cmd
    cases cmd.symm.trans is
  | replicaPost is => cases cmd.symm.trans is
  | replica _ write =>
    obtain ⟨action, replica, is, -⟩ := write.cmd
    cases cmd.symm.trans is

/-- A shard without the stamp of an entry keeps its replicas. -/
theorem placed_of_unstamped (step : before.ledger.Step entry after.ledger) (vacant : before.ledger.Vacant entry)
    (put : ∀ replica, entry.cmd ≠ .replica .put replica) (found : after.shard id = some shard)
    (unstamped : shard.updated ≠ entry.index) :
    (after.replicaIterateByShardID id).Perm (before.replicaIterateByShardID id) := by
  rw [State.replicaIterateByShardID_eq, State.replicaIterateByShardID_eq]
  refine (List.perm_ext_iff_of_nodup ((nodup_replicaIterate _).filter _) ((nodup_replicaIterate _).filter _)).mpr
    fun replica => ?_
  rw [List.mem_filter, List.mem_filter, State.mem_replicaIterate, State.mem_replicaIterate]
  refine and_congr_left fun ofShard => ?_
  by_cases same : after.ledger.replicas replica.id = before.ledger.replicas replica.id
  · exact Eq.congr_left same
  · have unseen (version : before.ledger.replicas replica.id = some replica ∨
        after.ledger.replicas replica.id = some replica) : False := by
      have marked := (step.replica_announced vacant put version same).1
      rw [of_decide_eq_true ofShard] at marked
      exact unstamped (marked shard found)
    exact ⟨fun new => (unseen (.inr new)).elim, fun old => (unseen (.inl old)).elim⟩

/-- The tags that a put leaves on its host. -/
def State.putTags (state : State) (host : Host) : Tags :=
  match state.host host.id with
  | .ok (some old) => (Fsm.tagsSetNX host.tags old.tags).toOption.elim host.tags Prod.fst
  | _ => host.tags

variable {lookup : State → String → List Host}

/-- A put makes no difference to a shard: the cover tag counts the host as before, and every group that selects the
host has what it wants. -/
structure Unnoticed (lookup : State → String → List Host) (state : State) (host : Host) (shard : Shard) : Prop where
  covered : ∀ value, Fsm.lookup shard.tags "placement:cover" = some value → ∀ tag ∈ split ';' value,
    Demand.covers tag { host with tags := state.putTags host } = Demand.covers tag (state.hostOrZero host.id)
  filled : ∀ (group : String) (count : ℤ),
    (Demand.ofTags (lookup state) shard.tags).desired[group]? = some count →
    (Demand.ofTags (lookup state) shard.tags).selects group { host with tags := state.putTags host } →
    count ≤ state.foundIn (.ofTags (lookup state) shard.tags) shard.id group

/-- What is left out: host commands other than puts, a put that some shard without a replica on the host notices, tag
commands that name a tag of placement, and replica puts, which nothing proposes. -/
def Harmless (lookup : State → String → List Host) (state : State) : Cmd → Prop
  | .host action host => action = .put ∧ ∀ id shard, id ≠ ShardID → state.shard id = some shard →
      shard.tags.varies = false → shard.tags.coversOnce →
      (∀ replica ∈ state.replicaIterateByShardID id, uuidKey replica.hostID ≠ uuidKey host.id) →
      Unnoticed lookup state host shard
  | .shard action shard => action.tagFn.isSome → ∀ rest, Fsm.lookup shard.tags ("placement:" ++ rest) = none
  | .replica action _ => action ≠ .put
  | _ => True

/-- The shard is settled, if it is one that the default controller places without varying anything. -/
def State.SettledAt (lookup : State → String → List Host) (state : State) (id : ℕ) : Prop :=
  id ≠ ShardID → ∀ shard, state.shard id = some shard → shard.tags.varies = false → shard.tags.coversOnce →
    state.Settled (.ofTags (lookup state) shard.tags) id

/-- No host has come or gone for a demand: each stays alike or is not wanted, and the cover tag counts the same. -/
structure State.SameOffer (before after : State) (demand : Demand) (id : ℕ) (tags : Tags) : Prop where
  hosts : ∀ key, before.ledger.AlikeAt after.ledger key ∨ before.Unwanted after demand id key
  covered : ∀ value, Fsm.lookup tags "placement:cover" = some value → ∀ tag ∈ split ';' value, ∀ key : String,
    (after.hosts.id[key]?).any (Demand.covers tag) = (before.hosts.id[key]?).any (Demand.covers tag)

theorem covers_congr {host other : Host} (same : host.tags = other.tags) (tag : String) :
    Demand.covers tag host = Demand.covers tag other := by
  rw [Demand.covers, Demand.covers, same]

theorem any_covers_of_alikeAt {key : String} (alike : before.ledger.AlikeAt after.ledger key) (tag : String) :
    (after.hosts.id[key]?).any (Demand.covers tag) = (before.hosts.id[key]?).any (Demand.covers tag) := by
  have records : (after.hosts.id[key]?).map (fun host => (host.id, host.tags)) =
    (before.hosts.id[key]?).map fun host => (host.id, host.tags) := alike
  have read (stored : Option Host) : stored.any (Demand.covers tag) =
      (stored.map fun host => (host.id, host.tags)).any fun view => Demand.covers tag { tags := view.2 } := by
    cases stored <;> rfl
  rw [read, read, records]

theorem sameOffer_of_alikeAt {demand : Demand} {tags : Tags}
    (alike : ∀ key, before.ledger.AlikeAt after.ledger key) : before.SameOffer after demand id tags where
  hosts key := .inl (alike key)
  covered _ _ tag _ key := any_covers_of_alikeAt (alike key) tag

/-- A put leaves the tags of its host that it should. -/
theorem putTags_eq {host record : Host} {key : String} (parsed : uuidKey host.id = some key)
    (written : before.ledger.hosts key = none ∧ record.tags = host.tags ∨ ∃ old changed,
      before.ledger.hosts key = some old ∧ Fsm.tagsSetNX host.tags old.tags = .ok (record.tags, changed)) :
    before.putTags host = record.tags ∧ ∀ tag, Demand.covers tag (before.hostOrZero host.id) =
      (before.hosts.id[key]?).any (Demand.covers tag) := by
  obtain ⟨absent, same⟩ | ⟨old, changed, stored, merged⟩ := written
  · have absent : before.hosts.id[key]? = none := absent
    have unknown : before.host host.id = .ok none := State.host_eq_ok_iff.mpr ⟨key, parsed, absent⟩
    refine ⟨?_, fun tag => ?_⟩
    · rw [State.putTags, unknown, same]
    · rw [State.hostOrZero, unknown, absent]
      rfl
  · have stored : before.hosts.id[key]? = some old := stored
    have known : before.host host.id = .ok (some old) := State.host_eq_ok_iff.mpr ⟨key, parsed, stored⟩
    refine ⟨?_, fun tag => ?_⟩
    · rw [State.putTags, known]
      dsimp only
      rw [merged]
      rfl
    · rw [State.hostOrZero, known, stored]
      rfl

/-- A put that a shard does not notice, and does not stamp, leaves what hosts have to offer to it. -/
theorem sameOffer_of_put {host : Host} {stored : Shard} (step : before.ledger.Step entry after.ledger)
    (is : entry.cmd = .host .put host) (present : before.shard id = some stored)
    (found : after.shard id = some shard) (unstamped : shard.updated ≠ entry.index)
    (unnoticed : (∀ replica ∈ before.replicaIterateByShardID id, uuidKey replica.hostID ≠ uuidKey host.id) →
      Unnoticed lookup before host stored) :
    before.SameOffer after (.ofTags (lookup before) stored.tags) id stored.tags := by
  obtain same | ⟨key, record, parsed, -, written, hosts, shards⟩ := step.of_hostPut is
  · exact sameOffer_of_alikeAt fun key => by rw [same]; rfl
  obtain ⟨tags, counted⟩ := putTags_eq parsed written
  have free : ∀ replica ∈ before.replicaIterateByShardID id, uuidKey replica.hostID ≠ some key := by
    intro replica member onHost
    rw [State.replicaIterateByShardID_eq, List.mem_filter, State.mem_replicaIterate, decide_eq_true_eq] at member
    have listed : id ∈ before.ledger.shardsOn key := ⟨replica.id, replica, member.1, scans_of_parsed onHost _, member.2⟩
    have touched : after.ledger.shards id = some shard := found
    rw [shards] at touched
    exact unstamped (Ledger.updated_of_touchShards touched listed)
  have spared := unnoticed (by rwa [parsed])
  obtain rfl := State.shard_id present
  have alike (other : String) (elsewhere : other ≠ key) : before.ledger.AlikeAt after.ledger other := by
    rw [Ledger.AlikeAt, hosts, Function.update_of_ne elsewhere]
  have put : after.hosts.id[key]? = some record := by
    have here := congrFun hosts key
    rwa [Function.update_self] at here
  refine ⟨fun other => ?_, fun value held tag member other => ?_⟩
  · by_cases here : other = key
    · subst here
      refine .inr ⟨free, fun host' group count new wanted selected => spared.filled group count wanted ?_⟩
      cases put.symm.trans new
      rw [Demand.selects, tags]
      exact selected
    · exact .inl (alike other here)
  · by_cases here : other = key
    · subst here
      rw [put, ← counted, ← spared.covered value held tag member]
      exact covers_congr tags.symm tag
    · exact any_covers_of_alikeAt (alike other here) tag

/-- The demand of a shard changes only with its own placement tags and with the hosts that its cover tag counts. -/
theorem ofTags_of_sameOffer {demand : Demand} {tags other : Tags}
    (indexed : ∀ state key, (lookup state key).Perm (Demand.tagged state.hostIterate key))
    (same : other.SamePlacement tags) (offer : before.SameOffer after demand id tags) :
    Demand.ofTags (lookup after) other = Demand.ofTags (lookup before) tags := by
  rw [Demand.ofTags_of_samePlacement same]
  refine Demand.ofTags_congr_cover fun value held tag member => ?_
  rw [(indexed after _).countP_eq, (indexed before _).countP_eq, Demand.countP_tagged, Demand.countP_tagged]
  refine countP_hostIterate_congr fun key => ?_
  have covered := offer.covered value held tag member key
  cases decide (tag ≠ "") with
  | false => simp
  | true => simpa using covered

/-- A harmless command stamps a shard or leaves it settled. -/
theorem settledAt_of_unstamped (indexed : ∀ state key, (lookup state key).Perm (Demand.tagged state.hostIterate key))
    (orderly : before.Orderly) (advances : Fsm.Advances before entry after)
    (harmless : Harmless lookup before entry.cmd) (found : after.shard id = some shard)
    (unstamped : shard.updated ≠ entry.index) :
    (∃ stored, before.shard id = some stored ∧ stored.updated = shard.updated) ∧
      (before.SettledAt lookup id → after.SettledAt lookup id) := by
  have vacant := advances.vacant orderly
  obtain ⟨result, updated⟩ := advances.applies
  have step := Fsm.update_ledger updated
  have put (replica : Replica) : entry.cmd ≠ .replica .put replica := by
    intro is
    rw [is] at harmless
    exact harmless rfl
  obtain ⟨stored, present, times, placement⟩ : ∃ stored, before.shard id = some stored ∧
      stored.updated = shard.updated ∧ shard.tags.SamePlacement stored.tags := by
    obtain stamped | same | ⟨stored, tags, present, ⟨action, cmd, fn, is, -, tagFn, done⟩, rfl⟩ :=
      step.shard_delta found
    · exact absurd stamped unstamped
    · exact ⟨shard, same, rfl, fun _ => rfl⟩
    · rw [is] at harmless
      exact ⟨stored, present, rfl, samePlacement_of_tagFn tagFn done (harmless (by rw [tagFn]; rfl))⟩
  refine ⟨⟨stored, present, times⟩, fun settled secondary other located unvaried once => ?_⟩
  cases found.symm.trans located
  rw [placement.varies] at unvaried
  rw [placement.coversOnce] at once
  have offer : before.SameOffer after (.ofTags (lookup before) stored.tags) id stored.tags := by
    by_cases host : ∃ action host, entry.cmd = .host action host
    · obtain ⟨action, host, is⟩ := host
      rw [is] at harmless
      obtain ⟨rfl, unnoticed⟩ := harmless
      exact sameOffer_of_put step is present found unstamped (unnoticed id stored secondary present unvaried once)
    · exact sameOffer_of_alikeAt (step.alikeAt fun action record is => host ⟨action, record, is⟩)
  rw [ofTags_of_sameOffer indexed placement offer]
  exact (settled secondary stored present unvaried once).kept
    (placed_of_unstamped step vacant put found unstamped) offer.hosts

end Commands

end Zongzi
