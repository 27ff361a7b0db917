import Zongzi.Spec.Ledger
import Zongzi.Proofs.Commands

/-! # The state machine refines the ledger

The ledger of a registry state forgets the indexes and the meta values other than the counters. Each
loop of the state machine becomes one change of a table: touching the shards or hosts of listed
replicas one by one rewrites them together, and deleting listed replicas drops them together.
-/

namespace Zongzi

open Std ExceptFold PartialTable

/-- The abstract registry of records. -/
def State.ledger (state : State) : Ledger where
  hosts key := state.hosts.id[key]?
  shards id := state.shard id
  replicas id := state.replica id
  shardID := state.shardID
  replicaID := state.replicaID

namespace State

variable {state next : State}

section Primitives

theorem ledger_shardPut (state : State) (shard : Shard) :
    (state.shardPut shard).ledger =
      { state.ledger with shards := Function.update state.ledger.shards shard.id (some shard) } := by
  have shards : (state.shardPut shard).shard =
      Function.update state.ledger.shards shard.id (some shard) := by
    funext id
    by_cases same : shard.id = id
    · subst same; simp
    · simp [same, Function.update_of_ne (Ne.symm same), ledger]
  rw [← shards]
  rfl

theorem ledger_shardTouch (state : State) (id index : ℕ) :
    (state.shardTouch id index).ledger =
      { state.ledger with shards := rewrite state.ledger.shards {id} (·.touch index) } := by
  rw [rewrite_singleton]
  unfold shardTouch
  split
  · next shard found =>
    have present : state.ledger.shards id = some shard := found
    rw [present, ledger_shardPut, ← shard_id found]
    rfl
  · next found =>
    have absent : state.ledger.shards id = none := found
    have same : Function.update state.ledger.shards id none = state.ledger.shards := by
      rw [← absent, Function.update_eq_self]
    rw [absent, Option.map_none, same]

theorem ledger_shardDelete (state : State) (shard : Shard) :
    (state.shardDelete shard).ledger =
      { state.ledger with shards := Function.update state.ledger.shards shard.id none } := by
  have shards : (state.shardDelete shard).shard =
      Function.update state.ledger.shards shard.id none := by
    funext id
    by_cases same : shard.id = id
    · subst same; simp
    · simp [same, Function.update_of_ne (Ne.symm same), ledger]
  rw [← shards]
  rfl

theorem ledger_hostPut {host : Host} (stored : state.hostPut host = .ok next) :
    ∃ key, uuidKey host.id = some key ∧ next.ledger =
      { state.ledger with hosts := Function.update state.ledger.hosts key (some host) } := by
  obtain ⟨key, valid, rfl⟩ := hostPut_eq_ok_iff.mp stored
  refine ⟨key, valid, ?_⟩
  have hosts : (fun other => (state.hosts.insert host key valid).id[other]?) =
      Function.update state.ledger.hosts key (some host) := by
    funext other
    by_cases same : key = other
    · subst same; simp [HostTable.insert]
    · simp [HostTable.insert, ExtTreeMap.getElem?_insert, same,
        Function.update_of_ne (Ne.symm same), ledger]
  simp only [ledger, hosts]
  rfl

theorem ledger_hostTouch {id : String} {index : ℕ} (touched : state.hostTouch id index = .ok next) :
    state.ledger.Hosts id ∧ next.ledger =
      { state.ledger with
        hosts := rewrite state.ledger.hosts { key | uuidKey id = some key } (·.touch index) } := by
  obtain ⟨key, host, parsed, found, stored⟩ := hostTouch_eq_ok_iff.mp touched
  obtain ⟨other, valid, written⟩ := ledger_hostPut stored
  cases (state.hosts.keyed key host found).symm.trans valid
  have present : state.ledger.hosts key = some host := found
  have touches : { key | uuidKey id = some key } = {key} := by simp [parsed]
  refine ⟨⟨key, parsed, by rw [present]; rfl⟩, ?_⟩
  rw [written, touches, rewrite_singleton, present]
  rfl

theorem ledger_hostDelete {host : Host} (deleted : state.hostDelete host = .ok next) :
    ∃ key, uuidKey host.id = some key ∧ next.ledger =
      { state.ledger with hosts := Function.update state.ledger.hosts key none } := by
  obtain ⟨key, valid, rfl⟩ := hostDelete_eq_ok_iff.mp deleted
  refine ⟨key, valid, ?_⟩
  have hosts : (fun other => (state.hosts.delete key).id[other]?) =
      Function.update state.ledger.hosts key none := by
    funext other
    by_cases same : key = other
    · subst same; simp [HostTable.delete]
    · simp [HostTable.delete, ExtTreeMap.getElem?_erase, same,
        Function.update_of_ne (Ne.symm same), ledger]
  simp only [ledger, hosts]
  rfl

theorem ledger_replicaPut {replica : Replica} (stored : state.replicaPut replica = .ok next) :
    next.ledger = { state.ledger with
      replicas := Function.update state.ledger.replicas replica.id (some replica) } := by
  obtain ⟨valid, rfl⟩ := replicaPut_eq_ok_iff.mp stored
  have replicas : (fun id => (state.replicas.insert replica valid).id[id]?) =
      Function.update state.ledger.replicas replica.id (some replica) := by
    funext id
    by_cases same : replica.id = id
    · subst same; simp [ReplicaTable.insert]
    · simp [ReplicaTable.insert, ExtTreeMap.getElem?_insert, same,
        Function.update_of_ne (Ne.symm same), ledger, State.replica]
  simp only [ledger, State.replica, replicas]
  rfl

theorem ledger_replicaDelete (state : State) (replica : Replica) :
    (state.replicaDelete replica).ledger =
      { state.ledger with
        replicas := Function.update state.ledger.replicas replica.id none } := by
  have replicas : (state.replicaDelete replica).replica =
      Function.update state.ledger.replicas replica.id none := by
    funext id
    by_cases same : replica.id = id
    · subst same; simp
    · simp [same, Function.update_of_ne (Ne.symm same), ledger]
  rw [← replicas]
  rfl

end Primitives

section Loops

private theorem insert_listed {κ : Type} (first : Set κ) {β : Type} (names : β → κ → Prop) (head : β)
    (rest : List β) (same : first = { key | names head key }) :
    first ∪ { key | ∃ item ∈ rest, names item key } =
      { key | ∃ item ∈ head :: rest, names item key } := by
  ext key
  simp [same]

theorem ledger_touchShards (state : State) (replicas : List Replica) (index : ℕ) :
    (Fsm.touchShards state replicas index).ledger =
      { state.ledger with
        shards := rewrite state.ledger.shards { id | ∃ replica ∈ replicas, replica.shardID = id }
          (·.touch index) } := by
  unfold Fsm.touchShards
  induction replicas generalizing state with
  | nil => simp [rewrite_empty]
  | cons replica rest ih =>
    rw [List.foldl_cons, ih, ledger_shardTouch]
    dsimp only
    rw [rewrite_rewrite (Shard.touch · index) (fun _ => rfl),
      insert_listed _ (fun replica id => replica.shardID = id) replica rest (by simp [eq_comm])]

theorem ledger_touchHosts {replicas : List Replica} {index : ℕ}
    (touched : Fsm.touchHosts state replicas index = .ok next) :
    next.ledger = { state.ledger with
      hosts := rewrite state.ledger.hosts
        { key | ∃ replica ∈ replicas, uuidKey replica.hostID = some key } (·.touch index) } := by
  unfold Fsm.touchHosts at touched
  induction replicas generalizing state with
  | nil =>
    cases touched
    simp [rewrite_empty]
  | cons replica rest ih =>
    rw [List.foldlM_cons, bind_eq_ok_iff] at touched
    obtain ⟨middle, stepped, touched⟩ := touched
    rw [ih touched, (ledger_hostTouch stepped).2]
    dsimp only
    rw [rewrite_rewrite (Host.touch · index) (fun _ => rfl),
      insert_listed _ (fun replica key => uuidKey replica.hostID = some key) replica rest rfl]

theorem ledger_touchOwners {replica : Replica} {index : ℕ}
    (touched : Fsm.touchOwners state replica index = .ok next) :
    state.ledger.Hosts replica.hostID ∧ next.ledger = state.ledger.touchOwners replica index := by
  obtain ⟨middle, stepped, rest⟩ := bind_eq_ok_iff.mp touched
  obtain rfl := pure_eq_ok_iff.mp rest
  obtain ⟨hosted, same⟩ := ledger_hostTouch stepped
  refine ⟨hosted, ?_⟩
  rw [ledger_shardTouch, same]
  rfl

/-- Deleting listed replicas one by one drops them together. -/
private theorem dropListed_step (replicas : ℕ → Option Replica) (head : ℕ) (rest : List ℕ) :
    (fun id => if id ∈ rest then none else Function.update replicas head none id) =
      fun id => if id ∈ head :: rest then none else replicas id := by
  funext id
  by_cases inRest : id ∈ rest
  · simp [inRest]
  · by_cases same : id = head
    · simp [same]
    · simp [inRest, same]

/-- The loop of a host delete. -/
theorem ledger_dropOnHost (state : State) (replicas : List Replica) (index : ℕ) :
    (replicas.foldl (fun state replica =>
      (state.replicaDelete replica).shardTouch replica.shardID index) state).ledger =
      { state.ledger with
        shards := rewrite state.ledger.shards { id | ∃ replica ∈ replicas, replica.shardID = id }
          (·.touch index)
        replicas := fun id =>
          if id ∈ replicas.map Replica.id then none else state.ledger.replicas id } := by
  induction replicas generalizing state with
  | nil => simp [rewrite_empty]
  | cons replica rest ih =>
    rw [List.foldl_cons, ih, ledger_shardTouch, ledger_replicaDelete]
    dsimp only
    rw [rewrite_rewrite (Shard.touch · index) (fun _ => rfl), dropListed_step,
      insert_listed _ (fun replica id => replica.shardID = id) replica rest (by simp [eq_comm])]
    rfl

/-- The loop of a shard delete. -/
theorem ledger_dropOfShard {replicas : List Replica} {index : ℕ}
    (dropped : replicas.foldlM (fun state replica =>
      (state.replicaDelete replica).hostTouch replica.hostID index) state = .ok next) :
    next.ledger =
      { state.ledger with
        hosts := rewrite state.ledger.hosts
          { key | ∃ replica ∈ replicas, uuidKey replica.hostID = some key } (·.touch index)
        replicas := fun id =>
          if id ∈ replicas.map Replica.id then none else state.ledger.replicas id } := by
  induction replicas generalizing state with
  | nil =>
    cases dropped
    simp [rewrite_empty]
  | cons replica rest ih =>
    rw [List.foldlM_cons, bind_eq_ok_iff] at dropped
    obtain ⟨middle, touched, dropped⟩ := dropped
    rw [ih dropped, (ledger_hostTouch touched).2, ledger_replicaDelete]
    dsimp only
    rw [rewrite_rewrite (Host.touch · index) (fun _ => rfl), dropListed_step,
      insert_listed _ (fun replica key => uuidKey replica.hostID = some key) replica rest rfl]
    rfl

/-- Dropping the replicas an iterator lists drops those that satisfy its predicate. -/
theorem dropListed_eq (state : State) {replicas : List Replica} {dropped : Replica → Prop}
    (lists : ∀ replica, replica ∈ replicas ↔ state.replica replica.id = some replica ∧ dropped replica) :
    (fun id => if id ∈ replicas.map Replica.id then none else state.ledger.replicas id) =
      dropWhere state.ledger.replicas dropped := by
  funext id
  apply Option.ext
  intro replica
  rw [dropWhere_eq_some_iff]
  constructor
  · intro kept
    split at kept
    · contradiction
    · next unlisted =>
      refine ⟨kept, fun drop => unlisted (List.mem_map.mpr ⟨replica, ?_, replica_id kept⟩)⟩
      exact (lists replica).mpr ⟨(replica_id kept).symm ▸ kept, drop⟩
  · rintro ⟨found, keep⟩
    rw [if_neg]
    · exact found
    · intro listed
      obtain ⟨other, member, same⟩ := List.mem_map.mp listed
      obtain ⟨stored, drop⟩ := (lists other).mp member
      rw [same] at stored
      cases Option.some.inj (stored.symm.trans found)
      exact keep drop

/-- What is said of a listed replica is said of one in the table. -/
theorem exists_listed {replicas : List Replica} {listed chosen : Replica → Prop}
    (lists : ∀ replica, replica ∈ replicas ↔ state.replica replica.id = some replica ∧ listed replica) :
    (∃ replica ∈ replicas, chosen replica) ↔
      ∃ id replica, state.ledger.replicas id = some replica ∧ listed replica ∧ chosen replica := by
  constructor
  · rintro ⟨replica, member, holds⟩
    obtain ⟨stored, isListed⟩ := (lists replica).mp member
    exact ⟨replica.id, replica, stored, isListed, holds⟩
  · rintro ⟨id, replica, found, isListed, holds⟩
    exact ⟨replica, (lists replica).mpr ⟨(replica_id found).symm ▸ found, isListed⟩, holds⟩

theorem shards_scanHost (state : State) (key : String) :
    { id | ∃ replica ∈ state.scanHost key, replica.shardID = id } = state.ledger.shardsOn key :=
  Set.ext fun _ => exists_listed fun _ => mem_scanHost

theorem hosts_ofShard (state : State) (shardID : ℕ) :
    { key | ∃ replica ∈ state.replicaIterateByShardID shardID, uuidKey replica.hostID = some key } =
      state.ledger.hostsOf shardID :=
  Set.ext fun _ => exists_listed fun _ => mem_replicaIterateByShardID

end Loops

section Members

private theorem getElem?_foldl_members {replicas : List Replica} {id : ℕ} {host : String}
    (same : ∀ replica ∈ replicas, replica.id = id → replica.isNonVoting = false → replica.hostID = host)
    (members : ExtTreeMap ℕ String) :
    (replicas.foldl (fun members replica =>
      if replica.isNonVoting then members else members.insert replica.id replica.hostID) members)[id]? =
      if ∃ replica ∈ replicas, replica.id = id ∧ replica.isNonVoting = false then some host
      else members[id]? := by
  induction replicas generalizing members with
  | nil => simp
  | cons replica rest ih =>
    rw [List.foldl_cons, ih fun other member => same other (List.mem_cons_of_mem _ member)]
    by_cases later : ∃ replica ∈ rest, replica.id = id ∧ replica.isNonVoting = false
    · obtain ⟨other, member, votes⟩ := later
      rw [if_pos ⟨other, member, votes⟩, if_pos ⟨other, List.mem_cons_of_mem _ member, votes⟩]
    · rw [if_neg later]
      cases voting : replica.isNonVoting with
      | true => simp [later, voting]
      | false =>
        by_cases here : replica.id = id
        · have named := same replica List.mem_cons_self here voting
          simp [here, voting, named]
        · simp [here, later, ExtTreeMap.getElem?_insert]

/-- The members of a shard are its voting replicas. -/
theorem getElem?_shardMembers_eq_some_iff {shardID id : ℕ} {host : String} :
    (state.shardMembers shardID)[id]? = some host ↔
      ∃ replica, state.replica id = some replica ∧ replica.shardID = shardID ∧
        replica.isNonVoting = false ∧ replica.hostID = host := by
  have listed {replica : Replica} : replica ∈ state.replicaIterateByShardID shardID ↔
      state.replica replica.id = some replica ∧ replica.shardID = shardID := by
    rw [replicaIterateByShardID_eq, List.mem_filter, mem_replicaIterate, decide_eq_true_eq]
  have same : ∀ replica ∈ state.replicaIterateByShardID shardID, replica.id = id →
      replica.isNonVoting = false →
      replica.hostID = ((state.replica id).map Replica.hostID).getD "" := by
    rintro replica member rfl -
    simp [(listed.mp member).1]
  rw [shardMembers, getElem?_foldl_members same]
  constructor
  · intro found
    split at found
    · next votes =>
      obtain ⟨replica, member, rfl, voting⟩ := votes
      obtain ⟨stored, ofShard⟩ := listed.mp member
      rw [stored] at found
      exact ⟨replica, stored, ofShard, voting, Option.some.inj found⟩
    · simp at found
  · rintro ⟨replica, stored, ofShard, voting, rfl⟩
    have atId := replica_id stored
    subst atId
    rw [if_pos ⟨replica, listed.mpr ⟨stored, ofShard⟩, rfl, voting⟩, stored]
    rfl

theorem mem_shardMembers_iff {shardID id : ℕ} :
    id ∈ state.shardMembers shardID ↔ state.ledger.Votes shardID id := by
  rw [← ExtTreeMap.isSome_getElem?_iff_mem, Option.isSome_iff_exists]
  simp only [getElem?_shardMembers_eq_some_iff]
  constructor
  · rintro ⟨_, replica, stored, ofShard, voting, rfl⟩
    exact ⟨replica, stored, ofShard, voting⟩
  · rintro ⟨replica, stored, ofShard, voting⟩
    exact ⟨_, replica, stored, ofShard, voting, rfl⟩

theorem threeVote_iff {shardID : ℕ} :
    state.ledger.ThreeVote shardID ↔ 3 ≤ (state.shardMembers shardID).size := by
  have card : (state.shardMembers shardID).keys.toFinset.card =
      (state.shardMembers shardID).size := by
    rw [List.toFinset_card_of_nodup ExtTreeMap.nodup_keys, ExtTreeMap.length_keys]
  rw [← card, Finset.le_card_iff_exists_subset_card]
  simp only [Ledger.ThreeVote, ← mem_shardMembers_iff, Finset.subset_iff, List.mem_toFinset,
    ExtTreeMap.mem_keys, and_comm]

end Members

end State

namespace Fsm

open State

variable {state next : State} {entry : Entry} {result : Result}

section Host

theorem hostCmdPut_ledger {host : Host} (cmd : entry.cmd = .host .put host)
    (applied : hostCmdPut state entry host = .ok (next, result)) :
    state.ledger.Step entry next.ledger := by
  obtain ⟨key, written, source, parsed, id, -, sources, stored, -⟩ := hostCmdPut_cases applied
  have same : source.ledger = state.ledger := by
    obtain ⟨_, _, _, _, _, rfl, _⟩ | ⟨_, rfl, _⟩ := sources
    · rfl
    · rfl
  have write : HostWrite entry key (state.ledger.hosts key) (some written) := by
    obtain ⟨old, tags, changed, found, merged, -, rfl⟩ | ⟨absent, -, rfl⟩ := sources
    · have present : state.ledger.hosts key = some old := found
      rw [present]
      exact .put cmd parsed merged
    · have missing : state.ledger.hosts key = none := absent
      rw [missing]
      exact .new cmd parsed
  obtain ⟨other, valid, ledger⟩ := ledger_hostPut stored
  rw [id, parsed] at valid
  cases valid
  have step := Ledger.Step.host write
  rw [dropWhere_of_not (fun _ gone => by cases gone.1)] at step
  rw [ledger, ledger_touchShards, shards_scanHost, same]
  exact step

theorem hostCmdDel_ledger {host : Host} (cmd : entry.cmd = .host .del host)
    (applied : hostCmdDel state entry host = .ok (next, result)) :
    state.ledger.Step entry next.ledger := by
  obtain ⟨key, parsed, ⟨absent, rfl, -⟩ | ⟨stored, found, deleted, -⟩⟩ := hostCmdDel_cases applied
  · refine .idle (by simp [cmd]) ?_
    rintro other ⟨action, named, is, valid, rfl | ⟨stored, present, -⟩⟩
    · cases cmd.symm.trans is
    · cases cmd.symm.trans is
      cases parsed.symm.trans valid
      cases absent.symm.trans present
  · have write : HostWrite entry key (state.ledger.hosts key) none := by
      have present : state.ledger.hosts key = some stored := found
      rw [present]
      exact .del cmd parsed
    obtain ⟨other, valid, ledger⟩ := ledger_hostDelete deleted
    cases (state.hosts.keyed key stored found).symm.trans valid
    have dropped := @dropListed_eq state (state.scanHost key) _ fun _ => mem_scanHost
    have step := Ledger.Step.host write
    simp only [true_and] at step
    rw [ledger, ledger_dropOnHost, shards_scanHost, dropped]
    exact step

theorem hostTagAction_ledger {fn : TagFn} {host : Host} {action : Action}
    (cmd : entry.cmd = .host action host) (tagFn : action.tagFn = some fn)
    (applied : hostTagAction fn state entry host = .ok (next, result)) :
    state.ledger.Step entry next.ledger := by
  obtain ⟨rfl, -, unwritten⟩ | ⟨key, stored, tags, parsed, found, changed, put, -⟩ := hostTagAction_cases applied
  · refine .idle (by simp [cmd]) ?_
    rintro key ⟨_, named, is, parsed, rfl | ⟨stored, present, rfl | ⟨other, tags, isFn, changed⟩⟩⟩
    · cases cmd.symm.trans is
      cases tagFn
    · cases cmd.symm.trans is
      cases tagFn
    · cases cmd.symm.trans is
      cases tagFn.symm.trans isFn
      obtain ⟨_, same⟩ := unwritten key stored parsed present
      cases same.symm.trans changed
  · have write : HostWrite entry key (state.ledger.hosts key) (some { stored with tags }) := by
      have present : state.ledger.hosts key = some stored := found
      rw [present]
      exact .tags cmd parsed tagFn changed
    obtain ⟨other, valid, ledger⟩ := ledger_hostPut put
    cases (state.hosts.keyed key stored found).symm.trans valid
    have step := Ledger.Step.host write
    rw [dropWhere_of_not (fun _ gone => by cases gone.1)] at step
    rw [ledger, ledger_touchShards, shards_scanHost]
    exact step

theorem hostUpdate_ledger {action : Action} {host : Host} (cmd : entry.cmd = .host action host)
    (applied : hostUpdate state entry action host = .ok (next, result)) :
    state.ledger.Step entry next.ledger := by
  unfold hostUpdate at applied
  split at applied
  · exact hostCmdPut_ledger cmd applied
  · exact hostCmdDel_ledger cmd applied
  · exact hostTagAction_ledger cmd rfl applied
  · exact hostTagAction_ledger cmd rfl applied
  · exact hostTagAction_ledger cmd rfl applied
  · next put del set setNX remove =>
    obtain ⟨rfl, -⟩ := reject_eq_ok_iff.mp applied
    refine .idle (by simp [cmd]) ?_
    rintro key ⟨_, named, is, -, rfl | ⟨stored, -, rfl | ⟨fn, tags, tagFn, -⟩⟩⟩
    all_goals cases cmd.symm.trans is
    · exact put rfl
    · exact del rfl
    · unfold Action.tagFn at tagFn
      split at tagFn
      · exact set rfl
      · exact setNX rfl
      · exact remove rfl
      · cases tagFn

end Host

section Shard

/-- A shard command that writes a record and announces it. -/
private theorem shard_announced {middle : State} {id : ℕ} {record : Option Shard}
    (write : ShardWrite entry state.ledger.shardID id (state.ledger.shards id) record)
    (kept : ∀ shard, entry.cmd ≠ .shard .del shard)
    (written : middle.ledger =
      { state.ledger with shards := Function.update state.ledger.shards id record })
    (touched : touchHosts middle (middle.replicaIterateByShardID id) entry.index = .ok next) :
    state.ledger.Step entry next.ledger := by
  have hosts : middle.ledger.hostsOf id = state.ledger.hostsOf id := by rw [written]; rfl
  have step := Ledger.Step.shard write
  rw [dropWhere_of_not (fun _ ⟨⟨shard, del⟩, _⟩ => kept shard del)] at step
  rw [ledger_touchHosts touched, hosts_ofShard, hosts, written]
  exact step

theorem shardCmdPost_ledger {shard : Shard} (cmd : entry.cmd = .shard .post shard)
    (applied : shardCmdPost state entry shard = .ok (next, result)) :
    state.ledger.Step entry next.ledger := by
  obtain ⟨-, -, rfl, -⟩ | ⟨-, rfl, -⟩ := shardCmdPost_cases applied
  · exact .idle (by simp [cmd]) (by simp [Ledger.WritesHost, cmd])
  · rw [ledger_shardPut]
    exact .shardPost cmd rfl

theorem shardCmdTouch_ledger {shard : Shard} (cmd : entry.cmd = .shard .touch shard)
    (applied : shardCmdTouch state entry shard = .ok (next, result)) :
    state.ledger.Step entry next.ledger := by
  have written := ledger_shardTouch state shard.id entry.index
  rw [rewrite_singleton] at written
  exact shard_announced (.touch cmd rfl) (by simp [cmd]) written (shardCmdTouch_cases applied).1

theorem shardCmdPut_ledger {shard : Shard} (cmd : entry.cmd = .shard .put shard)
    (applied : shardCmdPut state entry shard = .ok (next, result)) :
    state.ledger.Step entry next.ledger := by
  obtain ⟨-, -, rfl, -⟩ | ⟨written, id, -, -, origin, touched, -⟩ := shardCmdPut_cases applied
  · exact .idle (by simp [cmd]) (by simp [Ledger.WritesHost, cmd])
  · have write : ShardWrite entry state.ledger.shardID shard.id (state.ledger.shards shard.id)
        (some written) := by
      obtain ⟨old, tags, changed, found, merged, rfl⟩ | ⟨absent, prime, first, rfl⟩ := origin
      · have present : state.ledger.shards shard.id = some old := found
        rw [present]
        exact .put cmd rfl merged
      · have missing : state.ledger.shards shard.id = none := absent
        rw [missing]
        exact .prime cmd rfl prime first
    exact shard_announced write (by simp [cmd]) (id ▸ ledger_shardPut state written) touched

theorem shardCmdStatusUpdate_ledger {shard : Shard} (cmd : entry.cmd = .shard .statusUpdate shard)
    (applied : shardCmdStatusUpdate state entry shard = .ok (next, result)) :
    state.ledger.Step entry next.ledger := by
  obtain ⟨-, rfl, -⟩ | ⟨stored, found, touched, -⟩ := shardCmdStatusUpdate_cases applied
  · exact .idle (by simp [cmd]) (by simp [Ledger.WritesHost, cmd])
  · have atId := shard_id found
    have write : ShardWrite entry state.ledger.shardID stored.id (state.ledger.shards stored.id)
        (some { stored with status := shard.status, updated := entry.index }) := by
      have present : state.ledger.shards stored.id = some stored := by rw [atId]; exact found
      rw [present]
      exact .status cmd atId.symm
    exact shard_announced write (by simp [cmd]) (ledger_shardPut ..) touched

theorem shardCmdLeaderSet_ledger {shard : Shard} (cmd : entry.cmd = .shard .leaderSet shard)
    (applied : shardCmdLeaderSet state entry shard = .ok (next, result)) :
    state.ledger.Step entry next.ledger := by
  obtain ⟨-, rfl, -⟩ | ⟨stored, found, rfl, -⟩ := shardCmdLeaderSet_cases applied
  · exact .idle (by simp [cmd]) (by simp [Ledger.WritesHost, cmd])
  · have step := Ledger.Step.shardLeader cmd (show state.ledger.shards shard.id = some stored from found)
    rw [← shard_id found] at step
    rw [ledger_shardPut]
    exact step

theorem shardCmdDel_ledger {shard : Shard} (cmd : entry.cmd = .shard .del shard)
    (applied : shardCmdDel state entry shard = .ok (next, result)) :
    state.ledger.Step entry next.ledger := by
  obtain ⟨-, rfl, -⟩ | ⟨stored, middle, found, dropped, rfl, -⟩ := shardCmdDel_cases applied
  · exact .idle (by simp [cmd]) (by simp [Ledger.WritesHost, cmd])
  · have atId := shard_id found
    have write : ShardWrite entry state.ledger.shardID stored.id (state.ledger.shards stored.id)
        none := by
      have present : state.ledger.shards stored.id = some stored := by rw [atId]; exact found
      rw [present]
      exact .del cmd atId.symm
    have listed := @dropListed_eq state (state.replicaIterateByShardID stored.id) _ fun _ =>
      mem_replicaIterateByShardID
    have step := Ledger.Step.shard write
    have deletes : ∃ shard, entry.cmd = .shard .del shard := ⟨shard, cmd⟩
    simp only [deletes, true_and] at step
    rw [ledger_shardDelete, ledger_dropOfShard dropped, hosts_ofShard, listed]
    exact step

theorem shardTagAction_ledger {fn : TagFn} {shard : Shard} {action : Action}
    (cmd : entry.cmd = .shard action shard) (tagFn : action.tagFn = some fn)
    (applied : shardTagAction fn state entry shard = .ok (next, result)) :
    state.ledger.Step entry next.ledger := by
  obtain ⟨rfl, -⟩ | ⟨stored, tags, middle, found, changed, touched, rfl, -⟩ :=
    shardTagAction_cases applied
  · exact .idle (by simp [cmd]) (by simp [Ledger.WritesHost, cmd])
  · have atId := shard_id found
    have write : ShardWrite entry state.ledger.shardID stored.id (state.ledger.shards stored.id)
        (some { stored with tags }) := by
      have present : state.ledger.shards stored.id = some stored := by rw [atId]; exact found
      rw [present]
      exact .tags cmd atId.symm tagFn changed
    have stays : ¬ ∃ shard, entry.cmd = .shard .del shard := by
      rintro ⟨other, del⟩
      cases cmd.symm.trans del
      cases tagFn
    have step := Ledger.Step.shard write
    rw [dropWhere_of_not (fun _ dropped => stays dropped.1), ← hosts_ofShard, atId] at step
    rw [ledger_shardPut, ledger_touchHosts touched]
    rw [← atId] at step ⊢
    exact step

theorem shardUpdate_ledger {action : Action} {shard : Shard} (cmd : entry.cmd = .shard action shard)
    (applied : shardUpdate state entry action shard = .ok (next, result)) :
    state.ledger.Step entry next.ledger := by
  unfold shardUpdate at applied
  split at applied
  · exact shardCmdPost_ledger cmd applied
  · exact shardCmdTouch_ledger cmd applied
  · exact shardCmdPut_ledger cmd applied
  · exact shardCmdStatusUpdate_ledger cmd applied
  · exact shardCmdLeaderSet_ledger cmd applied
  · exact shardCmdDel_ledger cmd applied
  · exact shardTagAction_ledger cmd rfl applied
  · exact shardTagAction_ledger cmd rfl applied
  · exact shardTagAction_ledger cmd rfl applied
  · obtain ⟨rfl, -⟩ := reject_eq_ok_iff.mp applied
    exact .idle (by simp [cmd]) (by simp [Ledger.WritesHost, cmd])

end Shard

section Replica

theorem replicaCmdPost_ledger {replica : Replica} (cmd : entry.cmd = .replica .post replica)
    (applied : replicaCmdPost state entry replica = .ok (next, result)) :
    state.ledger.Step entry next.ledger := by
  obtain ⟨written, middle, id, fields, bootstraps, either, stored, touched, -⟩ :=
    replicaCmdPost_cases applied
  have source : state.replicaIncr.2.ledger =
      { state.ledger with replicaID := state.replicaIncr.1 } := rfl
  have joins : written.status = .bootstrapping ∧ replica.isNonVoting = false ∧
        ¬ state.ledger.ThreeVote replica.shardID ∨
      written.status = .joining ∧
        (replica.isNonVoting ∨ state.ledger.ThreeVote replica.shardID) := by
    rw [threeVote_iff, Nat.not_le]
    obtain boots | joins := either
    · exact .inl ⟨boots, bootstraps.mp boots⟩
    · refine .inr ⟨joins, ?_⟩
      by_contra few
      rw [not_or, Nat.not_le, Bool.not_eq_true] at few
      cases joins.symm.trans (bootstraps.mpr few)
  obtain ⟨hosted, same⟩ := ledger_touchOwners touched
  rw [ledger_replicaPut stored, source] at hosted
  rw [same, ledger_replicaPut stored, source, id, fields]
  exact .replicaPost cmd rfl joins hosted

/-- A replica command that rewrites a record in place and announces it. -/
private theorem replica_announced {middle : State} {id : ℕ} {stored written owner : Replica}
    (found : state.replica id = some stored)
    (write : ReplicaWrite entry id stored (some written) owner) (atId : written.id = id)
    (put : state.replicaPut written = .ok middle)
    (touched : touchOwners middle owner entry.index = .ok next) :
    state.ledger.Step entry next.ledger := by
  obtain ⟨hosted, same⟩ := ledger_touchOwners touched
  rw [ledger_replicaPut put, atId] at hosted same
  rw [same]
  exact .replica found write hosted

theorem replicaCmdStatusUpdate_ledger {cmd : Replica} (is : entry.cmd = .replica .statusUpdate cmd)
    (applied : replicaCmdStatusUpdate state entry cmd = .ok (next, result)) :
    state.ledger.Step entry next.ledger := by
  obtain ⟨-, rfl, -⟩ | ⟨stored, middle, found, put, touched, -⟩ := replicaCmdStatusUpdate_cases applied
  · exact .idle (by simp [is]) (by simp [Ledger.WritesHost, is])
  · have write : ReplicaWrite entry cmd.id stored (some { stored with status := cmd.status }) stored :=
      .status is rfl
    have atId : stored.id = cmd.id := replica_id found
    exact replica_announced found write atId put touched

theorem replicaCmdPut_ledger {replica : Replica} (is : entry.cmd = .replica .put replica)
    (applied : replicaCmdPut state entry replica = .ok (next, result)) :
    state.ledger.Step entry next.ledger := by
  obtain ⟨-, rfl, -⟩ | ⟨old, tags, changed, middle, found, merged, put, touched, -⟩ :=
    replicaCmdPut_cases applied
  · exact .idle (by simp [is]) (by simp [Ledger.WritesHost, is])
  · have write : ReplicaWrite entry replica.id old
        (some { replica with created := old.created, tags, updated := entry.index }) replica :=
      .put is rfl merged
    exact replica_announced found write rfl put touched

theorem replicaCmdDel_ledger {cmd : Replica} (is : entry.cmd = .replica .del cmd)
    (applied : replicaCmdDel state entry cmd = .ok (next, result)) :
    state.ledger.Step entry next.ledger := by
  obtain ⟨-, rfl, -⟩ | ⟨stored, middle, found, touched, rfl, -⟩ := replicaCmdDel_cases applied
  · exact .idle (by simp [is]) (by simp [Ledger.WritesHost, is])
  · obtain ⟨hosted, same⟩ := ledger_touchOwners touched
    rw [ledger_replicaDelete, same, replica_id found]
    exact .replica (show state.ledger.replicas cmd.id = some stored from found) (.del is rfl) hosted

theorem replicaTagAction_ledger {fn : TagFn} {cmd : Replica} {action : Action}
    (is : entry.cmd = .replica action cmd) (tagFn : action.tagFn = some fn)
    (applied : replicaTagAction fn state entry cmd = .ok (next, result)) :
    state.ledger.Step entry next.ledger := by
  obtain ⟨rfl, -⟩ | ⟨stored, tags, middle, found, changed, touched, put, -⟩ :=
    replicaTagAction_cases applied
  · refine .idle (fun replica post => ?_) (by simp [Ledger.WritesHost, is])
    cases is.symm.trans post
    cases tagFn
  · obtain ⟨hosted, same⟩ := ledger_touchOwners touched
    have write : ReplicaWrite entry stored.id stored (some { stored with tags }) stored :=
      .tags is (replica_id found).symm tagFn changed
    have present : state.ledger.replicas stored.id = some stored := by
      rw [replica_id found]
      exact found
    rw [ledger_replicaPut put, same]
    exact .replica present write hosted

theorem replicaUpdate_ledger {action : Action} {replica : Replica}
    (cmd : entry.cmd = .replica action replica)
    (applied : replicaUpdate state entry action replica = .ok (next, result)) :
    state.ledger.Step entry next.ledger := by
  unfold replicaUpdate at applied
  split at applied
  · exact replicaCmdPost_ledger cmd applied
  · exact replicaCmdStatusUpdate_ledger cmd applied
  · exact replicaCmdPut_ledger cmd applied
  · exact replicaCmdDel_ledger cmd applied
  · exact replicaTagAction_ledger cmd rfl applied
  · exact replicaTagAction_ledger cmd rfl applied
  · exact replicaTagAction_ledger cmd rfl applied
  · next post _ _ _ _ _ _ =>
    obtain ⟨rfl, -⟩ := reject_eq_ok_iff.mp applied
    exact .idle (by simpa [cmd] using post) (by simp [Ledger.WritesHost, cmd])

end Replica

/-- Every entry applied without a panic is a step of the ledger. -/
theorem update_ledger (updated : update state entry = .ok (next, result)) :
    state.ledger.Step entry next.ledger := by
  obtain ⟨invalid, rfl, -⟩ | ⟨middle, applied, rfl, valid⟩ := update_cases updated
  · exact .idle (by simp [invalid]) (by simp [Ledger.WritesHost, invalid])
  · change state.ledger.Step entry middle.ledger
    unfold apply at applied
    split at applied
    · next invalid => exact absurd invalid valid
    · next cmd =>
      obtain ⟨rfl, -⟩ := reject_eq_ok_iff.mp applied
      exact .idle (by simp [cmd]) (by simp [Ledger.WritesHost, cmd])
    · next cmd => exact hostUpdate_ledger cmd applied
    · next cmd => exact shardUpdate_ledger cmd applied
    · next cmd => exact replicaUpdate_ledger cmd applied

end Fsm

end Zongzi
