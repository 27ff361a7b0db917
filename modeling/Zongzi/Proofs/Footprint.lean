import Zongzi.Proofs.ChangeTracking

/-! # The footprint of a command

A command writes the record it is addressed to. Beyond that it only moves the update times of the neighbours of
that record, and drops the replicas of a host or of a shard that it deletes. A command that writes a host goes
further where the scan for the host finds a replica of another one.
-/

namespace Zongzi

open Std Machine PartialTable

section Targets

variable {entry : Entry} {ledger : Ledger}

/-- The command is addressed to the host under this key. -/
def Cmd.TargetsHost (cmd : Cmd) (key : String) : Prop :=
  ∃ action host, cmd = .host action host ∧ uuidKey host.id = some key

/-- The command is addressed to the shard, or posts it after this many others. -/
def Cmd.TargetsShard (cmd : Cmd) (count id : ℕ) : Prop :=
  ∃ action shard, cmd = .shard action shard ∧ id = if action = .post then count + 1 else shard.id

/-- The command is addressed to the replica, or posts it after this many others. -/
def Cmd.TargetsReplica (cmd : Cmd) (count id : ℕ) : Prop :=
  ∃ action named, cmd = .replica action named ∧ id = if action = .post then count + 1 else named.id

/-- A command that opens a shard under the next identifier. A name that is taken is refused. -/
def State.opensShard (state : State) : Cmd → Bool
  | .shard .post shard => shard.name = "" || (state.shardFindByName shard.name).isNone
  | _ => false

def Cmd.postsReplica : Cmd → Bool
  | .replica .post _ => true
  | _ => false

/-- The command deletes the host of the replica, or its shard, and that exists. -/
def State.Dissolves (state : State) (cmd : Cmd) (replica : Replica) : Prop :=
  (∃ host key, cmd = .host .del host ∧ uuidKey host.id = some key ∧ (state.hosts.id[key]?).isSome ∧
    uuidKey replica.hostID = some key) ∨
  ∃ shard, cmd = .shard .del shard ∧ (state.shard shard.id).isSome ∧ replica.shardID = shard.id

/-- What an entry may change. -/
structure State.Footprint (state : State) (entry : Entry) (next : State) : Prop where
  /-- Another host is touched if it has a replica of the target shard, or is the host of the target replica. -/
  hosts : ∀ key : String, next.hosts.id[key]? ≠ state.hosts.id[key]? → entry.cmd.TargetsHost key ∨
    ((∃ id replica, state.replica id = some replica ∧ uuidKey replica.hostID = some key ∧
        entry.cmd.TargetsShard state.shardID replica.shardID) ∨
      ∃ id replica, entry.cmd.TargetsReplica state.replicaID id ∧
        (next.replica id).or (state.replica id) = some replica ∧ uuidKey replica.hostID = some key) ∧
    ∃ host, state.hosts.id[key]? = some host ∧ next.hosts.id[key]? = some { host with updated := entry.index }
  /-- Another shard is touched if it has a replica on the target host, or is the shard of the target replica. -/
  shards : ∀ id, next.shard id ≠ state.shard id → entry.cmd.TargetsShard state.shardID id ∨
    ((∃ key replicaID replica, state.replica replicaID = some replica ∧ replica.shardID = id ∧
        uuidKey replica.hostID = some key ∧ entry.cmd.TargetsHost key) ∨
      ∃ replicaID replica, entry.cmd.TargetsReplica state.replicaID replicaID ∧
        (next.replica replicaID).or (state.replica replicaID) = some replica ∧ replica.shardID = id) ∧
    ∃ shard, state.shard id = some shard ∧ next.shard id = some { shard with updated := entry.index }
  replicas : ∀ id, next.replica id ≠ state.replica id → entry.cmd.TargetsReplica state.replicaID id ∨
    next.replica id = none ∧ ∃ replica, state.replica id = some replica ∧ state.Dissolves entry.cmd replica
  /-- With a host or a shard go all its replicas. -/
  dissolved : ∀ id replica, state.replica id = some replica → state.Dissolves entry.cmd replica →
    next.replica id = none
  shardID : next.shardID = state.shardID + (state.opensShard entry.cmd).toNat
  replicaID : next.replicaID = state.replicaID + entry.cmd.postsReplica.toNat

/-- A replica of another host that the entry finds is not dropped, and its shard, if there is one, has a replica on the
host that is written as well. -/
def Ledger.Contains (ledger : Ledger) (entry : Entry) : Prop :=
  ∀ id replica, ledger.replicas id = some replica → ledger.Strays entry replica →
    (∀ host, entry.cmd ≠ .host .del host) ∧ ((ledger.shards replica.shardID).isSome →
      ∃ key otherID other, ledger.replicas otherID = some other ∧ other.shardID = replica.shardID ∧
        uuidKey other.hostID = some key ∧ entry.cmd.TargetsHost key)

theorem HostWrite.targets {key : String} {stored record : Option Host} (write : HostWrite entry key stored record) :
    entry.cmd.TargetsHost key := by
  cases write with
  | new cmd parsed => exact ⟨_, _, cmd, parsed⟩
  | put cmd parsed => exact ⟨_, _, cmd, parsed⟩
  | tags cmd parsed => exact ⟨_, _, cmd, parsed⟩
  | del cmd parsed => exact ⟨_, _, cmd, parsed⟩

theorem HostWrite.writes {key : String} {record : Option Host}
    (write : HostWrite entry key (ledger.hosts key) record) : ledger.WritesHost entry key := by
  generalize present : ledger.hosts key = stored at write
  cases write with
  | new cmd parsed => exact ⟨_, _, cmd, parsed, .inl rfl⟩
  | put cmd parsed => exact ⟨_, _, cmd, parsed, .inl rfl⟩
  | tags cmd parsed tagFn changed => exact ⟨_, _, cmd, parsed, .inr ⟨_, present, .inr ⟨_, _, tagFn, changed⟩⟩⟩
  | del cmd parsed => exact ⟨_, _, cmd, parsed, .inr ⟨_, present, .inl rfl⟩⟩

theorem Action.ne_post_of_tagFn {action : Action} {fn : Fsm.TagFn} (tagFn : action.tagFn = some fn) :
    action ≠ .post := by
  rintro rfl
  cases tagFn

theorem ShardWrite.targets {count id : ℕ} {stored record : Option Shard}
    (write : ShardWrite entry count id stored record) : entry.cmd.TargetsShard count id := by
  cases write with
  | prime cmd named => exact ⟨_, _, cmd, named.symm⟩
  | put cmd named => exact ⟨_, _, cmd, named.symm⟩
  | touch cmd named => exact ⟨_, _, cmd, named.symm⟩
  | status cmd named => exact ⟨_, _, cmd, named.symm⟩
  | tags cmd named tagFn => exact ⟨_, _, cmd, by rw [if_neg (Action.ne_post_of_tagFn tagFn), named]⟩
  | del cmd named => exact ⟨_, _, cmd, named.symm⟩

/-- A shard command that deletes finds its shard. -/
theorem ShardWrite.deletes {count id : ℕ} {stored record : Option Shard} {shard : Shard}
    (write : ShardWrite entry count id stored record) (cmd : entry.cmd = .shard .del shard) :
    shard.id = id ∧ stored.isSome := by
  cases write with
  | prime is => cases cmd.symm.trans is
  | put is => cases cmd.symm.trans is
  | touch is => cases cmd.symm.trans is
  | status is => cases cmd.symm.trans is
  | tags is _ tagFn =>
    cases cmd.symm.trans is
    cases tagFn
  | del is named =>
    cases cmd.symm.trans is
    exact ⟨named, rfl⟩

theorem ReplicaWrite.targets {count id : ℕ} {stored owner : Replica} {record : Option Replica}
    (write : ReplicaWrite entry id stored record owner) : entry.cmd.TargetsReplica count id := by
  cases write with
  | status cmd named => exact ⟨_, _, cmd, named.symm⟩
  | put cmd named => exact ⟨_, _, cmd, named.symm⟩
  | tags cmd named tagFn => exact ⟨_, _, cmd, by rw [if_neg (Action.ne_post_of_tagFn tagFn), named]⟩
  | del cmd named => exact ⟨_, _, cmd, named.symm⟩

/-- What is touched is the host and the shard that the replica has afterwards, or had before it was deleted. -/
theorem ReplicaWrite.owner {id : ℕ} {stored owner : Replica} {record : Option Replica}
    (write : ReplicaWrite entry id stored record owner) :
    ∃ replica, record.or (some stored) = some replica ∧ replica.hostID = owner.hostID ∧
      replica.shardID = owner.shardID := by
  cases write with
  | status => exact ⟨_, rfl, rfl, rfl⟩
  | put => exact ⟨_, rfl, rfl, rfl⟩
  | tags => exact ⟨_, rfl, rfl, rfl⟩
  | del => exact ⟨_, rfl, rfl, rfl⟩

end Targets

section Steps

variable {entry : Entry} {ledger after : Ledger} (step : ledger.Step entry after)
  (fewShards : ledger.shardID + 1 < 2 ^ 64) (fewReplicas : ledger.replicaID + 1 < 2 ^ 64)

section Hosts

include step fewReplicas

theorem Ledger.Step.host_footprint {key : String} (changed : after.hosts key ≠ ledger.hosts key) :
    entry.cmd.TargetsHost key ∨
    ((∃ id replica, ledger.replicas id = some replica ∧ uuidKey replica.hostID = some key ∧
        entry.cmd.TargetsShard ledger.shardID replica.shardID) ∨
      ∃ id replica, entry.cmd.TargetsReplica ledger.replicaID id ∧
        (after.replicas id).or (ledger.replicas id) = some replica ∧ uuidKey replica.hostID = some key) ∧
    ∃ host, ledger.hosts key = some host ∧ after.hosts key = some (host.touch entry.index) := by
  cases step with
  | idle => exact absurd rfl changed
  | @host written record write =>
    obtain rfl := eq_of_update_ne changed
    exact .inl write.targets
  | shardPost => exact absurd rfl changed
  | shardLeader => exact absurd rfl changed
  | @shard id record write =>
    obtain ⟨⟨replicaID, replica, found, rfl, onHost⟩, touched⟩ := of_rewrite_ne changed
    exact .inr ⟨.inl ⟨replicaID, replica, found, onHost, write.targets⟩, touched⟩
  | @replicaPost replica id status cmd fresh =>
    obtain ⟨onHost, touched⟩ := of_rewrite_ne changed
    rw [Nat.mod_eq_of_lt fewReplicas] at fresh
    refine .inr ⟨.inr ⟨id, { replica with id, created := entry.index, updated := entry.index, status },
      ⟨_, _, cmd, fresh⟩, ?_, onHost⟩, touched⟩
    dsimp only
    rw [Function.update_self]
    rfl
  | @replica id stored owner record found write =>
    obtain ⟨onHost, touched⟩ := of_rewrite_ne changed
    obtain ⟨replica, present, sameHost, -⟩ := write.owner
    refine .inr ⟨.inr ⟨id, replica, write.targets, ?_, sameHost ▸ onHost⟩, touched⟩
    dsimp only
    rw [Function.update_self, found]
    exact present

end Hosts

/-- What a scan finds is on the host of its key, or strays. -/
theorem HostWrite.own_or_strays {key : String} {record : Option Host} {replica : Replica}
    (write : HostWrite entry key (ledger.hosts key) record) (scanned : Scans key replica.hostID replica.id) :
    uuidKey replica.hostID = some key ∨ ledger.Strays entry replica := by
  by_cases own : uuidKey replica.hostID = some key
  · exact .inl own
  · exact .inr ⟨key, write.writes, scanned, own⟩

section Shards

variable (contains : ledger.Contains entry)
include step fewShards fewReplicas contains

theorem Ledger.Step.shard_footprint {id : ℕ} (changed : after.shards id ≠ ledger.shards id) :
    entry.cmd.TargetsShard ledger.shardID id ∨
    ((∃ key replicaID replica, ledger.replicas replicaID = some replica ∧ replica.shardID = id ∧
        uuidKey replica.hostID = some key ∧ entry.cmd.TargetsHost key) ∨
      ∃ replicaID replica, entry.cmd.TargetsReplica ledger.replicaID replicaID ∧
        (after.replicas replicaID).or (ledger.replicas replicaID) = some replica ∧ replica.shardID = id) ∧
    ∃ shard, ledger.shards id = some shard ∧ after.shards id = some (shard.touch entry.index) := by
  cases step with
  | idle => exact absurd rfl changed
  | @host key record write =>
    obtain ⟨⟨replicaID, replica, found, scanned, rfl⟩, shard, present, touched⟩ := of_rewrite_ne changed
    obtain own | strays := write.own_or_strays scanned
    · exact .inr ⟨.inl ⟨key, replicaID, replica, found, rfl, own, write.targets⟩, shard, present, touched⟩
    · exact .inr ⟨.inl ((contains replicaID replica found strays).2 (by rw [present]; rfl)), shard, present, touched⟩
  | @shardPost shard posted cmd fresh =>
    obtain rfl := eq_of_update_ne changed
    rw [Nat.mod_eq_of_lt fewShards] at fresh
    exact .inl ⟨_, _, cmd, fresh⟩
  | @shardLeader shard stored cmd =>
    obtain rfl := eq_of_update_ne changed
    exact .inl ⟨_, _, cmd, rfl⟩
  | @shard written record write =>
    obtain rfl := eq_of_update_ne changed
    exact .inl write.targets
  | @replicaPost replica posted status cmd fresh =>
    obtain ⟨ofShard, touched⟩ := of_rewrite_ne changed
    rw [Nat.mod_eq_of_lt fewReplicas] at fresh
    refine .inr ⟨.inr ⟨posted, { replica with id := posted, created := entry.index, updated := entry.index, status },
      ⟨_, _, cmd, fresh⟩, ?_, ofShard.symm⟩, touched⟩
    dsimp only
    rw [Function.update_self]
    rfl
  | @replica written stored owner record found write =>
    obtain ⟨ofShard, touched⟩ := of_rewrite_ne changed
    obtain ⟨replica, present, -, sameShard⟩ := write.owner
    refine .inr ⟨.inr ⟨written, replica, write.targets, ?_, sameShard.trans ofShard.symm⟩, touched⟩
    dsimp only
    rw [Function.update_self, found]
    exact present

end Shards

section Replicas

variable (contains : ledger.Contains entry)
include step fewReplicas contains

theorem Ledger.Step.replica_footprint {id : ℕ} (changed : after.replicas id ≠ ledger.replicas id) :
    entry.cmd.TargetsReplica ledger.replicaID id ∨ after.replicas id = none ∧
      ∃ replica, ledger.replicas id = some replica ∧
        ((∃ host key, entry.cmd = .host .del host ∧ uuidKey host.id = some key ∧ (ledger.hosts key).isSome ∧
            uuidKey replica.hostID = some key) ∨
          ∃ shard, entry.cmd = .shard .del shard ∧ (ledger.shards shard.id).isSome ∧
            replica.shardID = shard.id) := by
  cases step with
  | idle => exact absurd rfl changed
  | @host key record write =>
    obtain ⟨replica, found, ⟨rfl, scanned⟩, gone⟩ := of_dropWhere_ne changed
    obtain ⟨host, cmd, parsed, present⟩ := write.deletes
    have own := (write.own_or_strays scanned).resolve_right fun strays =>
      (contains id replica found strays).1 host cmd
    exact .inr ⟨gone, replica, found, .inl ⟨host, key, cmd, parsed, present, own⟩⟩
  | shardPost => exact absurd rfl changed
  | shardLeader => exact absurd rfl changed
  | @shard written record write =>
    obtain ⟨replica, found, ⟨⟨shard, cmd⟩, ofShard⟩, gone⟩ := of_dropWhere_ne changed
    obtain ⟨rfl, present⟩ := write.deletes cmd
    exact .inr ⟨gone, replica, found, .inr ⟨shard, cmd, present, ofShard⟩⟩
  | @replicaPost replica posted status cmd fresh =>
    obtain rfl := eq_of_update_ne changed
    rw [Nat.mod_eq_of_lt fewReplicas] at fresh
    exact .inl ⟨_, _, cmd, fresh⟩
  | @replica written stored owner record found write =>
    obtain rfl := eq_of_update_ne changed
    exact .inl write.targets

end Replicas

include step

/-- With a shard that is gone go its replicas. -/
theorem Ledger.Step.dropped_of_shard {shard : Shard} {id : ℕ} {replica : Replica}
    (cmd : entry.cmd = .shard .del shard) (present : (ledger.shards shard.id).isSome)
    (gone : after.shards shard.id = none) (found : ledger.replicas id = some replica)
    (ofShard : replica.shardID = shard.id) : after.replicas id = none := by
  by_contra kept
  cases step with
  | idle => simp [gone] at present
  | host write =>
    obtain ⟨_, _, is, -⟩ := write.targets
    cases cmd.symm.trans is
  | shardPost is => cases cmd.symm.trans is
  | shardLeader is => cases cmd.symm.trans is
  | @shard written record write =>
    obtain ⟨rfl, -⟩ := write.deletes cmd
    refine kept (Option.eq_none_iff_forall_ne_some.mpr fun other stays => ?_)
    obtain ⟨stored, stays⟩ := dropWhere_eq_some_iff.mp stays
    cases found.symm.trans stored
    exact stays ⟨⟨shard, cmd⟩, ofShard⟩
  | replicaPost is => cases cmd.symm.trans is
  | replica _ write =>
    obtain ⟨_, _, is, -⟩ : entry.cmd.TargetsReplica 0 _ := write.targets
    cases cmd.symm.trans is

/-- Only a shard post moves the counter of shards. -/
theorem Ledger.Step.shardID_footprint :
    after.shardID = ledger.shardID ∨ ∃ shard, entry.cmd = .shard .post shard := by
  cases step with
  | idle => exact .inl rfl
  | host => exact .inl rfl
  | shardPost cmd => exact .inr ⟨_, cmd⟩
  | shardLeader => exact .inl rfl
  | shard => exact .inl rfl
  | replicaPost => exact .inl rfl
  | replica => exact .inl rfl

/-- Only a replica post moves the counter of replicas, and always does. -/
theorem Ledger.Step.replicaID_footprint (fewReplicas : ledger.replicaID + 1 < 2 ^ 64) :
    after.replicaID = ledger.replicaID + entry.cmd.postsReplica.toNat := by
  cases step with
  | idle post =>
    have other : entry.cmd.postsReplica = false := by
      unfold Cmd.postsReplica
      split
      · next replica cmd => exact absurd cmd (post replica)
      · rfl
    simp [other]
  | host write =>
    obtain ⟨_, _, cmd, -⟩ := write.targets
    simp [cmd, Cmd.postsReplica]
  | shardPost cmd => simp [cmd, Cmd.postsReplica]
  | shardLeader cmd => simp [cmd, Cmd.postsReplica]
  | shard write =>
    obtain ⟨_, _, cmd, -⟩ := write.targets
    simp [cmd, Cmd.postsReplica]
  | replicaPost cmd fresh =>
    rw [Nat.mod_eq_of_lt fewReplicas] at fresh
    simp [cmd, Cmd.postsReplica, fresh]
  | replica _ write =>
    have other : entry.cmd.postsReplica = false := by
      cases write with
      | status cmd => simp [cmd, Cmd.postsReplica]
      | put cmd => simp [cmd, Cmd.postsReplica]
      | del cmd => simp [cmd, Cmd.postsReplica]
      | @tags action _ _ _ _ cmd _ tagFn =>
        rw [cmd]
        cases action with
        | post => cases tagFn
        | _ => rfl
    simp [other, touchOwners]

end Steps

namespace Fsm

open State ExceptFold

variable {state next : State} {entry : Entry} {log : List Entry} {result : Result}

theorem shard_post_footprint {shard : Shard} (fewShards : state.shardID + 1 < 2 ^ 64)
    (cmd : entry.cmd = .shard .post shard) (updated : update state entry = .ok (next, result)) :
    next.shardID = state.shardID + (state.opensShard entry.cmd).toNat := by
  obtain ⟨invalid, -⟩ | ⟨middle, applied, rfl, -⟩ := update_cases updated
  · cases cmd.symm.trans invalid
  · rw [apply, cmd] at applied
    obtain ⟨named, taken, same, -⟩ | ⟨free, rfl, -⟩ := shardCmdPost_cases applied
    · have refused : state.opensShard entry.cmd = false := by
        simp [cmd, opensShard, named, taken]
      rw [refused, same]
      rfl
    · have opens : state.opensShard entry.cmd = true := by
        simpa [cmd, opensShard] using free
      rw [opens]
      exact Nat.mod_eq_of_lt fewShards

theorem shard_del_footprint {shard : Shard} (cmd : entry.cmd = .shard .del shard)
    (present : (state.shard shard.id).isSome) (updated : update state entry = .ok (next, result)) :
    next.ledger.shards shard.id = none := by
  obtain ⟨invalid, -⟩ | ⟨middle, applied, rfl, -⟩ := update_cases updated
  · cases cmd.symm.trans invalid
  · rw [apply, cmd] at applied
    obtain ⟨absent, -⟩ | ⟨stored, dropped, found, -, rfl, -⟩ := shardCmdDel_cases applied
    · simp [absent] at present
    · have written := congrArg (fun ledger => ledger.shards shard.id) (ledger_shardDelete dropped stored)
      refine written.trans ?_
      simp only [State.shard_id found, Function.update_self]

/-- A footprint leaves no replica of another host out of account. -/
theorem contains_of_footprint (orderly : state.Orderly) (later : state.index < entry.index)
    (step : state.ledger.Step entry next.ledger) (footprint : state.Footprint entry next) :
    state.ledger.Contains entry := by
  rintro id replica found ⟨key, writes, scanned, foreign⟩
  have ⟨action, target, cmd, parsed, _⟩ := writes
  have unowned : ∀ count other, ¬ entry.cmd.TargetsReplica count other := by simp [Cmd.TargetsReplica, cmd]
  refine ⟨fun deleted del => ?_, fun present => ?_⟩
  · have dropped := (step.scanned_dropped del writes).1 id replica scanned
    obtain owned | ⟨-, stored, again, ⟨_, other, is, valid, -, own⟩ | ⟨_, is, -⟩⟩ :=
      footprint.replicas id fun same => dropped (same.trans found)
    · exact unowned _ _ owned
    · cases again.symm.trans found
      cases cmd.symm.trans is
      cases parsed.symm.trans valid
      exact foreign own
    · cases cmd.symm.trans is
  · obtain ⟨shard, present⟩ := Option.isSome_iff_exists.mp present
    obtain ⟨-, -, -, shards, -⟩ := step.of_writesHost writes
    have member : replica.shardID ∈ state.ledger.shardsOn key := ⟨id, replica, found, scanned, rfl⟩
    have touched : next.ledger.shards replica.shardID = some (shard.touch entry.index) := by
      rw [shards, rewrite_of_mem member, present]
      rfl
    have early : shard.updated ≤ state.index := (orderly.shards _ shard present).2
    have changed : next.shard replica.shardID ≠ state.shard replica.shardID := by
      intro same
      have unmoved : shard.touch entry.index = shard :=
        Option.some.inj (touched.symm.trans (same.trans present))
      have := congrArg Shard.updated unmoved
      simp only [Shard.touch] at this
      omega
    obtain ⟨_, _, is, -⟩ | ⟨linked | ⟨_, _, owned, -⟩, -⟩ := footprint.shards replica.shardID changed
    · cases cmd.symm.trans is
    · obtain ⟨target, otherID, other, stored, ofShard, own, targets⟩ := linked
      exact ⟨target, otherID, other, stored, ofShard, own, targets⟩
    · exact absurd owned (unowned _ _)

/-- An entry of a numbered log keeps to its footprint exactly if it leaves the replicas of other hosts alone. -/
theorem update_footprint_iff (path : Path Advances {} log state) (advances : Advances state entry next) :
    state.Footprint entry next ↔ state.ledger.Contains entry := by
  have orderly := orderly_of_path path orderly_empty
  have later := advances.later
  have bounded := advances.bounded
  obtain ⟨result, updated⟩ := advances.applies
  have step := update_ledger updated
  have fewShards : state.shardID + 1 < 2 ^ 64 := by
    have counted : state.shardID ≤ state.index := orderly.identifiers.shardID
    omega
  have fewReplicas : state.replicaID + 1 < 2 ^ 64 := by
    have counted : state.replicaID ≤ state.index := orderly.identifiers.replicaID
    omega
  refine ⟨contains_of_footprint orderly later step, fun contains => ?_⟩
  refine ⟨fun key => step.host_footprint fewReplicas, fun id => step.shard_footprint fewShards fewReplicas contains,
    fun id => step.replica_footprint fewReplicas contains, ?_, ?_, step.replicaID_footprint fewReplicas⟩
  · rintro id replica found (⟨host, key, cmd, parsed, present, onHost⟩ | ⟨shard, cmd, present, ofShard⟩)
    · obtain ⟨stored, present⟩ := Option.isSome_iff_exists.mp present
      have writes : state.ledger.WritesHost entry key :=
        ⟨.del, host, cmd, parsed, .inr ⟨stored, present, .inl rfl⟩⟩
      have dropped := (step.scanned_dropped cmd writes).1 id
      refine Option.eq_none_iff_forall_ne_some.mpr fun other stays => ?_
      have same := step.replica_of_owner (by simp [cmd]) stays
      cases found.symm.trans same
      exact dropped replica (scans_of_parsed onHost _) stays
    · exact step.dropped_of_shard cmd present (shard_del_footprint cmd present updated) found ofShard
  · by_cases post : ∃ shard, entry.cmd = .shard .post shard
    · obtain ⟨shard, cmd⟩ := post
      exact shard_post_footprint fewShards cmd updated
    · have same := step.shardID_footprint.resolve_right post
      have other : state.opensShard entry.cmd = false := by
        unfold opensShard
        split
        · next shard cmd => exact absurd ⟨shard, cmd⟩ post
        · rfl
      rw [other]
      exact same

/-- A host and a shard, before a replica is posted. -/
def sharedLog : List Entry :=
  [{ index := 1, cmd := .host .put exampleHost }, { index := 2, cmd := newCmdShardPost { name := "kv" } }]

def sharedEntry : Entry := { index := 3, cmd := newCmdReplicaPost exampleHost.id 1 false }

private theorem sharedLog_evaluates : (run {} (sharedLog ++ [sharedEntry])).toOption.isSome := by
  decide +kernel

/-- Beside the replica only its host and its shard are touched, and one identifier is spent. -/
theorem post_footprint :
    ∃ state next, Path Advances {} sharedLog state ∧ Advances state sharedEntry next ∧
      state.Footprint sharedEntry next ∧ next.replicaID = state.replicaID + 1 := by
  obtain ⟨⟨next, results⟩, evaluated⟩ := Option.isSome_iff_exists.mp sharedLog_evaluates
  rw [toOption_eq_some_iff] at evaluated
  have path := (path_of_numbered ⟨by decide, by decide⟩ (path_iff_run.mpr ⟨results, evaluated⟩)).1
  obtain ⟨state, before, advances⟩ := Path.snoc_iff.mp path
  have footprint := (update_footprint_iff before advances).mpr (by
    rintro - - - ⟨-, ⟨_, _, is, -⟩, -⟩
    cases is)
  exact ⟨state, next, before, advances, footprint, footprint.replicaID⟩

/-- A host is deleted, and a replica of the host with the longer key goes with it. -/
theorem stray_replica_dropped :
    ∃ state next, Path Advances {} strayLog state ∧ Advances state (deletion exampleHost) next ∧
      ¬ state.Footprint (deletion exampleHost) next := by
  obtain ⟨state, results, next, result, ran, updated, only, dropped, -, -⟩ := reached_of_strayOutcome stray_evaluates
  have numbered : Numbered (strayLog ++ [deletion exampleHost]) := ⟨by decide, by decide⟩
  obtain ⟨path, advances⟩ := advances_of_numbered numbered (path_iff_run.mpr ⟨results, ran⟩) ⟨result, updated⟩
  refine ⟨state, next, path, advances, fun footprint => ?_⟩
  have listed := replica_of_singleton only
  have changed : next.replica 1 ≠ state.replica 1 := by
    rw [dropped, listed]
    exact nofun
  obtain ⟨_, _, is, -⟩ | ⟨-, replica, found, ⟨host, key, is, parsed, -, own⟩ | ⟨shard, is, -⟩⟩ :=
    footprint.replicas 1 changed
  · cases is
  · cases is
    cases found.symm.trans listed
    exact absurd (parsed.trans own.symm) (by decide)
  · cases is

end Fsm

end Zongzi
