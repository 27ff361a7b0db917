import Zongzi.Spec.Ledger

/-! # What the steps of the ledger keep

A step leaves the times of a record alone, moves its update time to the index of the entry, or creates it
there. A change of a replica is announced to its shard, and to its host unless it is dropped with another
one, a change of a host to the shards on it and a change of a shard, other than of its leader, to its
hosts. A shard that differs has a new update time unless it was a tag command that changed it. A voting
replica goes on voting unless the entry drops it.
-/

namespace Zongzi

open PartialTable

section Times

/-- When a record was created and last updated. -/
structure Times where
  created : ℕ
  updated : ℕ

def Host.times (host : Host) : Times := ⟨host.created, host.updated⟩

def Shard.times (shard : Shard) : Times := ⟨shard.created, shard.updated⟩

def Replica.times (replica : Replica) : Times := ⟨replica.created, replica.updated⟩

/-- What an entry can do to the times of a record. -/
inductive Restamp (index : ℕ) : Option Times → Option Times → Prop
  | kept (times : Option Times) : Restamp index times times
  | touched (times : Times) : Restamp index (some times) (some ⟨times.created, index⟩)
  | created : Restamp index none (some ⟨index, index⟩)
  | gone (times : Option Times) : Restamp index times none

/-- Created before updated, and neither after the clock. -/
def Times.Within (times : Times) (clock : ℕ) : Prop :=
  times.created ≤ times.updated ∧ times.updated ≤ clock

variable {index clock : ℕ} {before after : Option Times} {old new : Times}

theorem Restamp.within (restamp : Restamp index before (some new))
    (within : ∀ times, before = some times → times.Within clock) (later : clock ≤ index) :
    new.Within index := by
  cases restamp with
  | kept =>
    obtain ⟨ordered, bounded⟩ := within new rfl
    exact ⟨ordered, bounded.trans later⟩
  | touched times =>
    obtain ⟨ordered, bounded⟩ := within times rfl
    exact ⟨(ordered.trans bounded).trans later, le_rfl⟩
  | created => exact ⟨le_rfl, le_rfl⟩

/-- While a record exists, its creation time stays and its update time does not go back. -/
theorem Restamp.ages (restamp : Restamp index (some old) (some new)) (within : old.Within clock)
    (later : clock ≤ index) : new.created = old.created ∧ old.updated ≤ new.updated := by
  cases restamp with
  | kept => exact ⟨rfl, le_rfl⟩
  | touched => exact ⟨rfl, within.2.trans later⟩

/-- A record without the stamp of the entry had its times before. -/
theorem Restamp.of_unstamped (restamp : Restamp index before (some new)) (unstamped : new.updated ≠ index) :
    before = some new := by
  cases restamp with
  | kept => rfl
  | touched => exact absurd rfl unstamped
  | created => exact absurd rfl unstamped

variable {κ α : Type} {times : α → Times} {table : κ → Option α} {key : κ}

private theorem restamp_rewrite {touch : α → α}
    (touches : ∀ record, times (touch record) = ⟨(times record).created, index⟩) (chosen : Set κ) :
    Restamp index ((table key).map times) ((rewrite table chosen touch key).map times) := by
  by_cases member : key ∈ chosen
  · rw [rewrite_of_mem member]
    cases table key with
    | none => exact .kept none
    | some record =>
      simp only [Option.map_some, touches]
      exact .touched (times record)
  · rw [rewrite_of_notMem member]
    exact .kept _

theorem restamp_touchHosts (hosts : String → Option Host) (chosen : Set String) {key : String} :
    Restamp index ((hosts key).map Host.times)
      ((rewrite hosts chosen (·.touch index) key).map Host.times) :=
  restamp_rewrite (fun _ => rfl) chosen

theorem restamp_touchShards (shards : ℕ → Option Shard) (chosen : Set ℕ) {id : ℕ} :
    Restamp index ((shards id).map Shard.times)
      ((rewrite shards chosen (·.touch index) id).map Shard.times) :=
  restamp_rewrite (fun _ => rfl) chosen

theorem restamp_update [DecidableEq κ] {record : Option α} {other : κ}
    (written : Restamp index ((table key).map times) (record.map times)) :
    Restamp index ((table other).map times) ((Function.update table key record other).map times) := by
  by_cases same : other = key
  · subst same
    rw [Function.update_self]
    exact written
  · rw [Function.update_of_ne same]
    exact .kept _

theorem restamp_dropWhere (dropped : α → Prop) :
    Restamp index ((table key).map times) ((dropWhere table dropped key).map times) := by
  cases found : dropWhere table dropped key with
  | none => exact .gone _
  | some record =>
    rw [(dropWhere_eq_some_iff.mp found).1]
    exact .kept _

end Times

section Writes

variable {entry : Entry} {key : String} {last id : ℕ}

theorem HostWrite.cmd {before after : Option Host} (write : HostWrite entry key before after) :
    ∃ action host, entry.cmd = .host action host ∧ uuidKey host.id = some key := by
  cases write with
  | new cmd parsed => exact ⟨_, _, cmd, parsed⟩
  | put cmd parsed => exact ⟨_, _, cmd, parsed⟩
  | tags cmd parsed => exact ⟨_, _, cmd, parsed⟩
  | del cmd parsed => exact ⟨_, _, cmd, parsed⟩

theorem ShardWrite.cmd {before after : Option Shard} (write : ShardWrite entry last id before after) :
    ∃ action shard, entry.cmd = .shard action shard ∧ shard.id = id := by
  cases write with
  | prime cmd named => exact ⟨_, _, cmd, named⟩
  | put cmd named => exact ⟨_, _, cmd, named⟩
  | touch cmd named => exact ⟨_, _, cmd, named⟩
  | status cmd named => exact ⟨_, _, cmd, named⟩
  | tags cmd named => exact ⟨_, _, cmd, named⟩
  | del cmd named => exact ⟨_, _, cmd, named⟩

theorem ReplicaWrite.cmd {stored owner : Replica} {after : Option Replica}
    (write : ReplicaWrite entry id stored after owner) :
    ∃ action replica, entry.cmd = .replica action replica ∧ replica.id = id := by
  cases write with
  | status is named => exact ⟨_, _, is, named⟩
  | put is named => exact ⟨_, _, is, named⟩
  | tags is named => exact ⟨_, _, is, named⟩
  | del is named => exact ⟨_, _, is, named⟩

theorem HostWrite.restamp {before after : Option Host} (write : HostWrite entry key before after) :
    Restamp entry.index (before.map Host.times) (after.map Host.times) := by
  cases write with
  | new => exact .created
  | put => exact .touched _
  | tags => exact .kept _
  | del => exact .gone _

theorem ShardWrite.restamp {before after : Option Shard}
    (write : ShardWrite entry last id before after) :
    Restamp entry.index (before.map Shard.times) (after.map Shard.times) := by
  cases write with
  | prime => exact .created
  | put => exact .touched _
  | touch =>
    cases before with
    | none => exact .kept none
    | some stored => exact .touched _
  | status => exact .touched _
  | tags => exact .kept _
  | del => exact .gone _

theorem ReplicaWrite.restamp {stored owner : Replica} {after : Option Replica}
    (write : ReplicaWrite entry id stored after owner) :
    Restamp entry.index (some stored.times) (after.map Replica.times) := by
  cases write with
  | status => exact .kept _
  | put => exact .touched _
  | tags => exact .kept _
  | del => exact .gone _

/-- A host goes only where it is found and deleted. -/
theorem HostWrite.deletes {stored : Option Host} (write : HostWrite entry key stored none) :
    ∃ host, entry.cmd = .host .del host ∧ uuidKey host.id = some key ∧ stored.isSome := by
  cases write with
  | del cmd parsed => exact ⟨_, cmd, parsed, rfl⟩

theorem HostWrite.none_of_del {before after : Option Host} (write : HostWrite entry key before after)
    {host : Host} (del : entry.cmd = .host .del host) : after = none := by
  cases write with
  | new cmd => cases cmd.symm.trans del
  | put cmd => cases cmd.symm.trans del
  | tags cmd _ tagFn =>
    cases cmd.symm.trans del
    cases tagFn
  | del => rfl

/-- A replica that is deleted with its shard is deleted by a command that leaves no shard. -/
theorem ShardWrite.none_of_del {before after : Option Shard}
    (write : ShardWrite entry last id before after) {shard : Shard}
    (del : entry.cmd = .shard .del shard) : after = none := by
  cases write with
  | prime cmd => cases cmd.symm.trans del
  | put cmd => cases cmd.symm.trans del
  | touch cmd => cases cmd.symm.trans del
  | status cmd => cases cmd.symm.trans del
  | tags cmd _ tagFn =>
    cases cmd.symm.trans del
    cases tagFn
  | del => rfl

/-- The entry is a tag command that takes effect on a shard and leaves these tags. -/
def Retags (entry : Entry) (id : ℕ) (stored : Shard) (tags : Tags) : Prop :=
  ∃ action cmd fn, entry.cmd = .shard action cmd ∧ cmd.id = id ∧ action.tagFn = some fn ∧
    fn stored.tags cmd.tags = .ok (tags, true)

/-- Every shard command but a tag command leaves its index in the shard it writes. -/
theorem ShardWrite.delta {before : Option Shard} {shard : Shard}
    (write : ShardWrite entry last id before (some shard)) :
    shard.updated = entry.index ∨ ∃ stored tags, before = some stored ∧ Retags entry id stored tags ∧
      shard = { stored with tags } := by
  generalize written : some shard = after at write
  cases write with
  | prime =>
    cases written
    exact .inl rfl
  | put =>
    cases written
    exact .inl rfl
  | touch =>
    obtain ⟨old, -, rfl⟩ := Option.map_eq_some_iff.mp written.symm
    exact .inl rfl
  | status =>
    cases written
    exact .inl rfl
  | @tags action cmd stored fn tags is named tagFn changed =>
    cases written
    exact .inr ⟨stored, tags, rfl, ⟨action, cmd, fn, is, named, tagFn, changed⟩, rfl⟩
  | del => cases written

/-- Only a replica put moves a replica. -/
theorem ReplicaWrite.placed {stored owner : Replica} {after : Option Replica}
    (write : ReplicaWrite entry id stored after owner)
    (put : ∀ replica, entry.cmd ≠ .replica .put replica) :
    owner = stored ∧ ∀ replica, after = some replica → replica.hostID = stored.hostID ∧
      replica.shardID = stored.shardID ∧ replica.isNonVoting = stored.isNonVoting := by
  cases write with
  | status => exact ⟨rfl, fun _ same => Option.some.inj same ▸ ⟨rfl, rfl, rfl⟩⟩
  | put is => exact absurd is (put _)
  | tags => exact ⟨rfl, fun _ same => Option.some.inj same ▸ ⟨rfl, rfl, rfl⟩⟩
  | del => exact ⟨rfl, fun _ gone => by cases gone⟩

end Writes

namespace Ledger

variable {ledger next : Ledger} {entry : Entry}

/-- A post takes an identifier that no record has. -/
def Vacant (ledger : Ledger) (entry : Entry) : Prop :=
  (∀ shard, entry.cmd = .shard .post shard → ledger.shards ((ledger.shardID + 1) % 2 ^ 64) = none) ∧
    ∀ replica, entry.cmd = .replica .post replica →
      ledger.replicas ((ledger.replicaID + 1) % 2 ^ 64) = none

section Restamps

theorem Step.restamp_host (step : ledger.Step entry next) (key : String) :
    Restamp entry.index ((ledger.hosts key).map Host.times) ((next.hosts key).map Host.times) := by
  cases step with
  | host write => exact restamp_update write.restamp
  | shard => exact restamp_touchHosts _ _
  | replicaPost => exact restamp_touchHosts _ _
  | replica => exact restamp_touchHosts _ _
  | _ => exact .kept _

theorem Step.restamp_shard (step : ledger.Step entry next) (vacant : ledger.Vacant entry) (id : ℕ) :
    Restamp entry.index ((ledger.shards id).map Shard.times) ((next.shards id).map Shard.times) := by
  cases step with
  | idle => exact .kept _
  | host => exact restamp_touchShards _ _
  | shardPost cmd fresh =>
    refine restamp_update ?_
    rw [fresh, vacant.1 _ cmd]
    exact .created
  | shardLeader cmd found =>
    refine restamp_update ?_
    rw [found]
    exact .touched _
  | shard write => exact restamp_update write.restamp
  | replicaPost => exact restamp_touchShards _ _
  | replica => exact restamp_touchShards _ _

theorem Step.restamp_replica (step : ledger.Step entry next) (vacant : ledger.Vacant entry) (id : ℕ) :
    Restamp entry.index ((ledger.replicas id).map Replica.times)
      ((next.replicas id).map Replica.times) := by
  cases step with
  | host => exact restamp_dropWhere _
  | shard => exact restamp_dropWhere _
  | replicaPost cmd fresh =>
    refine restamp_update ?_
    rw [fresh, vacant.2 _ cmd]
    exact .created
  | replica found write =>
    refine restamp_update ?_
    rw [found]
    exact write.restamp
  | _ => exact .kept _

end Restamps

section Announcements

/-- The host with this identifier, if there is one, was updated last at `index`. -/
def HostMarked (ledger : Ledger) (hostID : String) (index : ℕ) : Prop :=
  ∀ key host, uuidKey hostID = some key → ledger.hosts key = some host → host.updated = index

def ShardMarked (ledger : Ledger) (shardID index : ℕ) : Prop :=
  ∀ shard, ledger.shards shardID = some shard → shard.updated = index

theorem updated_of_touchHosts {hosts : String → Option Host} {chosen : Set String} {key : String}
    {index : ℕ} {host : Host} (found : rewrite hosts chosen (·.touch index) key = some host)
    (member : key ∈ chosen) : host.updated = index := by
  obtain ⟨-, outside⟩ | ⟨old, -, -, rfl⟩ := of_rewrite found
  · exact absurd member outside
  · rfl

theorem updated_of_touchShards {shards : ℕ → Option Shard} {chosen : Set ℕ} {id index : ℕ}
    {shard : Shard} (found : rewrite shards chosen (·.touch index) id = some shard)
    (member : id ∈ chosen) : shard.updated = index := by
  obtain ⟨-, outside⟩ | ⟨old, -, -, rfl⟩ := of_rewrite found
  · exact absurd member outside
  · rfl

theorem marked_touchOwners (ledger : Ledger) (replica : Replica) (index : ℕ) :
    (ledger.touchOwners replica index).HostMarked replica.hostID index ∧
      (ledger.touchOwners replica index).ShardMarked replica.shardID index :=
  ⟨fun _ _ parsed found => updated_of_touchHosts found parsed,
    fun _ found => updated_of_touchShards found (Set.mem_singleton replica.shardID)⟩

/-- A record that was dropped is the version of the replica from before. -/
private theorem version_of_dropWhere {replicas : ℕ → Option Replica} {dropped : Replica → Prop} {id : ℕ}
    {replica : Replica}
    (version : replicas id = some replica ∨ dropWhere replicas dropped id = some replica)
    (changed : dropWhere replicas dropped id ≠ replicas id) :
    replicas id = some replica ∧ dropped replica := by
  obtain ⟨stored, found, drop, gone⟩ := of_dropWhere_ne changed
  obtain before | after := version
  · cases found.symm.trans before
    exact ⟨found, drop⟩
  · cases gone.symm.trans after

/-- The entry writes a host, and the scan for it finds a replica of another one. -/
def Strays (ledger : Ledger) (entry : Entry) (replica : Replica) : Prop :=
  ∃ key, ledger.WritesHost entry key ∧ Scans key replica.hostID replica.id ∧ uuidKey replica.hostID ≠ some key

/-- A change of a replica is announced to its shard, and to its host unless the replica is dropped with
another host. -/
theorem Step.replica_announced (step : ledger.Step entry next) (vacant : ledger.Vacant entry)
    (put : ∀ replica, entry.cmd ≠ .replica .put replica) {id : ℕ} {replica : Replica}
    (version : ledger.replicas id = some replica ∨ next.replicas id = some replica)
    (changed : next.replicas id ≠ ledger.replicas id) :
    next.ShardMarked replica.shardID entry.index ∧
      (next.HostMarked replica.hostID entry.index ∨ (∃ host, entry.cmd = .host .del host) ∧
        ledger.Strays entry replica ∧ next.replicas id = none) := by
  cases step with
  | idle => exact absurd rfl changed
  | @host key record write =>
    obtain ⟨found, rfl, scanned⟩ := version_of_dropWhere version changed
    refine ⟨fun shard present => updated_of_touchShards present ⟨id, replica, found, scanned, rfl⟩, ?_⟩
    by_cases own : uuidKey replica.hostID = some key
    · -- The host is gone.
      refine .inl fun other host parsed present => ?_
      cases own.symm.trans parsed
      dsimp only at present
      rw [Function.update_self] at present
      cases present
    · obtain ⟨host, cmd, parsed, present⟩ := write.deletes
      obtain ⟨stored, present⟩ := Option.isSome_iff_exists.mp present
      obtain ⟨-, -, -, gone⟩ := of_dropWhere_ne changed
      have writes : ledger.WritesHost entry key := ⟨.del, host, cmd, parsed, .inr ⟨stored, present, .inl rfl⟩⟩
      exact .inr ⟨⟨host, cmd⟩, ⟨key, writes, scanned, own⟩, gone⟩
  | shardPost => exact absurd rfl changed
  | shardLeader => exact absurd rfl changed
  | shard write =>
    obtain ⟨found, ⟨cmd, del⟩, ofShard⟩ := version_of_dropWhere version changed
    refine ⟨fun shard present => ?_, .inl fun key host parsed present => ?_⟩
    · dsimp only at present
      rw [ofShard, write.none_of_del del, Function.update_self] at present
      cases present
    · exact updated_of_touchHosts present ⟨id, replica, found, ofShard, parsed⟩
  | @replicaPost posted _ status cmd fresh =>
    have same := eq_of_update_ne changed
    subst same
    have absent := vacant.2 posted cmd
    rw [← fresh] at absent
    dsimp only at version
    rw [absent, Function.update_self] at version
    obtain before | written := version
    · cases before
    · cases written
      obtain ⟨host, shard⟩ := marked_touchOwners ledger posted entry.index
      exact ⟨shard, .inl host⟩
  | @replica _ stored owner record found write =>
    have same := eq_of_update_ne changed
    subst same
    obtain ⟨sameOwner, placed⟩ := write.placed put
    subst sameOwner
    dsimp only at version
    rw [found, Function.update_self] at version
    obtain ⟨host, shard⟩ := marked_touchOwners ledger owner entry.index
    obtain before | after := version
    · cases before
      exact ⟨shard, .inl host⟩
    · obtain ⟨sameHost, sameShard, -⟩ := placed replica after
      rw [sameHost, sameShard]
      exact ⟨shard, .inl host⟩

/-- What an entry that writes a host does. -/
theorem Step.of_writesHost (step : ledger.Step entry next) {key : String} (writes : ledger.WritesHost entry key) :
    ∃ record, HostWrite entry key (ledger.hosts key) record ∧
      next.hosts = Function.update ledger.hosts key record ∧
      next.shards = rewrite ledger.shards (ledger.shardsOn key) (·.touch entry.index) ∧
      next.replicas = dropWhere ledger.replicas fun replica =>
        record = none ∧ Scans key replica.hostID replica.id := by
  have ⟨action, named, cmd, parsed, _⟩ := writes
  cases step with
  | idle _ none => exact absurd writes (none key)
  | host write =>
    obtain ⟨_, _, is, valid⟩ := write.cmd
    cases cmd.symm.trans is
    cases parsed.symm.trans valid
    exact ⟨_, write, rfl, rfl, rfl⟩
  | shardPost is => cases cmd.symm.trans is
  | shardLeader is => cases cmd.symm.trans is
  | shard write =>
    obtain ⟨_, _, is, -⟩ := write.cmd
    cases cmd.symm.trans is
  | replicaPost is => cases cmd.symm.trans is
  | replica _ write =>
    obtain ⟨_, _, is, -⟩ := write.cmd
    cases cmd.symm.trans is

/-- A deletion drops what its scan finds, and leaves the other hosts as they are. -/
theorem Step.scanned_dropped (step : ledger.Step entry next) {host : Host} (cmd : entry.cmd = .host .del host)
    {key : String} (writes : ledger.WritesHost entry key) :
    (∀ id replica, Scans key replica.hostID replica.id → next.replicas id ≠ some replica) ∧
      ∀ other, other ≠ key → next.hosts other = ledger.hosts other := by
  obtain ⟨record, write, hosts, -, replicas⟩ := step.of_writesHost writes
  obtain rfl := write.none_of_del cmd
  refine ⟨fun id replica scanned present => ?_, fun other different => ?_⟩
  · rw [replicas] at present
    exact (dropWhere_eq_some_iff.mp present).2 ⟨rfl, scanned⟩
  · rw [hosts, Function.update_of_ne different]

/-- Host and shard commands write no replica. -/
theorem Step.replica_of_owner (step : ledger.Step entry next)
    (other : ∀ action replica, entry.cmd ≠ .replica action replica) {id : ℕ} {replica : Replica}
    (found : next.replicas id = some replica) : ledger.replicas id = some replica := by
  cases step with
  | idle => exact found
  | host => exact (dropWhere_eq_some_iff.mp found).1
  | shardPost => exact found
  | shardLeader => exact found
  | shard => exact (dropWhere_eq_some_iff.mp found).1
  | replicaPost cmd => exact absurd cmd (other _ _)
  | replica _ write =>
    obtain ⟨action, replica, cmd, -⟩ := write.cmd
    exact absurd cmd (other action replica)

/-- A host command announces its change to the shards on the host. -/
theorem Step.host_announced (step : ledger.Step entry next) {action : Action} {host : Host}
    (cmd : entry.cmd = .host action host) {key : String} (changed : next.hosts key ≠ ledger.hosts key)
    {id : ℕ} {replica : Replica} (found : ledger.replicas id = some replica)
    (onHost : uuidKey replica.hostID = some key) :
    next.ShardMarked replica.shardID entry.index := by
  cases step with
  | idle => exact absurd rfl changed
  | host write =>
    have same := eq_of_update_ne changed
    subst same
    intro shard present
    exact updated_of_touchShards present ⟨id, replica, found, scans_of_parsed onHost replica.id, rfl⟩
  | shardPost other => cases cmd.symm.trans other
  | shardLeader other => cases cmd.symm.trans other
  | shard write =>
    obtain ⟨_, _, other, -⟩ := write.cmd
    cases cmd.symm.trans other
  | replicaPost other => cases cmd.symm.trans other
  | replica _ write =>
    obtain ⟨_, _, other, -⟩ := write.cmd
    cases cmd.symm.trans other

/-- A shard command announces its change to the hosts of the shard, unless it posts the shard or sets
its leader. -/
theorem Step.shard_announced (step : ledger.Step entry next) {action : Action} {shard : Shard}
    (cmd : entry.cmd = .shard action shard) (post : action ≠ .post) (leaderSet : action ≠ .leaderSet)
    {id : ℕ} (changed : next.shards id ≠ ledger.shards id) {replicaID : ℕ} {replica : Replica}
    (found : ledger.replicas replicaID = some replica) (ofShard : replica.shardID = id) :
    next.HostMarked replica.hostID entry.index := by
  cases step with
  | idle => exact absurd rfl changed
  | host write =>
    obtain ⟨_, _, other, -⟩ := write.cmd
    cases cmd.symm.trans other
  | shardPost other =>
    cases cmd.symm.trans other
    exact absurd rfl post
  | shardLeader other =>
    cases cmd.symm.trans other
    exact absurd rfl leaderSet
  | shard write =>
    have same := eq_of_update_ne changed
    subst same
    intro key host parsed present
    exact updated_of_touchHosts present ⟨replicaID, replica, found, ofShard, parsed⟩
  | replicaPost other => cases cmd.symm.trans other
  | replica _ write =>
    obtain ⟨_, _, other, -⟩ := write.cmd
    cases cmd.symm.trans other

/-- The shard of a replica stays and keeps its type, unless the host of the replica hears of it. -/
theorem Step.type_kept (step : ledger.Step entry next) (vacant : ledger.Vacant entry) {id : ℕ}
    {replica : Replica} (listed : ledger.replicas id = some replica) {stored : Shard}
    (found : ledger.shards replica.shardID = some stored) :
    next.HostMarked replica.hostID entry.index ∨
      ∃ shard, next.shards replica.shardID = some shard ∧ shard.type = stored.type := by
  have touched {chosen : Set ℕ} : ∃ shard,
      rewrite ledger.shards chosen (·.touch entry.index) replica.shardID = some shard ∧
        shard.type = stored.type := by
    by_cases member : replica.shardID ∈ chosen
    · rw [rewrite_of_mem member, found]
      exact ⟨_, rfl, rfl⟩
    · rw [rewrite_of_notMem member, found]
      exact ⟨_, rfl, rfl⟩
  have kept {other : ℕ} {record : Option Shard} (different : replica.shardID ≠ other) :
      Function.update ledger.shards other record replica.shardID = some stored :=
    (Function.update_of_ne different ..).trans found
  cases step with
  | idle => exact .inr ⟨stored, found, rfl⟩
  | host => exact .inr touched
  | @shardPost shard fresh cmd is =>
    have other : replica.shardID ≠ fresh := by
      rintro same
      rw [same, is, vacant.1 _ cmd] at found
      cases found
    exact .inr ⟨stored, kept other, rfl⟩
  | @shardLeader shard leading cmd present =>
    by_cases same : replica.shardID = shard.id
    · rw [same] at found ⊢
      cases found.symm.trans present
      exact .inr ⟨_, Function.update_self .., rfl⟩
    · exact .inr ⟨stored, kept same, rfl⟩
  | @shard written record write =>
    by_cases same : replica.shardID = written
    · refine .inl fun key host parsed present => ?_
      exact updated_of_touchHosts present ⟨id, replica, listed, same, parsed⟩
    · exact .inr ⟨stored, kept same, rfl⟩
  | replicaPost => exact .inr touched
  | replica => exact .inr touched

end Announcements

section Deltas

/-- A shard that differs was updated at the index of the entry, or only its tags differ. -/
theorem Step.shard_delta (step : ledger.Step entry next) {id : ℕ} {shard : Shard}
    (found : next.shards id = some shard) :
    shard.updated = entry.index ∨ ledger.shards id = some shard ∨
      ∃ stored tags, ledger.shards id = some stored ∧ Retags entry id stored tags ∧
        shard = { stored with tags } := by
  have touched {chosen : Set ℕ}
      (found : rewrite ledger.shards chosen (·.touch entry.index) id = some shard) :
      shard.updated = entry.index ∨ ledger.shards id = some shard := by
    obtain ⟨kept, -⟩ | ⟨old, -, -, rfl⟩ := of_rewrite found
    · exact .inr kept
    · exact .inl rfl
  cases step with
  | idle => exact .inr (.inl found)
  | host => exact (touched found).imp_right .inl
  | shardPost =>
    obtain kept | ⟨-, written⟩ := of_update found
    · exact .inr (.inl kept)
    · cases written
      exact .inl rfl
  | shardLeader =>
    obtain kept | ⟨-, written⟩ := of_update found
    · exact .inr (.inl kept)
    · cases written
      exact .inl rfl
  | @shard key record write =>
    obtain kept | ⟨rfl, rfl⟩ := of_update found
    · exact .inr (.inl kept)
    · exact write.delta.imp_right .inr
  | replicaPost => exact (touched found).imp_right .inl
  | replica => exact (touched found).imp_right .inl

end Deltas

section Votes

/-- The entry may take the vote of a replica: it deletes the replica, its shard or a host for which a scan
finds it, puts it elsewhere or as one that does not vote, or posts another one under its identifier. -/
def Unseats (ledger : Ledger) (entry : Entry) (replica : Replica) : Prop :=
  match entry.cmd with
  | .host .del host => ∃ key ∈ uuidKey host.id, Scans key replica.hostID replica.id
  | .shard .del shard => shard.id = replica.shardID
  | .replica .del cmd => cmd.id = replica.id
  | .replica .put cmd => cmd.id = replica.id ∧ (cmd.isNonVoting ∨ cmd.shardID ≠ replica.shardID)
  | .replica .post _ => replica.id = (ledger.replicaID + 1) % 2 ^ 64
  | _ => False

/-- A voting replica that is not unseated goes on voting. -/
theorem Step.votes (step : ledger.Step entry next) {replica : Replica}
    (found : ledger.replicas replica.id = some replica) (voting : replica.isNonVoting = false)
    (seated : ¬ ledger.Unseats entry replica) : next.Votes replica.shardID replica.id := by
  cases step with
  | @host key record write =>
    refine ⟨replica, dropWhere_eq_some_iff.mpr ⟨found, fun ⟨gone, scanned⟩ => seated ?_⟩, rfl, voting⟩
    subst gone
    obtain ⟨host, cmd, parsed, -⟩ := write.deletes
    simp only [Unseats, cmd]
    exact ⟨key, parsed, scanned⟩
  | @shard id record write =>
    refine ⟨replica, dropWhere_eq_some_iff.mpr ⟨found, fun ⟨⟨_, del⟩, ofShard⟩ => seated ?_⟩,
      rfl, voting⟩
    obtain ⟨action, named, cmd, atId⟩ := write.cmd
    cases cmd.symm.trans del
    simp only [Unseats, del]
    exact atId.trans ofShard.symm
  | @replicaPost posted id status cmd fresh =>
    have other : replica.id ≠ id := by
      intro taken
      simp only [Unseats, cmd] at seated
      exact seated (taken.trans fresh)
    exact ⟨replica, (Function.update_of_ne other ..).trans found, rfl, voting⟩
  | @replica id stored owner record there write =>
    by_cases same : replica.id = id
    · subst same
      cases found.symm.trans there
      cases write with
      | status => exact ⟨_, Function.update_self .., rfl, voting⟩
      | @put cmd old tags changed is named merged =>
        simp only [Unseats, is, named, true_and, not_or, Bool.not_eq_true, ne_eq, not_not] at seated
        exact ⟨_, Function.update_self .., seated.2, seated.1⟩
      | tags => exact ⟨_, Function.update_self .., rfl, voting⟩
      | del is named =>
        simp only [Unseats, is] at seated
        exact absurd named seated
    · exact ⟨replica, (Function.update_of_ne same ..).trans found, rfl, voting⟩
  | _ => exact ⟨replica, found, rfl, voting⟩

end Votes

end Ledger

end Zongzi
