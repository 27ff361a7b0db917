import Zongzi.Machine.Watermark
import Zongzi.Spec.LedgerInvariants
import Zongzi.Proofs.LedgerRefinement
import Zongzi.Proofs.Identifiers
import Zongzi.Proofs.Tags

/-! # Change tracking

The controllers find their work through the update times of hosts and shards. Along a log that Raft
numbers, no record is newer than the index of the registry, creation times stay and update times only
grow. A change of a replica is announced on both of its sides, except that a replica which is dropped
with another host than its own is not announced to its own. The shards updated after an earlier index
are all the shards that changed since, except that a tag command changes a shard without a new update
time.
-/

namespace Zongzi

open Std Machine PartialTable

/-- Raft numbers entries from one on, with 64 bits. -/
structure Numbered (log : List Entry) : Prop where
  increasing : (0 :: log.map Entry.index).Pairwise (· < ·)
  bounded : ∀ entry ∈ log, entry.index < 2 ^ 64

/-- The index of the last entry. -/
def lastIndex (log : List Entry) : ℕ := (log.getLast?.map Entry.index).getD 0

theorem Numbered.of_append {first second : List Entry} (numbered : Numbered (first ++ second)) :
    Numbered first := by
  obtain ⟨increasing, bounded⟩ := numbered
  rw [List.map_append, ← List.cons_append] at increasing
  exact ⟨(List.pairwise_append.mp increasing).1,
    fun entry member => bounded entry (List.mem_append_left _ member)⟩

theorem Numbered.last {log : List Entry} {entry : Entry} (numbered : Numbered (log ++ [entry])) :
    lastIndex log < entry.index ∧ entry.index < 2 ^ 64 := by
  obtain ⟨increasing, bounded⟩ := numbered
  refine ⟨?_, bounded entry (by simp)⟩
  rw [List.map_append, ← List.cons_append, List.pairwise_append] at increasing
  refine increasing.2.2 _ ?_ entry.index (by simp)
  cases found : log.getLast? with
  | none => simp [lastIndex, found]
  | some last =>
    simp only [lastIndex, found, Option.map_some, Option.getD_some]
    exact List.mem_cons_of_mem _ (List.mem_map_of_mem (List.mem_of_getLast? found))

namespace State

variable {before after : State}

/-- No record is newer than the registry. -/
structure Dated (state : State) : Prop where
  hosts : ∀ (key : String) (host : Host), state.hosts.id[key]? = some host →
    host.times.Within state.index
  shards : ∀ id shard, state.shard id = some shard → shard.times.Within state.index
  replicas : ∀ id replica, state.replica id = some replica → replica.times.Within state.index

/-- No identifier in use is beyond its counter, and no counter beyond the index. -/
structure Orderly (state : State) : Prop extends State.Dated state where
  identifiers : state.topology.Within state.index

/-- Records that stay keep their creation times, and update times only grow. -/
structure Ages (before after : State) : Prop where
  index : before.index ≤ after.index
  hosts : ∀ (key : String) (old new : Host), before.hosts.id[key]? = some old →
    after.hosts.id[key]? = some new → new.created = old.created ∧ old.updated ≤ new.updated
  shards : ∀ id old new, before.shard id = some old → after.shard id = some new →
    new.created = old.created ∧ old.updated ≤ new.updated
  replicas : ∀ id old new, before.replica id = some old → after.replica id = some new →
    new.created = old.created ∧ old.updated ≤ new.updated

/-- The replica records of a shard. -/
def replicasOf (state : State) (shardID : ℕ) : Set Replica :=
  { replica | state.replica replica.id = some replica ∧ replica.shardID = shardID }

/-- The replica records on a host. Two texts of one identifier name one host. -/
def replicasOn (state : State) (hostID : String) : Set Replica :=
  { replica | state.replica replica.id = some replica ∧ uuidKey replica.hostID = uuidKey hostID }

/-- What an entry announces through update times. -/
structure Announced (before : State) (entry : Entry) (after : State) : Prop where
  /-- A change of the replicas of a shard, to the shard. -/
  replicasOf : ∀ shardID, before.replicasOf shardID ≠ after.replicasOf shardID →
    ∀ shard, after.shard shardID = some shard → shard.updated = entry.index
  /-- A change of the replicas on a host, to the host. -/
  replicasOn : ∀ hostID, before.replicasOn hostID ≠ after.replicasOn hostID →
    ∀ host, after.host hostID = .ok (some host) → host.updated = entry.index
  /-- A put or a tag command that changes a host, to the shards with a replica on it. -/
  hosts : ∀ action host, entry.cmd = .host action host → action = .put ∨ action.tagFn.isSome →
    ∀ hostID, before.host hostID ≠ after.host hostID → ∀ replica ∈ after.replicasOn hostID,
      ∀ shard, after.shard replica.shardID = some shard → shard.updated = entry.index
  /-- A put, a status update or a tag command that changes a shard, to the hosts with a replica of it. -/
  shards : ∀ action shard, entry.cmd = .shard action shard →
    action = .put ∨ action = .statusUpdate ∨ action.tagFn.isSome →
    ∀ shardID, before.shard shardID ≠ after.shard shardID → ∀ replica ∈ after.replicasOf shardID,
      ∀ host, after.host replica.hostID = .ok (some host) → host.updated = entry.index

theorem orderly_empty : ({} : State).Orderly where
  hosts key host found := by simp [HostTable.empty] at found
  shards id shard found := by simp [State.shard, ShardTable.empty] at found
  replicas id replica found := by simp [State.replica, ReplicaTable.empty] at found
  identifiers := Fsm.within_empty

/-- A post takes an identifier beyond every one in use. -/
theorem vacant_of_within {state : State} {bound : ℕ} {entry : Entry}
    (within : state.topology.Within bound) (few : bound + entry.isPost.toNat < 2 ^ 64) :
    state.ledger.Vacant entry := by
  obtain ⟨shards, replicas, shardID, replicaID⟩ := within
  simp only [topology, Option.isSome_map] at shards replicas shardID replicaID
  constructor
  · intro shard cmd
    have post : entry.isPost.toNat = 1 := by simp [Entry.isPost, cmd]
    have fits : state.ledger.shardID + 1 < 2 ^ 64 := by simp only [ledger]; omega
    rw [Nat.mod_eq_of_lt fits]
    by_contra present
    exact absurd (shards _ (Option.isSome_iff_ne_none.mpr present)) (Nat.not_succ_le_self _)
  · intro replica cmd
    have post : entry.isPost.toNat = 1 := by simp [Entry.isPost, cmd]
    have fits : state.ledger.replicaID + 1 < 2 ^ 64 := by simp only [ledger]; omega
    rw [Nat.mod_eq_of_lt fits]
    by_contra present
    exact absurd (replicas _ (Option.isSome_iff_ne_none.mpr present)) (Nat.not_succ_le_self _)

end State

namespace Fsm

open State

variable {state next before after last : State} {entry : Entry} {log : List Entry}

/-- One entry with a later index that does not panic. -/
structure Advances (state : State) (entry : Entry) (next : State) : Prop where
  later : state.index < entry.index
  bounded : entry.index < 2 ^ 64
  applies : Applies state entry next

theorem Applies.index (applied : Applies state entry next) :
    next = state ∨ next.index = entry.index := by
  obtain ⟨result, updated⟩ := applied
  obtain ⟨-, same, -⟩ | ⟨middle, -, rfl, -⟩ := update_cases updated
  · exact .inl same
  · exact .inr rfl

/-- Along a numbered log the index of the registry stays behind the entries. -/
theorem path_of_numbered (numbered : Numbered log) (path : Path Applies {} log last) :
    Path Advances {} log last ∧ last.index ≤ lastIndex log := by
  induction path with
  | nil => exact ⟨.nil, le_rfl⟩
  | @snoc log middle last entry before applied ih =>
    obtain ⟨path, behind⟩ := ih numbered.of_append
    obtain ⟨later, bounded⟩ := numbered.last
    have last : lastIndex (log ++ [entry]) = entry.index := by simp [lastIndex]
    refine ⟨.snoc path ⟨by omega, bounded, applied⟩, ?_⟩
    obtain rfl | moved := applied.index
    · omega
    · omega

theorem advances_of_numbered {front back : List Entry} (numbered : Numbered (front ++ entry :: back))
    (path : Path Applies {} front before) (applied : Applies before entry after) :
    Path Advances {} front before ∧ Advances before entry after := by
  rw [← List.singleton_append, ← List.append_assoc] at numbered
  obtain ⟨later, bounded⟩ := numbered.of_append.last
  obtain ⟨reached, behind⟩ := path_of_numbered numbered.of_append.of_append path
  exact ⟨reached, by omega, bounded, applied⟩

theorem Advances.vacant (advances : Advances state entry next) (orderly : state.Orderly) :
    state.ledger.Vacant entry := by
  have later := advances.later
  have bounded := advances.bounded
  have post : entry.isPost.toNat ≤ 1 := Bool.toNat_le _
  exact vacant_of_within orderly.identifiers (by omega)

private theorem within_of_restamp {α : Type} {times : α → Times} {index clock : ℕ}
    {old : Option α} {new : α} (restamp : Restamp index (old.map times) (some (times new)))
    (within : ∀ record, old = some record → (times record).Within clock) (later : clock < index) :
    (times new).Within index := by
  refine restamp.within (fun stamped found => ?_) later.le
  obtain ⟨record, stored, rfl⟩ := Option.map_eq_some_iff.mp found
  exact within record stored

theorem Advances.orderly (advances : Advances state entry next) (orderly : state.Orderly) :
    next.Orderly := by
  have vacant := advances.vacant orderly
  obtain ⟨later, bounded, result, updated⟩ := advances
  obtain ⟨-, rfl, -⟩ | ⟨middle, -, moved, -⟩ := update_cases updated
  · exact orderly
  · have index : next.index = entry.index := congrArg State.index moved
    have step := update_ledger updated
    have post : entry.isPost.toNat ≤ 1 := Bool.toNat_le _
    refine ⟨⟨fun key host found => ?_, fun id shard found => ?_, fun id replica found => ?_⟩, ?_⟩
    · have restamp := step.restamp_host key
      rw [show next.ledger.hosts key = some host from found] at restamp
      rw [index]
      exact within_of_restamp restamp (orderly.hosts key) later
    · have restamp := step.restamp_shard vacant id
      rw [show next.ledger.shards id = some shard from found] at restamp
      rw [index]
      exact within_of_restamp restamp (orderly.shards id) later
    · have restamp := step.restamp_replica vacant id
      rw [show next.ledger.replicas id = some replica from found] at restamp
      rw [index]
      exact within_of_restamp restamp (orderly.replicas id) later
    · obtain ⟨within, -, -⟩ := (update_refines updated).within orderly.identifiers (by omega)
      exact ⟨within.shards, within.replicas, within.shardID.trans (by omega),
        within.replicaID.trans (by omega)⟩

theorem Advances.ages (advances : Advances state entry next) (orderly : state.Orderly) :
    state.Ages next := by
  have vacant := advances.vacant orderly
  obtain ⟨later, bounded, result, updated⟩ := advances
  have step := update_ledger updated
  refine ⟨?_, fun key old new stored found => ?_, fun id old new stored found => ?_,
    fun id old new stored found => ?_⟩
  · obtain rfl | moved := Applies.index ⟨result, updated⟩
    · exact le_rfl
    · exact moved ▸ later.le
  · have restamp := step.restamp_host key
    rw [show state.ledger.hosts key = some old from stored,
      show next.ledger.hosts key = some new from found] at restamp
    exact restamp.ages (orderly.hosts key old stored) later.le
  · have restamp := step.restamp_shard vacant id
    rw [show state.ledger.shards id = some old from stored,
      show next.ledger.shards id = some new from found] at restamp
    exact restamp.ages (orderly.shards id old stored) later.le
  · have restamp := step.restamp_replica vacant id
    rw [show state.ledger.replicas id = some old from stored,
      show next.ledger.replicas id = some new from found] at restamp
    exact restamp.ages (orderly.replicas id old stored) later.le

theorem orderly_of_path (path : Path Advances state log last) (orderly : state.Orderly) :
    last.Orderly :=
  path.invariant orderly fun _ _ _ _ held advances => advances.orderly held

/-- Along every numbered log no record is newer than the registry, the registry is not newer than the
last entry, and no time runs backwards. -/
theorem index_bookkeeping (numbered : Numbered log) :
    Always Applies {} log State.Dated ∧
      (∀ last, Path Applies {} log last → last.index ≤ lastIndex log) ∧
      AlwaysStep Applies {} log fun before entry =>
        ∀ after, Applies before entry after → before.Ages after := by
  refine ⟨?_, fun last path => (path_of_numbered numbered path).2, ?_⟩
  · intro front back state split path
    subst split
    exact (orderly_of_path (path_of_numbered numbered.of_append path).1 orderly_empty).toDated
  · intro front entry back before split path after applied
    subst split
    obtain ⟨reached, advances⟩ := advances_of_numbered numbered path applied
    exact advances.ages (orderly_of_path reached orderly_empty)

/-- A host, an entry that does not decode, and a replica on the host. -/
def datedLog : List Entry :=
  [{ index := 1, cmd := .host .put exampleHost }, { index := 2, cmd := .invalid },
    { index := 4, cmd := newCmdReplicaPost exampleHost.id 0 false }]

/-- The replica touches its host, which keeps its creation time. -/
theorem dated_registry :
    ∃ last host, Path Applies {} datedLog last ∧ last.host exampleHost.id = .ok (some host) ∧
      host.created = 1 ∧ host.updated = 4 ∧ last.Dated := by
  have numbered : Numbered datedLog := ⟨by decide, by decide⟩
  have path : ∃ last host, Path Applies {} datedLog last ∧
      last.host exampleHost.id = .ok (some host) ∧ host.created = 1 ∧ host.updated = 4 :=
    ⟨_, _, path_iff_run.mpr ⟨_, rfl⟩, rfl, rfl, rfl⟩
  obtain ⟨last, host, path, found, created, updated⟩ := path
  exact ⟨last, host, path, found, created, updated, (index_bookkeeping numbered).1.last path⟩

section Announcements

theorem within_of_path_applies (path : Path Applies {} log last)
    (few : log.countP Entry.isPost < 2 ^ 64) : last.topology.Within (log.countP Entry.isPost) := by
  induction path with
  | nil => exact within_empty
  | @snoc log middle last entry before applied ih =>
    obtain ⟨result, updated⟩ := applied
    have counted : [entry].countP Entry.isPost = entry.isPost.toNat := by
      cases post : entry.isPost <;> simp [post]
    rw [List.countP_append, counted] at few ⊢
    exact ((update_refines updated).within (ih (by omega)) few).1

private theorem replica_differs {chosen : Replica → Prop}
    (differs : { replica | before.replica replica.id = some replica ∧ chosen replica } ≠
      { replica | after.replica replica.id = some replica ∧ chosen replica }) :
    ∃ replica, chosen replica ∧ (before.ledger.replicas replica.id = some replica ∨
      after.ledger.replicas replica.id = some replica) ∧
      after.ledger.replicas replica.id ≠ before.ledger.replicas replica.id := by
  by_contra same
  push Not at same
  refine differs (Set.ext fun replica => ⟨fun ⟨stored, holds⟩ => ?_, fun ⟨stored, holds⟩ => ?_⟩)
  · exact ⟨(same replica holds (.inl stored)).trans stored, holds⟩
  · exact ⟨(same replica holds (.inr stored)).symm.trans stored, holds⟩

/-- A deletion of a host finds no replica of another host, unless that host is marked already. -/
def SparesStrays (state : State) (entry : Entry) : Prop :=
  (∃ host, entry.cmd = .host .del host) → ∀ replica host, state.replica replica.id = some replica →
    state.ledger.Strays entry replica → state.host replica.hostID = .ok (some host) → host.updated = entry.index

theorem sparesStrays_of_announced (step : before.ledger.Step entry after.ledger)
    (announced : before.Announced entry after) : SparesStrays before entry := by
  rintro ⟨deleted, cmd⟩ replica host stored ⟨key, writes, scanned, foreign⟩ found
  obtain ⟨other, own, looked⟩ := host_eq_ok_iff.mp found
  obtain ⟨dropped, kept⟩ := step.scanned_dropped cmd writes
  have remains : after.host replica.hostID = .ok (some host) := by
    refine host_eq_ok_iff.mpr ⟨other, own, (kept other ?_).trans looked⟩
    rintro rfl
    exact foreign own
  refine announced.replicasOn replica.hostID (fun same => ?_) host remains
  have member : replica ∈ after.replicasOn replica.hostID := same ▸ ⟨stored, rfl⟩
  exact dropped replica.id replica scanned member.1

theorem SparesStrays.replicasOn (spared : SparesStrays before entry) (step : before.ledger.Step entry after.ledger)
    (vacant : before.ledger.Vacant entry) (put : ∀ replica, entry.cmd ≠ .replica .put replica) {hostID : String}
    (differs : before.replicasOn hostID ≠ after.replicasOn hostID) {host : Host}
    (found : after.host hostID = .ok (some host)) : host.updated = entry.index := by
  obtain ⟨key, parsed, stored⟩ := host_eq_ok_iff.mp found
  obtain ⟨replica, onHost, version, changed⟩ := replica_differs differs
  rw [parsed] at onHost
  obtain ⟨-, marked | ⟨⟨deleted, cmd⟩, ⟨other, writes, scanned, foreign⟩, gone⟩⟩ :=
    step.replica_announced vacant put version changed
  · exact marked key host onHost stored
  · -- The host is not the one that was deleted, so it was there before.
    have was : before.replica replica.id = some replica := by
      refine version.resolve_right fun present => ?_
      cases gone.symm.trans present
    have unmoved := (step.scanned_dropped cmd writes).2 key fun same => foreign (same ▸ onHost)
    exact spared ⟨deleted, cmd⟩ replica host was ⟨other, writes, scanned, foreign⟩
      (host_eq_ok_iff.mpr ⟨key, onHost, unmoved.symm.trans stored⟩)

/-- Every change of a replica reaches the update times of its shard and its host, every change of a host
by a put or a tag command those of the shards on it, and every change of a shard by a put, a status
update or a tag command those of its hosts, exactly if no host is deleted with a replica of another. -/
theorem changes_announced_iff {results : List Result} {result : Result}
    (ran : run {} log = .ok (before, results)) (applied : update before entry = .ok (after, result))
    (few : (log ++ [entry]).countP Entry.isPost < 2 ^ 64)
    (put : ∀ replica, entry.cmd ≠ .replica .put replica) :
    before.Announced entry after ↔ SparesStrays before entry := by
  have path : Path Applies {} log before := path_iff_run.mpr ⟨results, ran⟩
  have step := update_ledger applied
  have counted : [entry].countP Entry.isPost = entry.isPost.toNat := by
    cases post : entry.isPost <;> simp [post]
  rw [List.countP_append, counted] at few
  have vacant := vacant_of_within (within_of_path_applies path (by omega)) few
  refine ⟨sparesStrays_of_announced step, fun spared => ⟨?_, ?_, ?_, ?_⟩⟩
  · intro shardID differs shard found
    obtain ⟨replica, rfl, version, changed⟩ := replica_differs differs
    exact (step.replica_announced vacant put version changed).1 shard found
  · exact fun hostID differs host found => spared.replicasOn step vacant put differs found
  · rintro action host cmd - hostID differs replica ⟨stored, onHost⟩ shard found
    have listed := step.replica_of_owner (fun _ _ other => by cases cmd.symm.trans other) stored
    cases parsed : uuidKey hostID with
    | none => simp [State.host, parsed] at differs
    | some key =>
      have changed : after.ledger.hosts key ≠ before.ledger.hosts key := by
        simpa [State.host, State.ledger, parsed, eq_comm] using differs
      exact step.host_announced cmd changed listed (onHost.trans parsed) shard found
  · rintro action shard cmd kind shardID differs replica ⟨stored, ofShard⟩ host found
    have listed := step.replica_of_owner (fun _ _ other => by cases cmd.symm.trans other) stored
    obtain ⟨key, parsed, looked⟩ := host_eq_ok_iff.mp found
    have post : action ≠ .post := by rintro rfl; simp [Action.tagFn] at kind
    have leaderSet : action ≠ .leaderSet := by rintro rfl; simp [Action.tagFn] at kind
    exact step.shard_announced cmd post leaderSet (Ne.symm differs) listed ofShard key host parsed looked

/-- A host whose identifier has no hyphens, and starts with the digits of the example's. -/
def longHost : Host := { id := "000000000000400080000000000000010000", tags := some ∅ }

/-- Both hosts, and a replica on the one with the longer key. -/
def strayLog : List Entry :=
  [{ index := 1, cmd := .host .put exampleHost }, { index := 2, cmd := .host .put longHost },
    { index := 3, cmd := newCmdShardPost { name := "kv" } },
    { index := 4, cmd := newCmdReplicaPost longHost.id 1 false }]

/-- The replica of the registry after these entries. -/
def strayReplica : Replica :=
  { id := 1, created := 4, updated := 4, status := .bootstrapping, hostID := longHost.id, shardID := 1 }

def deletion (host : Host) : Entry := { index := 5, cmd := newCmdHostDel host.id }

/-- The replicas before a host is deleted and the replica afterwards, with the update times of its shard and host. -/
def strayOutcome (host : Host) : Option (List Replica × Option Replica × Option ℕ × Option ℕ) := do
  let (before, _) ← (run {} strayLog).toOption
  let (after, _) ← (update before (deletion host)).toOption
  return (before.replicaIterate, after.replica 1, (after.shard 1).map Shard.updated,
    (after.host longHost.id).toOption.join.map Host.updated)

theorem reached_of_strayOutcome {host : Host} {replicas : List Replica} {replica : Option Replica}
    {shardTime hostTime : Option ℕ} (evaluated : strayOutcome host = some (replicas, replica, shardTime, hostTime)) :
    ∃ before results after result, run {} strayLog = .ok (before, results) ∧
      update before (deletion host) = .ok (after, result) ∧ before.replicaIterate = replicas ∧
      after.replica 1 = replica ∧ (after.shard 1).map Shard.updated = shardTime ∧
      (after.host longHost.id).toOption.join.map Host.updated = hostTime := by
  simp only [strayOutcome, Option.bind_eq_bind, Option.bind_eq_some_iff, ExceptFold.toOption_eq_some_iff] at evaluated
  obtain ⟨⟨before, results⟩, ran, ⟨after, result⟩, updated, same⟩ := evaluated
  cases same
  exact ⟨before, results, after, result, ran, updated, rfl, rfl, rfl, rfl⟩

theorem replica_of_singleton (only : before.replicaIterate = [strayReplica]) : before.replica 1 = some strayReplica :=
  mem_replicaIterate.mp (only ▸ List.mem_singleton_self _)

/-- The host with the longer key is deleted together with its replica, and the shard hears of it. -/
theorem own_host_deleted :
    ∃ before results after result shard, run {} strayLog = .ok (before, results) ∧
      update before (deletion longHost) = .ok (after, result) ∧ after.replica 1 = none ∧
      after.shard 1 = some shard ∧ shard.updated = 5 := by
  have evaluated : strayOutcome longHost = some ([strayReplica], none, some 5, none) := by decide +kernel
  obtain ⟨before, results, after, result, ran, updated, only, dropped, marked, -⟩ := reached_of_strayOutcome evaluated
  obtain ⟨shard, found, -⟩ := Option.map_eq_some_iff.mp marked
  refine ⟨before, results, after, result, shard, ran, updated, dropped, found, ?_⟩
  refine ((changes_announced_iff ran updated (by decide) (by simp [deletion, newCmdHostDel])).mpr ?_).replicasOf 1
    (fun same => ?_) shard found
  · rintro - replica host stored ⟨key, ⟨action, named, is, parsed, -⟩, -, foreign⟩ -
    have member := mem_replicaIterate.mpr stored
    rw [only, List.mem_singleton] at member
    cases is
    subst member
    exact absurd parsed foreign
  · have member : strayReplica ∈ after.replicasOf 1 := same ▸ ⟨replica_of_singleton only, rfl⟩
    cases dropped.symm.trans member.1

/-- The scan for the key of the deleted host finds the replica, and its own host keeps its update time. -/
theorem stray_evaluates : strayOutcome exampleHost = some ([strayReplica], none, some 5, some 4) := by
  decide +kernel

theorem stray_replica_unannounced :
    ∃ before results after result, run {} strayLog = .ok (before, results) ∧
      update before (deletion exampleHost) = .ok (after, result) ∧
      ¬ before.Announced (deletion exampleHost) after := by
  obtain ⟨before, results, after, result, ran, updated, only, dropped, -, unmarked⟩ :=
    reached_of_strayOutcome stray_evaluates
  refine ⟨before, results, after, result, ran, updated, fun announced => ?_⟩
  have differs : before.replicasOn longHost.id ≠ after.replicasOn longHost.id := by
    intro same
    have member : strayReplica ∈ after.replicasOn longHost.id := same ▸ ⟨replica_of_singleton only, rfl⟩
    cases dropped.symm.trans member.1
  obtain ⟨host, found, early⟩ := Option.map_eq_some_iff.mp unmarked
  rw [Option.join_eq_some_iff, ExceptFold.toOption_eq_some_iff] at found
  cases early.symm.trans (announced.replicasOn longHost.id differs host found)

end Announcements

section Deltas

/-- Every shard of a later state that differs from its record in an earlier state, or was not there, is
visited from the index of the earlier state on. -/
def DeltasComplete (log : List Entry) : Prop :=
  ∀ front middle back earlier later, log = front ++ middle ++ back → Path Applies {} front earlier →
    Path Applies earlier middle later → ∀ id shard, later.shard id = some shard →
      earlier.shard id ≠ some shard → shard ∈ later.shardIterateUpdatedAfter earlier.index

/-- A shard tag command names no tag that it would change. -/
def KeepsTags (state : State) (entry : Entry) : Prop :=
  ∀ action cmd stored, entry.cmd = .shard action cmd → state.shard cmd.id = some stored →
    Agrees action stored.tags cmd.tags

/-- The shards of a registry under their update times. -/
def shardTracking : Tracking State ℕ (Option Shard) where
  clock := State.index
  stamp state id := (state.shard id).map Shard.updated
  view := State.shard
  keeps := Eq

/-- Steps whose tag commands change no shard announce every change of a shard. -/
theorem shardTracking_tracks : shardTracking.Tracks fun before after =>
    ∃ entry, Advances before entry after ∧ KeepsTags before entry where
  refl _ := rfl
  trans := Eq.trans
  clock := by
    rintro before after ⟨entry, advances, -⟩
    obtain rfl | moved := advances.applies.index
    · exact le_rfl
    · exact (advances.later.le).trans moved.ge
  stamps := by
    rintro before after id time ⟨entry, ⟨later, -, result, updated⟩, keeps⟩ stamped
    obtain ⟨shard, found, rfl⟩ := Option.map_eq_some_iff.mp stamped
    obtain fresh | same | ⟨stored, tags, present, retags, rfl⟩ := (update_ledger updated).shard_delta found
    · exact .inl (fresh ▸ later)
    · have same : before.shard id = some shard := same
      exact .inr ⟨by simp [shardTracking, same], same.trans found.symm⟩
    · obtain ⟨action, cmd, fn, is, rfl, tagFn, done⟩ := retags
      have unchanged := (tags_eq_iff_agrees tagFn done).mpr (keeps action cmd stored is present)
      subst unchanged
      have same : before.shard cmd.id = some stored := present
      exact .inr ⟨by simp [shardTracking, same], same.trans found.symm⟩

/-- A tag action leaves what its function returns, also where the function wrote nothing. -/
theorem shard_of_shardTagAction {fn : TagFn} {cmd stored : Shard} {result : Result} {action : Action}
    (tagFn : action.tagFn = some fn) (found : state.shard cmd.id = some stored)
    (applied : shardTagAction fn state entry cmd = .ok (next, result)) :
    ∃ tags changed, fn stored.tags cmd.tags = .ok (tags, changed) ∧
      next.shard cmd.id = some { stored with tags } := by
  unfold shardTagAction at applied
  simp only [found, ExceptFold.bind_eq_ok_iff] at applied
  obtain ⟨⟨tags, written⟩, done, applied⟩ := applied
  refine ⟨tags, written, done, ?_⟩
  cases written with
  | false =>
    obtain ⟨rfl, -⟩ := accept_eq_ok_iff.mp applied
    rw [tags_of_unwritten tagFn done, found]
  | true =>
    simp only [↓reduceIte, ExceptFold.bind_eq_ok_iff] at applied
    obtain ⟨middle, -, applied⟩ := applied
    obtain ⟨rfl, -⟩ := accept_eq_ok_iff.mp applied
    rw [shard_shardPut, if_pos (shard_id found)]

theorem shard_of_tagFn {action : Action} {fn : TagFn} {cmd stored : Shard}
    (applied : Applies state entry next) (is : entry.cmd = .shard action cmd)
    (tagFn : action.tagFn = some fn) (found : state.shard cmd.id = some stored) :
    ∃ tags changed, fn stored.tags cmd.tags = .ok (tags, changed) ∧
      next.shard cmd.id = some { stored with tags } := by
  obtain ⟨result, updated⟩ := applied
  obtain ⟨invalid, -, -⟩ | ⟨middle, applied, rfl, -⟩ := update_cases updated
  · cases is.symm.trans invalid
  · simp only [apply, is, shardUpdate] at applied
    change ∃ tags changed, _ ∧ middle.shard cmd.id = _
    cases action with
    | tagsSet =>
      obtain rfl := Option.some.inj tagFn
      exact shard_of_shardTagAction tagFn found applied
    | tagsSetNX =>
      obtain rfl := Option.some.inj tagFn
      exact shard_of_shardTagAction tagFn found applied
    | tagsRemove =>
      obtain rfl := Option.some.inj tagFn
      exact shard_of_shardTagAction tagFn found applied
    | _ => cases tagFn

/-- Part of a numbered log whose tag commands change no shard, as steps that announce every change. -/
private theorem reach_of_path {front middle back : List Entry} (numbered : Numbered (front ++ middle ++ back))
    (keeps : AlwaysStep Applies {} (front ++ middle ++ back) KeepsTags)
    (reached : Path Applies {} front before) (onwards : Path Applies before middle after) :
    Relation.ReflTransGen (fun before after => ∃ entry, Advances before entry after ∧
      KeepsTags before entry) before after := by
  induction onwards generalizing back with
  | nil => exact .refl
  | @snoc middle source target entry onwards applied ih =>
    have split : front ++ (middle ++ [entry]) ++ back = front ++ middle ++ entry :: back := by simp
    rw [split] at numbered keeps
    have path : Path Applies {} (front ++ middle) source := Path.append_iff.mpr ⟨before, reached, onwards⟩
    obtain ⟨-, advances⟩ := advances_of_numbered numbered path applied
    exact (ih numbered keeps).tail ⟨entry, advances, keeps _ entry back source rfl path⟩

/-- The shard deltas of a numbered log are complete exactly when no tag command changes a shard. -/
theorem deltas_complete_iff (numbered : Numbered log) {results : List Result}
    (ran : run {} log = .ok (last, results)) :
    DeltasComplete log ↔ AlwaysStep Applies {} log KeepsTags := by
  have path : Path Applies {} log last := path_iff_run.mpr ⟨results, ran⟩
  constructor
  · intro complete front entry back before split reached action cmd stored is found
    cases tagFn : action.tagFn with
    | none =>
      intro key value named
      cases action with
      | tagsSet => cases tagFn
      | tagsSetNX => cases tagFn
      | tagsRemove => cases tagFn
      | _ => trivial
    | some fn =>
      subst split
      obtain ⟨_, after, left, applied, -⟩ := path.cut
      cases left.deterministic applies_determined reached
      obtain ⟨tags, changed, done, written⟩ := shard_of_tagFn applied is tagFn found
      refine (tags_eq_iff_agrees tagFn done).mp ?_
      by_contra differs
      -- The command did not move the update time, which is behind the index of the state before.
      have changed : before.shard cmd.id ≠ some { stored with tags } := by
        rw [found]
        intro same
        exact differs (congrArg Shard.tags (Option.some.inj same)).symm
      have visited := complete front [entry] back before after (by simp) reached
        (Path.singleton_iff.mpr applied) cmd.id _ written changed
      obtain ⟨-, late⟩ := mem_shardIterateUpdatedAfter.mp visited
      obtain ⟨advancing, later, bounded, -⟩ := advances_of_numbered numbered reached applied
      obtain ⟨-, early⟩ := (orderly_of_path advancing orderly_empty).shards cmd.id stored found
      rw [Nat.mod_eq_of_lt (by omega)] at late
      exact absurd (early : stored.updated ≤ before.index) (Nat.not_le.mpr late)
  · intro keeps front middle back earlier later split reached onwards id shard found differs
    subst split
    have steps := reach_of_path numbered keeps reached onwards
    refine mem_shardIterateUpdatedAfter.mpr ⟨(shard_id found).symm ▸ found, ?_⟩
    by_contra early
    have stamped : shardTracking.stamp later id = some shard.updated := by simp [shardTracking, found]
    have within : shard.updated ≤ shardTracking.clock earlier := by
      have wrapped := Nat.mod_le (earlier.index + 1) (2 ^ 64)
      simp only [shardTracking]
      omega
    obtain ⟨-, same⟩ := shardTracking_tracks.unchanged steps stamped within
    exact differs (same.trans found)

/-- A shard is posted and gets a leader. -/
theorem deltas_of_led_shard :
    DeltasComplete [{ index := 1, cmd := newCmdShardPost { name := "a" } },
      { index := 2, cmd := newCmdShardLeaderSet 1 1 1 }] := by
  refine (deltas_complete_iff ⟨by decide, by decide⟩ rfl).mpr ?_
  intro front entry back state split reached action cmd stored is found key value named
  have member : entry ∈ front ++ entry :: back := by simp
  rw [← split, List.mem_cons, List.mem_singleton] at member
  obtain rfl | rfl := member
  all_goals
    cases is
    trivial

/-- A shard is posted and gets a tag. -/
def retagLog : List Entry :=
  [{ index := 1, cmd := newCmdShardPost { name := "a", tags := some ∅ } },
    { index := 2, cmd := newCmdTagsSet (.shard { id := 1 }) ["placement:member=3"] }]

/-- The shard after the tag command differs from the one before it, whose index is one, and is not
visited. -/
theorem retagged_shard_is_missed :
    Numbered retagLog ∧ (∃ last results, run {} retagLog = .ok (last, results)) ∧
      ¬ DeltasComplete retagLog := by
  refine ⟨⟨by decide, by decide⟩, ⟨_, _, rfl⟩, fun complete => ?_⟩
  have visited := complete [_] [_] [] _ _ rfl (Path.singleton_iff.mpr ⟨_, rfl⟩)
    (Path.singleton_iff.mpr ⟨_, rfl⟩) 1 _ rfl (by decide)
  exact absurd (mem_shardIterateUpdatedAfter.mp visited).2 (by decide)

end Deltas

end Fsm

end Zongzi
