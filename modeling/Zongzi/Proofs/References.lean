import Zongzi.Proofs.Runs
import Zongzi.Spec.TopologyInvariants

/-! # Replicas and their hosts

The state machine panics when it announces a change to a host that is missing. Every loop that
announces changes goes over replicas of the table, so the panic is unreachable while every replica's
host exists, and the topology keeps that. Only a replica post or put names a host of its own.
-/

namespace Zongzi

open Std ExceptFold Machine

/-- The canonical text of a parsed identifier: five groups of digits joined by hyphens. -/
def uuidText (key : String) : String :=
  let digits := key.toList
  String.ofList (digits.take 8 ++ '-' :: (digits.drop 8).take 4 ++ '-' :: (digits.drop 12).take 4 ++
    '-' :: (digits.drop 16).take 4 ++ '-' :: digits.drop 20)

/-- A UUID in canonical form. -/
def CanonicalUUID (text : String) : Prop := (uuidKey text).map uuidText = some text

instance (text : String) : Decidable (CanonicalUUID text) :=
  inferInstanceAs (Decidable (_ = _))

theorem CanonicalUUID.unique {left right : String} (first : CanonicalUUID left)
    (second : CanonicalUUID right) (same : uuidKey left = uuidKey right) : left = right := by
  unfold CanonicalUUID at first second
  rw [same, second] at first
  exact (Option.some.inj first).symm

theorem CanonicalUUID.length {text key : String} (canonical : CanonicalUUID text) (parsed : uuidKey text = some key) :
    key.toList.length = 32 := by
  have long : text.toList.length = 36 := (Option.ite_none_right_eq_some.mp parsed).1.1
  rw [CanonicalUUID, parsed, Option.map_some, Option.some.injEq] at canonical
  rw [← canonical] at long
  simp only [uuidText, String.toList_ofList, List.length_append, List.length_cons, List.length_take, List.length_drop]
    at long
  omega

/-- Where identifiers are canonical, a scan finds the replicas of its host only. -/
theorem CanonicalUUID.of_scans {text key hostID : String} {id : ℕ} (canonical : CanonicalUUID text)
    (parsed : uuidKey text = some key) (other : CanonicalUUID hostID) (scanned : Scans key hostID id) :
    uuidKey hostID = some key := by
  have ⟨own, found, _⟩ := scanned
  have same := (scans_iff_of_length found ((canonical.length parsed).trans (other.length found).symm)).mp scanned
  exact same ▸ found

/-- Every panic but the one in `hostTouch`. -/
def Panic.IsNotDangling (panic : Panic) : Prop := ∀ id, panic ≠ .hostNotFound id

namespace State

variable {state next : State}

theorem host_fails (state : State) (id : String) : FailsOnly Panic.IsNotDangling (state.host id) := by
  unfold State.host
  split
  · exact .error fun _ => by simp
  · exact .ok _

theorem hostPut_fails (state : State) (host : Host) :
    FailsOnly Panic.IsNotDangling (state.hostPut host) := by
  unfold hostPut
  split
  · exact .error fun _ => by simp
  · exact .ok _

theorem hostDelete_fails (state : State) (host : Host) :
    FailsOnly Panic.IsNotDangling (state.hostDelete host) := by
  unfold hostDelete
  split
  · exact .error fun _ => by simp
  · exact .ok _

theorem replicaPut_fails (state : State) (replica : Replica) :
    FailsOnly Panic.IsNotDangling (state.replicaPut replica) := by
  unfold replicaPut
  split
  · exact .ok _
  · exact .error fun _ => by simp

theorem replicaIterateByHostID_fails (state : State) (hostID : String) :
    FailsOnly Panic.IsNotDangling (state.replicaIterateByHostID hostID) := by
  unfold replicaIterateByHostID
  split
  · exact .error fun _ => by simp
  · exact .ok _

/-- Touching a host that exists succeeds. -/
theorem hostTouch_succeeds {id : String} (hosted : state.topology.Hosts id) (index : ℕ) :
    ∃ next, state.hostTouch id index = .ok next ∧ next.topology = state.topology := by
  obtain ⟨key, parsed, present⟩ := hosted
  obtain ⟨host, found⟩ := Option.isSome_iff_exists.mp (Option.isSome_map ▸ present)
  have valid := state.hosts.keyed key host found
  have touched : state.hostTouch id index = .ok { state with
      hosts := state.hosts.insert { host with updated := index } key valid } :=
    hostTouch_eq_ok_iff.mpr ⟨key, host, parsed, found, hostPut_eq_ok_iff.mpr ⟨key, valid, rfl⟩⟩
  exact ⟨_, touched, topology_hostTouch touched⟩

theorem hosts_of_mem (hosted : state.topology.Hosted) {replica : Replica}
    (member : replica ∈ state.replicaIterate) : state.topology.Hosts replica.hostID :=
  hosted replica.id replica.placement (by simp [topology, mem_replicaIterate.mp member])

end State

namespace Fsm

open State

variable {state next : State} {entry : Entry} {result : Result}

section Loops

/-- Announcing to hosts that exist succeeds. -/
theorem touchHosts_succeeds {replicas : List Replica}
    (hosted : ∀ replica ∈ replicas, state.topology.Hosts replica.hostID) (index : ℕ) :
    ∃ next, touchHosts state replicas index = .ok next ∧ next.topology = state.topology := by
  apply foldlM_succeeds fun middle : State => middle.topology = state.topology
  · rfl
  · intro replica member before same
    have there := hosted replica member
    rw [← same] at there
    obtain ⟨after, touched, kept⟩ := hostTouch_succeeds there index
    exact ⟨after, touched, kept.trans same⟩

theorem touchHosts_fails {replicas : List Replica}
    (hosted : ∀ replica ∈ replicas, state.topology.Hosts replica.hostID) (index : ℕ) :
    FailsOnly Panic.IsNotDangling (touchHosts state replicas index) := by
  obtain ⟨next, touched, -⟩ := touchHosts_succeeds hosted index
  exact .of_succeeds touched

theorem touchOwners_succeeds {replica : Replica} (hosted : state.topology.Hosts replica.hostID) (index : ℕ) :
    ∃ next, touchOwners state replica index = .ok next := by
  obtain ⟨next, touched, -⟩ := hostTouch_succeeds hosted index
  exact ⟨_, bind_eq_ok_iff.mpr ⟨next, touched, rfl⟩⟩

theorem touchOwners_fails {replica : Replica} (hosted : state.topology.Hosts replica.hostID)
    (index : ℕ) : FailsOnly Panic.IsNotDangling (touchOwners state replica index) := by
  obtain ⟨next, touched⟩ := touchOwners_succeeds hosted index
  exact .of_succeeds touched

/-- Dropping replicas does not drop hosts, so each announcement of the loop succeeds. -/
theorem dropOfShard_fails {replicas : List Replica}
    (hosted : ∀ replica ∈ replicas, state.topology.Hosts replica.hostID) (index : ℕ) :
    FailsOnly Panic.IsNotDangling (replicas.foldlM (fun state replica =>
      (state.replicaDelete replica).hostTouch replica.hostID index) state) := by
  have succeeds : ∃ next, replicas.foldlM (fun state replica =>
      (state.replicaDelete replica).hostTouch replica.hostID index) state = .ok next ∧
      next.topology.hosts = state.topology.hosts := by
    apply foldlM_succeeds fun middle : State => middle.topology.hosts = state.topology.hosts
    · rfl
    · intro replica member before same
      have dropped : (before.replicaDelete replica).topology.hosts = state.topology.hosts := same
      have there : (before.replicaDelete replica).topology.Hosts replica.hostID := by
        unfold Topology.Hosts
        rw [dropped]
        exact hosted replica member
      obtain ⟨after, touched, kept⟩ := hostTouch_succeeds there index
      exact ⟨after, touched, by rw [kept]; exact dropped⟩
  obtain ⟨next, touched, -⟩ := succeeds
  exact .of_succeeds touched

end Loops

section Tags

/-- Tag functions only fail on a nil map. -/
def OnlyNilMap (fn : TagFn) : Prop := ∀ new old, FailsOnly Panic.IsNotDangling (fn new old)

theorem assign_fails (tags : Tags) (key value : String) :
    FailsOnly Panic.IsNotDangling (assign tags key value) := by
  cases tags with
  | none => exact .error fun _ => by simp
  | some tagMap => exact .ok _

theorem tagsSet_fails : OnlyNilMap tagsSet := by
  intro new old
  exact .foldlM (fun _ _ _ => .bind (assign_fails _ _ _) fun _ _ => .ok _) _

theorem tagsSetNX_fails : OnlyNilMap tagsSetNX := by
  intro new old
  refine .foldlM (fun _ _ state => ?_) _
  dsimp only
  split
  · exact .ok _
  · exact .bind (assign_fails _ _ _) fun _ _ => .ok _

theorem tagsRemove_fails : OnlyNilMap tagsRemove := fun _ _ => .ok _

end Tags

section Commands

variable {host : Host} {shard : Shard} {replica : Replica} {fn : TagFn}

theorem hostCmdPut_fails (state : State) (entry : Entry) (host : Host) :
    FailsOnly Panic.IsNotDangling (hostCmdPut state entry host) := by
  refine .bind (host_fails _ _) fun found _ => ?_
  cases found with
  | none =>
    refine .bind (.ok _) fun source _ => ?_
    refine .bind (replicaIterateByHostID_fails _ _) fun replicas _ => ?_
    exact .bind (hostPut_fails _ _) fun _ _ => .ok _
  | some old =>
    refine .bind (tagsSetNX_fails _ _) fun ⟨tags, _⟩ _ => ?_
    refine .bind (.ok _) fun source _ => ?_
    refine .bind (replicaIterateByHostID_fails _ _) fun replicas _ => ?_
    exact .bind (hostPut_fails _ _) fun _ _ => .ok _

theorem hostCmdDel_fails (state : State) (entry : Entry) (host : Host) :
    FailsOnly Panic.IsNotDangling (hostCmdDel state entry host) := by
  refine .bind (host_fails _ _) fun found _ => ?_
  cases found with
  | none => exact .ok _
  | some stored =>
    refine .bind (replicaIterateByHostID_fails _ _) fun replicas _ => ?_
    exact .bind (hostDelete_fails _ _) fun _ _ => .ok _

theorem hostTagAction_fails (only : OnlyNilMap fn) (state : State) (entry : Entry) (host : Host) :
    FailsOnly Panic.IsNotDangling (hostTagAction fn state entry host) := by
  refine .bind (host_fails _ _) fun found _ => ?_
  cases found with
  | none => exact .ok _
  | some stored =>
    refine .bind (only _ _) fun ⟨tags, written⟩ _ => ?_
    cases written with
    | false => exact .ok _
    | true =>
      refine .bind (replicaIterateByHostID_fails _ _) fun replicas _ => ?_
      exact .bind (hostPut_fails _ _) fun _ _ => .ok _

theorem shardCmdPost_fails (state : State) (entry : Entry) (shard : Shard) :
    FailsOnly Panic.IsNotDangling (shardCmdPost state entry shard) := by
  unfold shardCmdPost
  split
  · exact .ok _
  · exact .ok _

/-- Announcing a shard's change to the hosts of its replicas. -/
theorem touchHosts_listed_fails (hosted : state.topology.Hosted) (id index : ℕ) :
    FailsOnly Panic.IsNotDangling (touchHosts state (state.replicaIterateByShardID id) index) := by
  refine touchHosts_fails (fun replica member => ?_) index
  rw [replicaIterateByShardID_eq] at member
  exact hosts_of_mem hosted (List.mem_of_mem_filter member)

theorem hosted_of_found (hosted : state.topology.Hosted) {id : ℕ}
    (found : state.replica id = some replica) : state.topology.Hosts replica.hostID :=
  hosts_of_mem hosted (mem_replicaIterate.mpr (by rw [replica_id found]; exact found))

theorem hosted_shardPut (hosted : state.topology.Hosted) (shard : Shard) :
    (state.shardPut shard).topology.Hosted :=
  hosted

theorem shardCmdTouch_fails (hosted : state.topology.Hosted) (entry : Entry) (shard : Shard) :
    FailsOnly Panic.IsNotDangling (shardCmdTouch state entry shard) := by
  refine .bind (touchHosts_listed_fails ?_ _ _) fun _ _ => .ok _
  rw [topology_shardTouch]
  exact hosted

theorem shardCmdPut_fails (hosted : state.topology.Hosted) (entry : Entry) (shard : Shard) :
    FailsOnly Panic.IsNotDangling (shardCmdPut state entry shard) := by
  unfold shardCmdPut
  cases found : state.shard shard.id with
  | some old =>
    refine .bind (tagsSetNX_fails _ _) fun ⟨tags, _⟩ _ => ?_
    exact .bind (touchHosts_listed_fails (hosted_shardPut hosted _) _ _) fun _ _ => .ok _
  | none =>
    dsimp only
    split
    · exact .bind (touchHosts_listed_fails (hosted_shardPut hosted _) _ _) fun _ _ => .ok _
    · exact .ok _

theorem shardCmdStatusUpdate_fails (hosted : state.topology.Hosted) (entry : Entry) (shard : Shard) :
    FailsOnly Panic.IsNotDangling (shardCmdStatusUpdate state entry shard) := by
  unfold shardCmdStatusUpdate
  cases found : state.shard shard.id with
  | none => exact .ok _
  | some stored =>
    exact .bind (touchHosts_listed_fails (hosted_shardPut hosted _) _ _) fun _ _ => .ok _

theorem shardCmdLeaderSet_fails (state : State) (entry : Entry) (shard : Shard) :
    FailsOnly Panic.IsNotDangling (shardCmdLeaderSet state entry shard) := by
  unfold shardCmdLeaderSet
  split
  · exact .ok _
  · exact .ok _

theorem shardCmdDel_fails (hosted : state.topology.Hosted) (entry : Entry) (shard : Shard) :
    FailsOnly Panic.IsNotDangling (shardCmdDel state entry shard) := by
  unfold shardCmdDel
  cases found : state.shard shard.id with
  | none => exact .ok _
  | some stored =>
    refine .bind (dropOfShard_fails (fun replica member => ?_) _) fun _ _ => .ok _
    rw [replicaIterateByShardID_eq] at member
    exact hosts_of_mem hosted (List.mem_of_mem_filter member)

theorem shardTagAction_fails (hosted : state.topology.Hosted) (only : OnlyNilMap fn) (entry : Entry)
    (shard : Shard) : FailsOnly Panic.IsNotDangling (shardTagAction fn state entry shard) := by
  unfold shardTagAction
  cases found : state.shard shard.id with
  | none => exact .ok _
  | some stored =>
    refine .bind (only _ _) fun ⟨tags, written⟩ _ => ?_
    cases written with
    | false => exact .ok _
    | true => exact .bind (touchHosts_listed_fails hosted _ _) fun _ _ => .ok _

theorem replicaCmdStatusUpdate_fails (hosted : state.topology.Hosted) (entry : Entry)
    (replica : Replica) : FailsOnly Panic.IsNotDangling (replicaCmdStatusUpdate state entry replica) := by
  unfold replicaCmdStatusUpdate
  cases found : state.replica replica.id with
  | none => exact .ok _
  | some stored =>
    refine .bind (replicaPut_fails _ _) fun middle put => ?_
    have atId : state.replica stored.id = some stored := by rw [replica_id found]; exact found
    have same : middle.topology = state.topology := topology_replicaPut_of_found put atId rfl
    refine .bind (touchOwners_fails ?_ _) fun _ _ => .ok _
    rw [same]
    exact hosted_of_found hosted found

theorem replicaCmdDel_fails (hosted : state.topology.Hosted) (entry : Entry) (replica : Replica) :
    FailsOnly Panic.IsNotDangling (replicaCmdDel state entry replica) := by
  unfold replicaCmdDel
  cases found : state.replica replica.id with
  | none => exact .ok _
  | some stored =>
    exact .bind (touchOwners_fails (hosted_of_found hosted found) _) fun _ _ => .ok _

theorem replicaTagAction_fails (hosted : state.topology.Hosted) (only : OnlyNilMap fn)
    (entry : Entry) (replica : Replica) :
    FailsOnly Panic.IsNotDangling (replicaTagAction fn state entry replica) := by
  unfold replicaTagAction
  cases found : state.replica replica.id with
  | none => exact .ok _
  | some stored =>
    refine .bind (only _ _) fun ⟨tags, written⟩ _ => ?_
    cases written with
    | false => exact .ok _
    | true =>
      refine .bind (touchOwners_fails (hosted_of_found hosted found) _) fun _ _ => ?_
      exact .bind (replicaPut_fails _ _) fun _ _ => .ok _

end Commands

/-- A replica command that names a host of its own. -/
def NamesHost (entry : Entry) : Prop :=
  ∃ action replica, entry.cmd = .replica action replica ∧ (action = .post ∨ action = .put)

/-- While every replica is hosted, no other command reaches the panic in `hostTouch`. -/
theorem update_fails (hosted : state.topology.Hosted) (other : ¬ NamesHost entry) :
    FailsOnly Panic.IsNotDangling (update state entry) := by
  unfold update
  split
  · exact .ok _
  · refine .bind ?_ fun _ _ => .ok _
    unfold apply
    split
    · exact .ok _
    · exact .ok _
    · unfold hostUpdate
      split
      · exact hostCmdPut_fails _ _ _
      · exact hostCmdDel_fails _ _ _
      · exact hostTagAction_fails tagsSet_fails _ _ _
      · exact hostTagAction_fails tagsSetNX_fails _ _ _
      · exact hostTagAction_fails tagsRemove_fails _ _ _
      · exact .ok _
    · unfold shardUpdate
      split
      · exact shardCmdPost_fails _ _ _
      · exact shardCmdTouch_fails hosted _ _
      · exact shardCmdPut_fails hosted _ _
      · exact shardCmdStatusUpdate_fails hosted _ _
      · exact shardCmdLeaderSet_fails _ _ _
      · exact shardCmdDel_fails hosted _ _
      · exact shardTagAction_fails hosted tagsSet_fails _ _
      · exact shardTagAction_fails hosted tagsSetNX_fails _ _
      · exact shardTagAction_fails hosted tagsRemove_fails _ _
      · exact .ok _
    · next cmd =>
      unfold replicaUpdate
      split
      · exact absurd ⟨_, _, cmd, .inl rfl⟩ other
      · exact replicaCmdStatusUpdate_fails hosted _ _
      · exact absurd ⟨_, _, cmd, .inr rfl⟩ other
      · exact replicaCmdDel_fails hosted _ _
      · exact replicaTagAction_fails hosted tagsSet_fails _ _
      · exact replicaTagAction_fails hosted tagsSetNX_fails _ _
      · exact replicaTagAction_fails hosted tagsRemove_fails _ _
      · exact .ok _

theorem hosted_empty : ({} : State).topology.Hosted := by
  intro id placement present
  cases present

theorem describes_empty (form : String → Prop) : ({} : State).topology.Describes form := by
  refine ⟨fun key hostID present => ?_, fun id placement present => ?_⟩
  · cases present
  · cases present

theorem hosted_of_run {log : List Entry} {results : List Result}
    (ran : run {} log = .ok (state, results)) : state.topology.Hosted :=
  (path_iff_run.mpr ⟨results, ran⟩).invariant hosted_empty
    fun _ _ _ _ hosted ⟨_, updated⟩ => (update_refines updated).hosted hosted

/-- In every state a run reaches, each replica's host is in the host table under the replica's own
text of its identifier, and only a replica post or put can panic on a missing host. -/
theorem no_dangling_host {log : List Entry} {results : List Result}
    (ran : run {} log = .ok (state, results))
    (canonical : ∀ entry ∈ log, ∀ hostID, Topology.WritesHostID entry hostID → CanonicalUUID hostID) :
    (∀ id replica, state.replica id = some replica →
      ∃ host, state.host replica.hostID = .ok (some host) ∧ host.id = replica.hostID) ∧
    ∀ entry, ¬ NamesHost entry → ∀ id, update state entry ≠ .error (.hostNotFound id) := by
  have hosted := hosted_of_run ran
  have described : state.topology.Describes CanonicalUUID :=
    (path_iff_run.mpr ⟨results, ran⟩).invariant (describes_empty _)
      fun entry member _ _ described ⟨_, updated⟩ =>
        (update_refines updated).describes described (canonical entry member)
  constructor
  · intro id replica found
    obtain ⟨key, parsed, present⟩ := hosted_of_found hosted found
    obtain ⟨host, stored⟩ := Option.isSome_iff_exists.mp (Option.isSome_map ▸ present)
    refine ⟨host, host_eq_ok_iff.mpr ⟨key, parsed, stored⟩, ?_⟩
    have hostForm := described.hosts key host.id (by simp [topology, stored])
    have replicaForm := described.replicas id replica.placement (by simp [topology, found])
    exact hostForm.2.unique replicaForm (hostForm.1.trans parsed.symm)
  · intro entry other id failed
    exact update_fails hosted other _ failed id rfl

/-- A host and a replica on it. -/
def placedLog : List Entry :=
  [{ index := 1, cmd := .host .put exampleHost },
    { index := 2, cmd := newCmdReplicaPost exampleHost.id 0 false }]

/-- The replica's host is found, and no command that does not name a host panics on one. -/
theorem placed_replica_has_host :
    ∃ state results replica host, run {} placedLog = .ok (state, results) ∧
      state.replica 1 = some replica ∧ state.host replica.hostID = .ok (some host) ∧
      ∀ entry, ¬ NamesHost entry → ∀ id, update state entry ≠ .error (.hostNotFound id) := by
  have canonical : ∀ entry ∈ placedLog, ∀ hostID, Topology.WritesHostID entry hostID →
      CanonicalUUID hostID := by
    simp only [placedLog, newCmdReplicaPost, Topology.WritesHostID]
    rintro entry member hostID (⟨host, put, rfl⟩ | ⟨action, replica, post, -, rfl⟩)
    all_goals
      simp only [List.mem_cons, List.not_mem_nil, or_false] at member
      obtain rfl | rfl := member
    · cases put; decide
    · cases put
    · cases post
    · cases post; decide
  obtain ⟨hosts, panics⟩ := no_dangling_host rfl canonical
  obtain ⟨host, found, -⟩ := hosts 1 _ rfl
  exact ⟨_, _, _, host, rfl, rfl, found, panics⟩

end Fsm

end Zongzi
