import Zongzi.ToStd.PartialTable
import Zongzi.Spec.Topology

/-! # Invariants of the topology

What every step of the abstract registry keeps. Identifiers stay within their counters, and the
counters only grow while fewer than `2 ^ 64` posts are made. Every replica is placed on a host that
exists, whatever is deleted. For the shard of a replica, and for the number of replicas of a shard on
one host, a step that is not a replica put keeps the invariant exactly when it does not post a replica
that violates it. Posts alone seat replicas under consecutive identifiers.
-/

namespace Zongzi

open PartialTable

/-- An entry that asks for an identifier. -/
def Entry.isPost (entry : Entry) : Bool :=
  match entry.cmd with
  | .shard .post _ => true
  | .replica .post _ => true
  | _ => false

namespace Topology

variable {topology next : Topology} {entry : Entry} {result : Result}

section Identifiers

/-- Identifiers in use are within the counters, and the counters within a bound. -/
structure Within (topology : Topology) (bound : ℕ) : Prop where
  shards : ∀ id, (topology.shards id).isSome → id ≤ topology.shardID
  replicas : ∀ id, (topology.replicas id).isSome → id ≤ topology.replicaID
  shardID : topology.shardID ≤ bound
  replicaID : topology.replicaID ≤ bound

theorem isSome_keep {kept : ℕ → Placement → Prop} {id : ℕ}
    (present : (topology.keep kept id).isSome) : (topology.replicas id).isSome := by
  unfold keep at present
  cases found : topology.replicas id with
  | none => simp [found] at present
  | some placement => rfl

/-- A step moves each counter by at most one, and only for a post. -/
theorem Step.counters (step : topology.Step entry next result) :
    (next.shardID = topology.shardID ∨
      entry.isPost ∧ next.shardID = (topology.shardID + 1) % 2 ^ 64) ∧
    (next.replicaID = topology.replicaID ∨
      entry.isPost ∧ next.replicaID = (topology.replicaID + 1) % 2 ^ 64) := by
  cases step with
  | shardPost cmd fresh => exact ⟨.inr ⟨by simp [Entry.isPost, cmd], fresh⟩, .inl rfl⟩
  | replicaPost cmd fresh => exact ⟨.inl rfl, .inr ⟨by simp [Entry.isPost, cmd], fresh⟩⟩
  | _ => exact ⟨.inl rfl, .inl rfl⟩

/-- A shard that appears has the identifier just taken, or is the prime shard. -/
theorem Step.shard_origin (step : topology.Step entry next result) {id : ℕ}
    (present : (next.shards id).isSome) :
    (topology.shards id).isSome ∨ id = 0 ∨ id = next.shardID := by
  cases step with
  | shardPost => exact (isSome_of_update present).imp_right fun taken => .inr taken.1
  | shardPut cmd allowed =>
    obtain kept | ⟨rfl, -⟩ := isSome_of_update present
    · exact .inl kept
    · exact allowed.imp_right fun first => .inl first.1
  | shardDel =>
    obtain kept | ⟨-, gone⟩ := isSome_of_update present
    · exact .inl kept
    · cases gone
  | _ => exact .inl present

theorem Step.replica_origin (step : topology.Step entry next result) {id : ℕ}
    (present : (next.replicas id).isSome) :
    (topology.replicas id).isSome ∨ id = next.replicaID := by
  cases step with
  | hostDel => exact .inl (isSome_keep present)
  | shardDel => exact .inl (isSome_keep present)
  | replicaPost => exact (isSome_of_update present).imp_right fun taken => taken.1
  | replicaPut cmd stored =>
    obtain kept | ⟨rfl, -⟩ := isSome_of_update present
    · exact .inl kept
    · exact .inl stored
  | replicaDel =>
    obtain kept | ⟨-, gone⟩ := isSome_of_update present
    · exact .inl kept
    · cases gone
  | _ => exact .inl present

/-- While posts are few, identifiers stay within their counters and the counters only grow. -/
theorem Step.within {bound : ℕ} (step : topology.Step entry next result)
    (within : topology.Within bound) (few : bound + entry.isPost.toNat < 2 ^ 64) :
    next.Within (bound + entry.isPost.toNat) ∧ topology.shardID ≤ next.shardID ∧
      topology.replicaID ≤ next.replicaID := by
  obtain ⟨shards, replicas, shardID, replicaID⟩ := within
  have moved : topology.shardID ≤ next.shardID ∧ topology.replicaID ≤ next.replicaID ∧
      next.shardID ≤ bound + entry.isPost.toNat ∧ next.replicaID ≤ bound + entry.isPost.toNat := by
    obtain ⟨shardMoved | ⟨post, shardMoved⟩, replicaMoved | ⟨again, replicaMoved⟩⟩ := step.counters
    all_goals simp_all only [Bool.toNat_true]
    all_goals omega
  refine ⟨⟨?_, ?_, moved.2.2.1, moved.2.2.2⟩, moved.1, moved.2.1⟩
  · intro id present
    obtain kept | rfl | rfl := step.shard_origin present
    · exact (shards id kept).trans moved.1
    · exact Nat.zero_le _
    · exact le_rfl
  · intro id present
    obtain kept | rfl := step.replica_origin present
    · exact (replicas id kept).trans moved.2.1
    · exact le_rfl

end Identifiers

section Hosts

/-- Every replica is placed on a host that exists. -/
def Hosted (topology : Topology) : Prop :=
  ∀ id placement, topology.replicas id = some placement → topology.Hosts placement.hostID

theorem of_keep {kept : ℕ → Placement → Prop} {id : ℕ} {placement : Placement}
    (present : topology.keep kept id = some placement) :
    topology.replicas id = some placement ∧ kept id placement := by
  simpa [keep, Option.filter_eq_some_iff] using present

/-- A host is only dropped together with its replicas, and a replica is only written on a host. -/
theorem Step.hosted (step : topology.Step entry next result) (hosted : topology.Hosted) :
    next.Hosted := by
  intro id placement present
  cases step with
  | idle => exact hosted id placement present
  | @hostPut host key _ cmd parsed =>
    obtain ⟨other, valid, stored⟩ := hosted id placement present
    refine ⟨other, valid, ?_⟩
    change (Function.update topology.hosts key (some host.id) other).isSome
    by_cases same : other = key
    · subst same
      rw [Function.update_self]
      rfl
    · rw [Function.update_of_ne same]
      exact stored
  | @hostDel host key _ cmd parsed there =>
    obtain ⟨kept, elsewhere⟩ := of_keep present
    obtain ⟨other, valid, stored⟩ := hosted id placement kept
    refine ⟨other, valid, ?_⟩
    have different : other ≠ key := fun same => elsewhere (scans_of_parsed (same ▸ valid) id)
    change (Function.update topology.hosts key none other).isSome
    rw [Function.update_of_ne different]
    exact stored
  | shardPost => exact hosted id placement present
  | shardPut => exact hosted id placement present
  | shardDel => exact hosted id placement (of_keep present).1
  | replicaPost cmd fresh value there =>
    obtain kept | ⟨-, written⟩ := of_update present
    · exact hosted id placement kept
    · cases written
      exact there
  | replicaPut cmd stored there =>
    obtain kept | ⟨-, written⟩ := of_update present
    · exact hosted id placement kept
    · cases written
      exact there
  | replicaDel =>
    obtain kept | ⟨-, gone⟩ := of_update present
    · exact hosted id placement kept
    · cases gone

/-- The host identifiers a command writes. -/
def WritesHostID (entry : Entry) (hostID : String) : Prop :=
  (∃ host, entry.cmd = .host .put host ∧ hostID = host.id) ∨
    ∃ action replica, entry.cmd = .replica action replica ∧ (action = .post ∨ action = .put) ∧
      hostID = replica.hostID

/-- Host identifiers of one form, each stored under its key. -/
structure Describes (topology : Topology) (form : String → Prop) : Prop where
  hosts : ∀ key hostID, topology.hosts key = some hostID → uuidKey hostID = some key ∧ form hostID
  replicas : ∀ id placement, topology.replicas id = some placement → form placement.hostID

theorem Step.describes {form : String → Prop} (step : topology.Step entry next result)
    (described : topology.Describes form) (written : ∀ hostID, WritesHostID entry hostID → form hostID) :
    next.Describes form := by
  obtain ⟨hosts, replicas⟩ := described
  cases step with
  | idle => exact ⟨hosts, replicas⟩
  | @hostPut host key _ cmd parsed =>
    refine ⟨?_, replicas⟩
    intro other hostID present
    obtain kept | ⟨rfl, stored⟩ := of_update present
    · exact hosts other hostID kept
    · cases stored
      exact ⟨parsed, written host.id (.inl ⟨host, cmd, rfl⟩)⟩
  | @hostDel host key _ cmd parsed there =>
    refine ⟨?_, fun id placement present => replicas id placement (of_keep present).1⟩
    intro other hostID present
    obtain kept | ⟨-, gone⟩ := of_update present
    · exact hosts other hostID kept
    · cases gone
  | shardPost => exact ⟨hosts, replicas⟩
  | shardPut => exact ⟨hosts, replicas⟩
  | shardDel => exact ⟨hosts, fun id placement present => replicas id placement (of_keep present).1⟩
  | @replicaPost replica _ _ cmd =>
    refine ⟨hosts, fun id placement present => ?_⟩
    obtain kept | ⟨-, stored⟩ := of_update present
    · exact replicas id placement kept
    · cases stored
      exact written replica.hostID (.inr ⟨.post, replica, cmd, .inl rfl, rfl⟩)
  | @replicaPut replica _ cmd =>
    refine ⟨hosts, fun id placement present => ?_⟩
    obtain kept | ⟨-, stored⟩ := of_update present
    · exact replicas id placement kept
    · cases stored
      exact written replica.hostID (.inr ⟨.put, replica, cmd, .inr rfl, rfl⟩)
  | replicaDel =>
    refine ⟨hosts, fun id placement present => ?_⟩
    obtain kept | ⟨-, gone⟩ := of_update present
    · exact replicas id placement kept
    · cases gone

end Hosts

section Placements

/-- Every replica belongs to a shard that exists. -/
def NoOrphans (topology : Topology) : Prop :=
  ∀ id placement, topology.replicas id = some placement → (topology.shards placement.shardID).isSome

/-- No two replicas of a shard are placed on the same host. -/
def Spread (topology : Topology) : Prop :=
  ∀ id other placement, topology.replicas id = some placement →
    topology.replicas other = some placement → id = other

theorem isSome_update_some {α : Type} {table : ℕ → Option α} {key other : ℕ} (value : α)
    (present : (table other).isSome) : (Function.update table key (some value) other).isSome := by
  by_cases same : other = key
  · subst same
    rw [Function.update_self]
    rfl
  · rw [Function.update_of_ne same]
    exact present

/-- Only a replica post can create an orphan. -/
theorem Step.noOrphans_iff (step : topology.Step entry next result) (owned : topology.NoOrphans)
    (put : ∀ replica, entry.cmd ≠ .replica .put replica) :
    next.NoOrphans ↔ ∀ replica, entry.cmd = .replica .post replica →
      (topology.shards replica.shardID).isSome := by
  cases step with
  | idle _ post => exact iff_of_true owned fun replica cmd => absurd cmd (post replica)
  | hostPut cmd => exact iff_of_true owned fun replica post => by cases cmd.symm.trans post
  | hostDel cmd =>
    refine iff_of_true ?_ fun replica post => by cases cmd.symm.trans post
    exact fun id placement present => owned id placement (of_keep present).1
  | shardPost cmd =>
    refine iff_of_true ?_ fun replica post => by cases cmd.symm.trans post
    exact fun id placement present => isSome_update_some _ (owned id placement present)
  | shardPut cmd =>
    refine iff_of_true ?_ fun replica post => by cases cmd.symm.trans post
    exact fun id placement present => isSome_update_some _ (owned id placement present)
  | @shardDel shard _ cmd =>
    refine iff_of_true ?_ fun replica post => by cases cmd.symm.trans post
    intro id placement present
    obtain ⟨stored, elsewhere⟩ := of_keep present
    change (Function.update topology.shards shard.id none placement.shardID).isSome
    rw [Function.update_of_ne elsewhere]
    exact owned id placement stored
  | @replicaPost replica _ id cmd =>
    constructor
    · intro kept other post
      cases cmd.symm.trans post
      exact kept id ⟨replica.hostID, replica.shardID⟩ (Function.update_self ..)
    · intro placed other placement present
      obtain stored | ⟨-, written⟩ := of_update present
      · exact owned other placement stored
      · cases written
        exact placed replica cmd
  | @replicaPut replica _ cmd => exact absurd cmd (put replica)
  | replicaDel cmd =>
    refine iff_of_true ?_ fun replica post => by cases cmd.symm.trans post
    intro id placement present
    obtain stored | ⟨-, gone⟩ := of_update present
    · exact owned id placement stored
    · cases gone

/-- Only a replica post can put a second replica of a shard on a host. The record under the
identifier the post takes, which exists only once the counter has wrapped, is overwritten. -/
theorem Step.spread_iff (step : topology.Step entry next result) (spread : topology.Spread)
    (put : ∀ replica, entry.cmd ≠ .replica .put replica) :
    next.Spread ↔ ∀ replica, entry.cmd = .replica .post replica →
      ∀ id, id ≠ (topology.replicaID + 1) % 2 ^ 64 →
        topology.replicas id ≠ some ⟨replica.hostID, replica.shardID⟩ := by
  cases step with
  | idle _ post => exact iff_of_true spread fun replica cmd => absurd cmd (post replica)
  | hostPut cmd => exact iff_of_true spread fun replica post => by cases cmd.symm.trans post
  | hostDel cmd =>
    refine iff_of_true ?_ fun replica post => by cases cmd.symm.trans post
    exact fun id other placement left right =>
      spread id other placement (of_keep left).1 (of_keep right).1
  | shardPost cmd => exact iff_of_true spread fun replica post => by cases cmd.symm.trans post
  | shardPut cmd => exact iff_of_true spread fun replica post => by cases cmd.symm.trans post
  | shardDel cmd =>
    refine iff_of_true ?_ fun replica post => by cases cmd.symm.trans post
    exact fun id other placement left right =>
      spread id other placement (of_keep left).1 (of_keep right).1
  | @replicaPost replica _ id cmd fresh =>
    subst fresh
    constructor
    · intro kept other post id different present
      cases cmd.symm.trans post
      exact different (kept id _ _ ((Function.update_of_ne different ..).trans present)
        (Function.update_self ..))
    · intro vacant left right placement atLeft atRight
      obtain storedLeft | ⟨sameLeft, writtenLeft⟩ := of_update atLeft
      all_goals obtain storedRight | ⟨sameRight, writtenRight⟩ := of_update atRight
      · exact spread left right placement storedLeft storedRight
      · cases writtenRight
        by_contra different
        exact vacant replica cmd left (sameRight ▸ different) storedLeft
      · cases writtenLeft
        by_contra different
        exact vacant replica cmd right (fun same => different (sameLeft.trans same.symm)) storedRight
      · rw [sameLeft, sameRight]
  | @replicaPut replica _ cmd => exact absurd cmd (put replica)
  | replicaDel cmd =>
    refine iff_of_true ?_ fun replica post => by cases cmd.symm.trans post
    intro id other placement left right
    obtain storedLeft | ⟨-, gone⟩ := of_update left
    · obtain storedRight | ⟨-, gone⟩ := of_update right
      · exact spread id other placement storedLeft storedRight
      · cases gone
    · cases gone

end Placements

section Seats

/-- The placement of the replica that a list of hosts gives an identifier. -/
def seat (shardID : ℕ) (hosts : List String) : ℕ → Option Placement
  | 0 => none
  | position + 1 => hosts[position]?.map fun hostID => ⟨hostID, shardID⟩

/-- The replicas are one for each host of the list, under consecutive identifiers. -/
structure Seats (topology : Topology) (shardID : ℕ) (hosts : List String) : Prop where
  replicaID : topology.replicaID = hosts.length
  replicas : topology.replicas = seat shardID hosts

theorem seat_append (shardID : ℕ) (hosts : List String) (hostID : String) :
    seat shardID (hosts ++ [hostID]) =
      Function.update (seat shardID hosts) (hosts.length + 1) (some ⟨hostID, shardID⟩) := by
  funext id
  by_cases last : id = hosts.length + 1
  · subst last
    simp [seat]
  · rw [Function.update_of_ne last]
    cases id with
    | zero => rfl
    | succ position =>
      have other : position ≠ hosts.length := fun same => last (congrArg (· + 1) same)
      simp only [seat]
      obtain before | after := Nat.lt_or_gt_of_ne other
      · rw [List.getElem?_append_left before]
      · rw [List.getElem?_eq_none (by simpa using after), List.getElem?_eq_none after.le]

variable {shardID : ℕ} {hosts : List String}

/-- Puts of hosts and shards do not move replicas. -/
theorem Step.seats_put (step : topology.Step entry next result) (seats : topology.Seats shardID hosts)
    (put : (∃ host, entry.cmd = .host .put host) ∨ ∃ shard, entry.cmd = .shard .put shard) :
    next.Seats shardID hosts := by
  obtain ⟨host, put⟩ | ⟨shard, put⟩ := put
  all_goals cases step with
  | idle => exact seats
  | hostPut => exact ⟨seats.replicaID, seats.replicas⟩
  | shardPut => exact ⟨seats.replicaID, seats.replicas⟩
  | hostDel cmd => cases put.symm.trans cmd
  | shardPost cmd => cases put.symm.trans cmd
  | shardDel cmd => cases put.symm.trans cmd
  | replicaPost cmd => cases put.symm.trans cmd
  | replicaPut cmd => cases put.symm.trans cmd
  | replicaDel cmd => cases put.symm.trans cmd

/-- A post seats the next host. -/
theorem Step.seats_post {replica : Replica} (step : topology.Step entry next result)
    (seats : topology.Seats replica.shardID hosts) (post : entry.cmd = .replica .post replica)
    (few : hosts.length + 1 < 2 ^ 64) : next.Seats replica.shardID (hosts ++ [replica.hostID]) := by
  cases step with
  | idle _ other => exact absurd post (other replica)
  | @replicaPost posted _ id cmd fresh =>
    cases post.symm.trans cmd
    rw [seats.replicaID, Nat.mod_eq_of_lt few] at fresh
    subst fresh
    refine ⟨by simp, ?_⟩
    rw [seat_append, ← seats.replicas]
  | hostPut cmd => cases post.symm.trans cmd
  | hostDel cmd => cases post.symm.trans cmd
  | shardPost cmd => cases post.symm.trans cmd
  | shardPut cmd => cases post.symm.trans cmd
  | shardDel cmd => cases post.symm.trans cmd
  | replicaPut cmd => cases post.symm.trans cmd
  | replicaDel cmd => cases post.symm.trans cmd

end Seats

end Topology

end Zongzi
