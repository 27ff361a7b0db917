import Zongzi.Model.Agent

/-! # What bootstrap is for: one membership

The agents of a fresh cluster share one list of peers. The membership they have to agree on numbers the
peers by their position in that list. A map that agrees with the membership wherever it has an entry is
the whole membership as soon as it has as many entries as there are peers.
-/

namespace Zongzi

open Std

/-- Agents with distinct addresses and hosts, and the peers among them. -/
structure Deployment (ι : Type) where
  peers : List ι
  address : ι → String
  hostID : ι → String
  peers_nodup : peers.Nodup
  /-- The length of a slice is an `int`. -/
  peers_length : peers.length < 2 ^ 63
  address_injective : Function.Injective address
  hostID_injective : Function.Injective hostID
  hostID_ne_empty : ∀ i, hostID i ≠ ""

namespace Deployment

variable {ι : Type} {deployment : Deployment ι} {i j : ι} {id : ℕ} {host : String}
  {members : ExtTreeMap ℕ String}

def addresses (deployment : Deployment ι) : List String := deployment.peers.map deployment.address

/-- The identifier of a peer is its position, counted from one. -/
def Numbers (deployment : Deployment ι) (id : ℕ) (i : ι) : Prop :=
  ∃ position, id = position + 1 ∧ deployment.peers[position]? = some i

/-- The members by identifier. -/
def membership (deployment : Deployment ι) : ℕ → Option String
  | 0 => none
  | position + 1 => deployment.peers[position]?.map deployment.hostID

theorem Numbers.pos (numbers : deployment.Numbers id i) : 0 < id := by
  obtain ⟨position, rfl, -⟩ := numbers
  exact Nat.succ_pos position

theorem Numbers.mem (numbers : deployment.Numbers id i) : i ∈ deployment.peers := by
  obtain ⟨position, -, found⟩ := numbers
  exact List.mem_of_getElem? found

theorem Numbers.listed (numbers : deployment.Numbers id i) :
    id ∈ (List.range deployment.peers.length).map (· + 1) := by
  obtain ⟨position, rfl, found⟩ := numbers
  exact List.mem_map.mpr ⟨position, List.mem_range.mpr (List.getElem?_eq_some_iff.mp found).1, rfl⟩

theorem numbers_of_mem (mem : i ∈ deployment.peers) : ∃ id, deployment.Numbers id i := by
  obtain ⟨position, found⟩ := List.mem_iff_getElem?.mp mem
  exact ⟨position + 1, position, rfl, found⟩

theorem membership_eq_some_iff :
    deployment.membership id = some host ↔ ∃ i, deployment.Numbers id i ∧ host = deployment.hostID i := by
  cases id with
  | zero => simp [membership, Numbers]
  | succ position => simp [membership, Numbers, eq_comm]

theorem Numbers.membership (numbers : deployment.Numbers id i) :
    deployment.membership id = some (deployment.hostID i) :=
  membership_eq_some_iff.mpr ⟨i, numbers, rfl⟩

/-- Two peers do not share an identifier. -/
theorem Numbers.unique (left : deployment.Numbers id i) (right : deployment.Numbers id j) : i = j :=
  deployment.hostID_injective (Option.some.inj (left.membership.symm.trans right.membership))

/-- A peer has one identifier. -/
theorem Numbers.position {position : ℕ} (numbers : deployment.Numbers id i)
    (found : deployment.peers[position]? = some i) : id = position + 1 := by
  obtain ⟨other, rfl, again⟩ := numbers
  obtain ⟨within, -⟩ := List.getElem?_eq_some_iff.mp again
  rw [(List.getElem?_inj within deployment.peers_nodup).mp (again.trans found.symm)]

/-- Every entry of the map is a member. -/
def Within (deployment : Deployment ι) (members : ExtTreeMap ℕ String) : Prop :=
  ∀ id host, members[id]? = some host → deployment.membership id = some host

theorem within_empty : deployment.Within ∅ := by
  intro id host present
  simp at present

theorem Within.insert (within : deployment.Within members)
    (member : deployment.membership id = some host) : deployment.Within (members.insert id host) := by
  intro other stored present
  rw [ExtTreeMap.getElem?_insert] at present
  split at present
  · next same =>
    rw [← LawfulEqCmp.compare_eq_iff_eq.mp same, member, present]
  · exact within other stored present

theorem exists_of_mem {κ β : Type} [Ord κ] [TransOrd κ] {entries : ExtTreeMap κ β} {key : κ}
    (present : key ∈ entries) : ∃ value, entries[key]? = some value :=
  Option.isSome_iff_exists.mp (ExtTreeMap.isSome_getElem?_iff_mem.mpr present)

/-- A map whose keys are among `keys`, and which has as many entries, has them all. -/
theorem mem_of_length_le_size {κ β : Type} [Ord κ] [TransOrd κ] [LawfulEqOrd κ]
    {entries : ExtTreeMap κ β} {keys : List κ} (among : ∀ key ∈ entries, key ∈ keys)
    (size : keys.length ≤ entries.size) {key : κ} (mem : key ∈ keys) : key ∈ entries := by
  have subset : entries.keys ⊆ keys := fun key present =>
    among key (ExtTreeMap.mem_keys.mp present)
  have perm : entries.keys.Perm keys :=
    (List.subperm_of_subset entries.nodup_keys subset).perm_of_length_le
      (entries.length_keys.symm ▸ size)
  exact ExtTreeMap.mem_keys.mp (perm.mem_iff.mpr mem)

theorem size_eq_length {κ β : Type} [Ord κ] [TransOrd κ] [LawfulEqOrd κ]
    {entries : ExtTreeMap κ β} {keys : List κ} (nodup : keys.Nodup)
    (mem_iff : ∀ key, key ∈ entries ↔ key ∈ keys) : entries.size = keys.length := by
  rw [← entries.length_keys]
  refine ((List.perm_ext_iff_of_nodup entries.nodup_keys nodup).mpr fun key => ?_).length_eq
  rw [ExtTreeMap.mem_keys, mem_iff]

theorem isSome_membership_iff :
    (deployment.membership id).isSome ↔ id ∈ (List.range deployment.peers.length).map (· + 1) := by
  cases id with
  | zero => simp [membership]
  | succ position => simp [membership]

/-- A map with an entry for each member and no others has as many entries as there are peers. -/
theorem size_eq_peers_length {β : Type} {entries : ExtTreeMap ℕ β}
    (same : ∀ id : ℕ, entries[id]?.isSome = (deployment.membership id).isSome) :
    entries.size = deployment.peers.length := by
  have nodup : ((List.range deployment.peers.length).map (· + 1)).Nodup :=
    List.nodup_range.map (add_left_injective 1)
  rw [size_eq_length nodup fun id => ?_, List.length_map, List.length_range]
  rw [← ExtTreeMap.isSome_getElem?_iff_mem, same, isSome_membership_iff]

/-- Members as many as peers are all the members. -/
theorem Within.full (within : deployment.Within members)
    (size : members.size = deployment.peers.length) (id : ℕ) :
    members[id]? = deployment.membership id := by
  have among : ∀ id ∈ members, id ∈ (List.range deployment.peers.length).map (· + 1) := by
    intro id present
    obtain ⟨host, stored⟩ := exists_of_mem present
    obtain ⟨i, numbers, -⟩ := membership_eq_some_iff.mp (within id host stored)
    exact numbers.listed
  ext host
  refine ⟨within id host, fun member => ?_⟩
  obtain ⟨i, numbers, -⟩ := membership_eq_some_iff.mp member
  have present := mem_of_length_le_size among (by simp [size]) numbers.listed
  obtain ⟨stored, found⟩ := exists_of_mem present
  rw [found, ← member, within _ stored found]

end Deployment

end Zongzi
