import Zongzi.ToStd.Numeral
import Zongzi.Model.ClusterName

/-! # Names of clusters are numbers

Twelve digits of base 36 are less than 64 bits, so every name that is accepted has a value. The value gives the name
back without its leading zeros, and so two clusters share a deployment only if their names differ by leading zeros.
-/

namespace Zongzi

open Numeral

variable {name other : String}

/-- A character of a name. -/
def isNameChar (char : Char) : Bool := char.isLower || char.isDigit

/-- The value of a character of a name. -/
def nameDigit (char : Char) : ℕ := (digitValue char).getD 0

def nameDigits (name : String) : List ℕ := name.toList.map nameDigit

theorem toNat_lt_of_isNameChar {char : Char} (accepted : isNameChar char) : char.toNat < 123 := by
  simp only [isNameChar, Char.isLower, Char.isDigit, Bool.or_eq_true, Bool.and_eq_true, decide_eq_true_eq] at accepted
  obtain ⟨-, low⟩ | ⟨-, low⟩ := accepted
  · have : char.toNat ≤ 122 := low
    omega
  · have : char.toNat ≤ 57 := low
    omega

/-- The characters of a name are the digits of base 36. -/
theorem digitValue_of_isNameChar {char : Char} (accepted : isNameChar char) :
    digitValue char = some (nameDigit char) ∧ nameDigit char < 36 ∧ digitChar (nameDigit char) = char := by
  have all : ∀ code < 123, isNameChar (Char.ofNat code) →
      digitValue (Char.ofNat code) = some (nameDigit (Char.ofNat code)) ∧ nameDigit (Char.ofNat code) < 36 ∧
        digitChar (nameDigit (Char.ofNat code)) = Char.ofNat code := by decide
  have here := all char.toNat (toNat_lt_of_isNameChar accepted)
  rw [Char.ofNat_toNat] at here
  exact here accepted

section Name

variable (accepted : ClusterNameRegex name)
include accepted

theorem isNameChar_of_mem : ∀ char ∈ name.toList, isNameChar char := by
  simp only [ClusterNameRegex, Bool.and_eq_true] at accepted
  exact List.all_eq_true.mp accepted.2

theorem nameDigits_lt : ∀ digit ∈ nameDigits name, digit < 36 := by
  intro digit member
  obtain ⟨char, listed, rfl⟩ := List.mem_map.mp member
  exact (digitValue_of_isNameChar (isNameChar_of_mem accepted char listed)).2.1

theorem length_nameDigits : 1 ≤ (nameDigits name).length ∧ (nameDigits name).length ≤ 12 := by
  simp only [ClusterNameRegex, Bool.and_eq_true, decide_eq_true_eq] at accepted
  rw [nameDigits, List.length_map]
  exact accepted.1

/-- The value of a name fits in 64 bits. -/
theorem read_nameDigits_lt : read 36 0 (nameDigits name) < 2 ^ 64 := by
  calc read 36 0 (nameDigits name)
    _ < 36 ^ (nameDigits name).length := read_lt (by decide) (nameDigits_lt accepted)
    _ ≤ 36 ^ 12 := Nat.pow_le_pow_right (by decide) (length_nameDigits accepted).2
    _ < 2 ^ 64 := by decide

end Name

theorem foldlM_parseDigit {chars : List Char} (digits : ∀ char ∈ chars, isNameChar char) {value : ℕ}
    (fits : read 36 value (chars.map nameDigit) < 2 ^ 64) :
    chars.foldlM parseDigit value = .ok (read 36 value (chars.map nameDigit)) := by
  induction chars generalizing value with
  | nil => rfl
  | cons char chars ih =>
    have read : digitValue char = some (nameDigit char) := (digitValue_of_isNameChar (digits char (by simp))).1
    rw [List.map_cons, Numeral.read, List.foldl_cons, ← Numeral.read] at fits ⊢
    have small : value * 36 + nameDigit char < 2 ^ 64 := lt_of_le_of_lt (le_read (by decide) _) fits
    rw [List.foldlM_cons, parseDigit, read]
    dsimp only
    rw [if_pos small]
    exact ih (fun other member => digits other (List.mem_cons_of_mem _ member)) fits

theorem base36Decode_eq (accepted : ClusterNameRegex name) :
    base36Decode name = .ok (read 36 0 (nameDigits name)) := by
  have nonempty : name ≠ "" := by
    rintro rfl
    cases accepted
  rw [base36Decode, if_neg nonempty]
  exact foldlM_parseDigit (isNameChar_of_mem accepted) (read_nameDigits_lt accepted)

/-- The name without its leading zeros. -/
def stripZeros (name : String) : String := String.ofList (name.toList.dropWhile (· = '0'))

theorem nameDigit_eq_zero_iff {char : Char} (accepted : isNameChar char) : nameDigit char = 0 ↔ char = '0' := by
  constructor
  · intro zero
    rw [← (digitValue_of_isNameChar accepted).2.2, zero]
    rfl
  · rintro rfl
    rfl

theorem strip_map_nameDigit {chars : List Char} (accepted : ∀ char ∈ chars, isNameChar char) :
    strip (chars.map nameDigit) = (chars.dropWhile (· = '0')).map nameDigit := by
  induction chars with
  | nil => rfl
  | cons char chars ih =>
    have zero := nameDigit_eq_zero_iff (accepted char (by simp))
    by_cases leading : char = '0'
    · rw [List.map_cons, strip, List.dropWhile_cons_of_pos (by simpa using zero.mpr leading), ← strip,
        ih fun other member => accepted other (List.mem_cons_of_mem _ member),
        List.dropWhile_cons_of_pos (by simpa using leading)]
    · rw [List.map_cons, strip, List.dropWhile_cons_of_neg (by simpa using mt zero.mp leading),
        List.dropWhile_cons_of_neg (by simpa using leading), List.map_cons]

theorem strip_nameDigits (accepted : ClusterNameRegex name) :
    strip (nameDigits name) = nameDigits (stripZeros name) := by
  rw [nameDigits, strip_map_nameDigit (isNameChar_of_mem accepted), nameDigits, stripZeros, String.toList_ofList]

/-- The digits of a name stand for its characters. -/
theorem map_digitChar_strip (accepted : ClusterNameRegex name) :
    (strip (nameDigits name)).map digitChar = (stripZeros name).toList := by
  rw [strip_nameDigits accepted, nameDigits, List.map_map, stripZeros, String.toList_ofList]
  refine (List.map_congr_left fun char member => ?_).trans (List.map_id _)
  have listed : char ∈ name.toList := (List.dropWhile_suffix _).subset member
  exact (digitValue_of_isNameChar (isNameChar_of_mem accepted char listed)).2.2

theorem read_eq_zero_iff (accepted : ClusterNameRegex name) :
    read 36 0 (nameDigits name) = 0 ↔ stripZeros name = "" := by
  rw [← Nat.digits_eq_nil_iff_eq_zero (b := 36), ← List.reverse_eq_nil_iff,
    digits_read (by decide) (nameDigits_lt accepted), strip_nameDigits accepted, nameDigits, List.map_eq_nil_iff,
    String.toList_eq_nil_iff]

theorem base36Encode_read (accepted : ClusterNameRegex name) :
    base36Encode (read 36 0 (nameDigits name)) = if stripZeros name = "" then "0" else stripZeros name := by
  unfold base36Encode
  by_cases zero : read 36 0 (nameDigits name) = 0
  · rw [if_pos zero, if_pos ((read_eq_zero_iff accepted).mp zero)]
  · rw [if_neg zero, if_neg (mt (read_eq_zero_iff accepted).mpr zero),
      digits_read (by decide) (nameDigits_lt accepted), map_digitChar_strip accepted, String.ofList_toList]

theorem read_eq_iff (accepted : ClusterNameRegex name) (also : ClusterNameRegex other) :
    read 36 0 (nameDigits name) = read 36 0 (nameDigits other) ↔ stripZeros name = stripZeros other := by
  rw [read_eq_read_iff (by decide) (nameDigits_lt accepted) (nameDigits_lt also)]
  constructor
  · intro same
    rw [← String.toList_inj, ← map_digitChar_strip accepted, ← map_digitChar_strip also, same]
  · intro same
    rw [strip_nameDigits accepted, strip_nameDigits also, same]

theorem newAgent_eq (accepted : ClusterNameRegex name) (peers : List String) (advertiseAddress : String) :
    newAgent name peers advertiseAddress = .ok (.ok {
      clusterName := name
      peers := (peers.mergeSort fun one other => one ≤ other).map (withPort advertiseAddress)
      deploymentID := read 36 0 (nameDigits name) }) := by
  rw [newAgent, if_pos accepted, mustBase36Decode, base36Decode_eq accepted]
  rfl

/-- Every name that is accepted has a value of 64 bits, which gives the name back without its leading zeros. Two agents
have the same deployment if and only if their names are equal without them. -/
theorem cluster_name_decodes (accepted : ClusterNameRegex name) :
    ∃ id < 2 ^ 64, mustBase36Decode name = .ok id ∧
      base36Encode id = (if stripZeros name = "" then "0" else stripZeros name) ∧
      ∀ peers advertiseAddress, ∃ agent, newAgent name peers advertiseAddress = .ok (.ok agent) ∧
        agent.deploymentID = id ∧ ∀ other, ClusterNameRegex other → ∀ others address another,
          newAgent other others address = .ok (.ok another) →
          (agent.deploymentID = another.deploymentID ↔ stripZeros name = stripZeros other) := by
  refine ⟨read 36 0 (nameDigits name), read_nameDigits_lt accepted, base36Decode_eq accepted,
    base36Encode_read accepted, fun peers advertiseAddress => ⟨_, newAgent_eq accepted peers advertiseAddress, rfl, ?_⟩⟩
  intro other also others address another made
  rw [newAgent_eq also others address] at made
  cases made
  exact read_eq_iff accepted also

/-- The longest name, and one that has nothing but zeros. -/
theorem names_decode : ClusterNameRegex "1wejoirajen1" ∧ ClusterNameRegex "00" ∧
    (∃ id, mustBase36Decode "1wejoirajen1" = .ok id ∧ base36Encode id = "1wejoirajen1") ∧
    ∃ id, mustBase36Decode "00" = .ok id ∧ base36Encode id = "0" := by
  have long : ClusterNameRegex "1wejoirajen1" := by decide
  have zeros : ClusterNameRegex "00" := by decide
  obtain ⟨id, -, decoded, encoded, -⟩ := cluster_name_decodes long
  obtain ⟨least, -, read, written, -⟩ := cluster_name_decodes zeros
  exact ⟨long, zeros, ⟨id, decoded, encoded.trans (by decide)⟩, least, read, written.trans (by decide)⟩

end Zongzi
