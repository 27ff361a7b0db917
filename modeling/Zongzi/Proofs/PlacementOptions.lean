import Zongzi.Model.ShardUpdate
import Zongzi.Proofs.PlacementTags

/-! # Placement options and what the controller reads

An option writes the size of a group and the tags of its filter into one text. The controller splits the text, reads
the size back and keeps the rest as a filter. A filter without tags is written as an empty part, which every host
matches.

The keys of the vary option are joined in the same way, but the controller does not split them.
-/

namespace Zongzi

open Std Machine

section Numbers

/-- The digits of a number are read back, with the value so far in front of them. -/
private theorem foldl_digits (digits : List Char) (isDigit : ∀ digit ∈ digits, digit.isDigit) (value : ℕ) :
    digits.foldl (fun (value : ℤ) digit => value * 10 + (digit.toNat - '0'.toNat)) (value : ℤ) =
      (Nat.ofDigitChars 10 digits value : ℕ) := by
  induction digits generalizing value with
  | nil => rfl
  | cons digit digits ih =>
    have least : '0'.toNat ≤ digit.toNat := by
      have := isDigit digit (by simp)
      simp only [Char.isDigit, Bool.and_eq_true, decide_eq_true_eq] at this
      exact this.1
    rw [List.foldl_cons, Nat.ofDigitChars_cons, ← ih fun other member => isDigit other (List.mem_cons_of_mem _ member)]
    congr 1
    rw [Nat.cast_add, Nat.cast_mul, Nat.cast_sub least]
    ring

/-- What is read from the digits of a number, with its sign in front of them or without one. -/
private theorem atoi_signed (negative : Bool) {text : String} {digits : List Char} {value : ℤ}
    (written : text.toList = if negative then '-' :: digits else digits) (nonempty : digits ≠ [])
    (isDigit : ∀ digit ∈ digits, digit.isDigit)
    (read : (if negative then -(Nat.ofDigitChars 10 digits 0 : ℤ) else Nat.ofDigitChars 10 digits 0) = value)
    (bounded : -2 ^ 63 ≤ value ∧ value < 2 ^ 63) : atoi text = some value := by
  have valued := foldl_digits digits isDigit 0
  unfold atoi
  split
  next sign shown same =>
  have signed : (negative, digits) = (sign, shown) := by
    rw [← same, written]
    cases negative with
    | true => rfl
    | false =>
      rw [if_neg Bool.false_ne_true]
      split
      · exact absurd (isDigit '-' List.mem_cons_self) (by decide)
      · exact absurd (isDigit '+' List.mem_cons_self) (by decide)
      · rfl
  cases signed
  rw [if_neg (by simpa [nonempty] using isDigit)]
  dsimp only
  rw [← Nat.cast_zero, valued, read, if_pos bounded]

theorem toList_toString (n : ℤ) : (toString n).toList =
    if n < 0 then '-' :: Nat.toDigits 10 (-n).toNat else Nat.toDigits 10 n.toNat := by
  rw [show toString n = n.repr from rfl, Int.repr_eq_if]
  by_cases negative : n < 0
  · rw [if_neg (by omega), if_pos negative, String.toList_append, Nat.toList_repr]
    rfl
  · rw [if_pos (by omega), if_neg negative, Nat.toList_repr]

theorem isDigit_of_mem {m : ℕ} {digit : Char} (member : digit ∈ Nat.toDigits 10 m) : digit.isDigit :=
  Nat.isDigit_of_mem_toDigits (by decide) (by decide) member

/-- A number of 64 bits is read as it was written. -/
theorem atoi_toString {n : ℤ} (bounded : -2 ^ 63 ≤ n ∧ n < 2 ^ 63) : atoi (toString n) = some n := by
  have shown := toList_toString n
  by_cases negative : n < 0
  · rw [if_pos negative] at shown
    refine atoi_signed true shown Nat.toDigits_ne_nil (fun _ => isDigit_of_mem) ?_ bounded
    rw [Nat.ofDigitChars_ten_toDigits, if_pos rfl]
    omega
  · rw [if_neg negative] at shown
    have value : (if false then -(Nat.ofDigitChars 10 (Nat.toDigits 10 n.toNat) 0 : ℤ)
        else Nat.ofDigitChars 10 (Nat.toDigits 10 n.toNat) 0) = n := by
      rw [Nat.ofDigitChars_ten_toDigits, if_neg Bool.false_ne_true]
      omega
    exact atoi_signed false shown Nat.toDigits_ne_nil (fun _ => isDigit_of_mem) value bounded

/-- A number is written without a separator. -/
theorem separator_notMem_toString (n : ℤ) : ';' ∉ (toString n).toList := by
  have digits (m : ℕ) : ';' ∉ Nat.toDigits 10 m := fun member => absurd (isDigit_of_mem member) (by decide)
  rw [toList_toString]
  split
  · simpa using digits _
  · exact digits _

end Numbers

section Options

variable {n : ℤ} {tags : List String}

/-- The demand has this size for a group, and its filter selects the hosts that match the tags. -/
def Demand.Asks (demand : Demand) (group : String) (n : ℤ) (tags : List String) : Prop :=
  demand.desired[group]? = some n ∧ ∀ host : Host, demand.selects group host = matchTagFilter host.tags tags

/-- The parts of the text that an option writes. -/
theorem split_option (n : ℤ) (plain : ∀ tag ∈ tags, ';' ∉ tag.toList) :
    split ';' (toString n ++ ";" ++ ";".intercalate tags) = toString n :: if tags = [] then [""] else tags := by
  have text : (toString n ++ ";" ++ ";".intercalate tags).toList =
      (toString n).toList ++ ';' :: List.intercalate [';'] (tags.map String.toList) := by
    simp [String.toList_intercalate]
  rw [split, text, splitChars_append (separator_notMem_toString n)]
  cases tags with
  | nil => simp [splitChars]
  | cons tag tags =>
    rw [List.map_cons (f := String.toList), splitChars_intercalate]
    · simp [Function.comp_def]
    · intro other member
      rw [← List.map_cons] at member
      obtain ⟨part, listed, rfl⟩ := List.mem_map.mp member
      exact plain part listed

/-- An empty part of a filter matches every host. -/
theorem matchTagFilter_option (host : Host) :
    matchTagFilter host.tags (if tags = [] then [""] else tags) = matchTagFilter host.tags tags := by
  split
  · next none_given => simp [none_given, matchTagFilter]
  · rfl

/-- The option writes a tag that the controller reads as this size and filter of the group, whatever it has read
before. It asks for them in whichever order the tags are visited, unless a cover tag is about the same group. -/
def Means (option : ShardEdit) (tagKey group : String) (n : ℤ) (tags : List String) : Prop :=
  ∀ (snapshot : Snapshot) (shard : Shard), shard.tags.isSome → ∃ edited value,
    option shard = .ok (edited, none) ∧ (edited.tags.getD ∅)[tagKey]? = some value ∧
    (∀ demand : Demand, (demand.addTag snapshot.hostIterateByTag tagKey value).Asks group n tags) ∧
    ((group = "cover" → "placement:cover" ∉ edited.tags.getD ∅) →
      (resolveDesired snapshot edited).Ends (·.isOrder) (·.Asks group n tags))

/-- A tag with the text of an option, for the group that its key names. -/
theorem means_of_group {tagKey group : String} (bounded : -2 ^ 63 ≤ n ∧ n < 2 ^ 63)
    (plain : ∀ tag ∈ tags, ';' ∉ tag.toList)
    (writes : ∀ hostIterateByTag value (demand : Demand),
      demand.addTag hostIterateByTag tagKey value = demand.group group value)
    (names : ∀ name, Demand.Names name group → name ≠ tagKey → group = "cover" ∧ name = "placement:cover") :
    Means (WithTag tagKey (toString n ++ ";" ++ ";".intercalate tags)) tagKey group n tags := by
  intro snapshot shard tagged
  obtain ⟨tagMap, tagged⟩ := Option.isSome_iff_exists.mp tagged
  generalize written : toString n ++ ";" ++ ";".intercalate tags = value
  have parts := written ▸ split_option n plain
  have sized : atoi ((split ';' value).headD "") = some n := by
    rw [parts, List.headD_cons, atoi_toString bounded]
  have filter : (split ';' value).tail = if tags = [] then [""] else tags := by rw [parts, List.tail_cons]
  have stored : ((some (tagMap.insert tagKey value) : Tags).getD ∅)[tagKey]? = some value := by simp
  refine ⟨{ shard with tags := some (tagMap.insert tagKey value) }, value, by rw [WithTag, tagged], stored,
    fun demand => ?_, fun alone => ?_⟩
  · rw [writes, Demand.group_eq demand sized]
    refine ⟨by simp, fun host => ?_⟩
    simp only [Demand.selects, ExtTreeMap.getD_insert_self, filter, matchTagFilter_option]
  · have only (name : String) (present : name ∈ (some (tagMap.insert tagKey value) : Tags).getD ∅)
        (about : Demand.Names name group) : name = tagKey := by
      by_contra other
      obtain ⟨cover, rfl⟩ := names name about other
      exact alone cover present
    refine (rangeOver_ends _).bind fun visited listed => ?_
    obtain ⟨desired, filters⟩ :=
      Demand.group_resolve (writes snapshot.hostIterateByTag value) only sized stored listed
    refine ⟨desired, fun host => ?_⟩
    rw [← matchTagFilter_option, ← filter, ← filters]
    rfl

/-- Whatever size and tags the options are given, the controller reads the same size, and a filter that selects the
same hosts. -/
theorem placement_options_mean (bounded : -2 ^ 63 ≤ n ∧ n < 2 ^ 63) (plain : ∀ tag ∈ tags, ';' ∉ tag.toList) :
    Means (WithPlacementMembers n tags) "placement:member" "member" n tags ∧
    ∀ group, group ≠ "" → group ≠ "member" →
      Means (WithPlacementReplicas group n tags) ("placement:replica:" ++ group) group n tags := by
  refine ⟨means_of_group bounded plain (fun _ _ _ => rfl) ?_,
    fun group named reserved => means_of_group bounded plain ?_ ?_⟩
  · rintro name (⟨is, -⟩ | ⟨-, other⟩ | ⟨-, cover⟩) different
    · exact absurd is different
    · exact absurd rfl other
    · exact absurd cover (by decide)
  · intro hostIterateByTag value demand
    have start : after? "placement:" ("placement:replica:" ++ group) = some ("replica:" ++ group) := by
      rw [Demand.after?_eq_some_iff, ← String.append_assoc]
      rfl
    have rest : after? "replica:" ("replica:" ++ group) = some group := Demand.after?_eq_some_iff.mpr rfl
    have other {text : String} (elsewhere : after? "replica:" text = none) : "replica:" ++ group ≠ text := by
      rintro rfl
      cases rest.symm.trans elsewhere
    rw [Demand.addTag, start]
    dsimp only
    rw [if_neg (other (by decide)), if_neg (other (by decide)), rest]
    dsimp only
    rw [if_neg (by simp [named, reserved])]
  · rintro name (⟨-, is⟩ | ⟨is, -⟩ | ⟨is, cover⟩) different
    · exact absurd is reserved
    · exact absurd is different
    · exact ⟨cover, is⟩

/-- Two members in a zone, and a group of a negative size. -/
theorem zone_options_mean :
    Means (WithPlacementMembers 2 ["zone=a", ""]) "placement:member" "member" 2 ["zone=a", ""] ∧
      Means (WithPlacementReplicas "read" (-1) []) "placement:replica:read" "read" (-1) [] :=
  ⟨(placement_options_mean (by decide) (by decide)).1,
    (placement_options_mean (by decide) (by decide)).2 "read" (by decide) (by decide)⟩

end Options

section Vary

variable {keys : List String}

/-- The controller spreads replicas by these keys, and by no others. -/
def Demand.VariesBy (demand : Demand) (keys : List String) : Prop := ∀ key, key ∈ demand.vary ↔ key ∈ keys

/-- Keys that are joined are none of them, unless there is one only. -/
theorem intercalate_alone_iff (plain : ∀ key ∈ keys, ';' ∉ key.toList) :
    (∀ key, ";".intercalate keys = key ↔ key ∈ keys) ↔ keys.length = 1 := by
  match keys with
  | [] => simp
  | [key] => simp [eq_comm]
  | first :: second :: rest =>
    simp only [List.length_cons, Nat.add_eq_right, reduceCtorEq, iff_false, not_forall]
    refine ⟨";".intercalate (first :: second :: rest), fun same => ?_⟩
    have joined := plain _ (same.mp rfl)
    simp [String.toList_intercalate] at joined

/-- The option writes its keys into one text, which the controller takes for one key. It spreads replicas by the keys
that are given if and only if one key is given. -/
theorem vary_option_iff (plain : ∀ key ∈ keys, ';' ∉ key.toList) (snapshot : Snapshot) (shard : Shard)
    (tagged : shard.tags.isSome) :
    ∃ edited, WithPlacementVary keys shard = .ok (edited, none) ∧
      (resolveDesired snapshot edited).Ends (·.isOrder) fun demand => demand.VariesBy keys ↔ keys.length = 1 := by
  obtain ⟨tagMap, tagged⟩ := Option.isSome_iff_exists.mp tagged
  have stored : ((some (tagMap.insert "placement:vary" (";".intercalate keys)) : Tags).getD ∅)["placement:vary"]? =
      some (";".intercalate keys) := by simp
  refine ⟨{ shard with tags := some (tagMap.insert "placement:vary" (";".intercalate keys)) }, ?_, ?_⟩
  · rw [WithPlacementVary, WithTag, tagged]
  · refine (rangeOver_ends _).bind fun visited listed => ?_
    have vary : (Demand.resolve snapshot.hostIterateByTag visited).vary = _ :=
      Demand.vary_resolve stored listed
    change (∀ key, key ∈ (Demand.resolve snapshot.hostIterateByTag visited).vary ↔ key ∈ keys) ↔ _
    rw [vary, ← intercalate_alone_iff plain]
    simp

private def untagged : Snapshot where
  state := {}
  hostIterateByTag _ := []

/-- One key. -/
theorem zone_varies : ∃ edited, WithPlacementVary ["geo:zone"] { tags := some ∅ } = .ok (edited, none) ∧
    (resolveDesired untagged edited).Ends (·.isOrder)
      fun demand => demand.VariesBy ["geo:zone"] ↔ ["geo:zone"].length = 1 :=
  vary_option_iff (by decide) untagged { tags := some ∅ } rfl

/-- Of two keys none is used. -/
theorem two_keys_unused : ∃ edited,
    WithPlacementVary ["geo:region", "geo:zone"] { tags := some ∅ } = .ok (edited, none) ∧
      (resolveDesired untagged edited).Ends (·.isOrder) fun demand =>
        "geo:region;geo:zone" ∈ demand.vary ∧ "geo:region" ∉ demand.vary ∧ "geo:zone" ∉ demand.vary ∧
          ¬demand.VariesBy ["geo:region", "geo:zone"] := by
  refine ⟨{ tags := some ((∅ : TagMap).insert "placement:vary" "geo:region;geo:zone") }, rfl, ?_⟩
  refine (rangeOver_ends _).bind fun visited listed => ?_
  have vary : (Demand.resolve untagged.hostIterateByTag visited).vary = _ :=
    Demand.vary_resolve (show _ = some "geo:region;geo:zone" by simp) listed
  change _ ∈ (Demand.resolve untagged.hostIterateByTag visited).vary ∧ _
  have unused (key : String) (other : key ≠ "geo:region;geo:zone") :
      key ∉ (Demand.resolve untagged.hostIterateByTag visited).vary := by
    rw [vary]
    simpa using Ne.symm other
  refine ⟨by simp [vary], unused _ (by decide), unused _ (by decide), fun varies => ?_⟩
  exact unused "geo:zone" (by decide) ((varies _).mpr (by decide))

end Vary

end Zongzi
