import Zongzi.Proofs.Demand

/-! # One pass of the default controller

What a pass does depends on the registry and the demand alone, however the maps are visited.
-/

namespace Zongzi

open Std Machine

namespace Demand

/-- The host has every tag by which replicas are to vary. -/
def varied (demand : Demand) (host : Host) : Bool :=
  demand.vary.keys.all fun tag => (host.tags.bind (·[tag]?)).isSome

/-- The filter of the group selects the host. -/
def selects (demand : Demand) (group : String) (host : Host) : Bool :=
  matchTagFilter host.tags (demand.filters.getD group [])

/-- A replica on the host counts for the group. -/
def counts (demand : Demand) (host : Host) (group : String) : Bool :=
  demand.selects group host && demand.varied host

/-- A replica on the host counts for some group. -/
def wants (demand : Demand) (host : Host) : Bool := demand.desired.keys.any (demand.counts host)

end Demand

section Tally

variable {state : State} {demand : Demand} {tally : Tally} {replicas : List Replica}

/-- The replicas counted so far. -/
structure Tallied (state : State) (demand : Demand) (replicas : List Replica) (tally : Tally) : Prop where
  found : ∀ group ∈ demand.desired, tally.found.getD group 0 =
    (replicas.countP fun replica => demand.counts (state.hostOrZero replica.hostID) group : ℕ)
  undesired : tally.undesired =
    (replicas.filter fun replica => !demand.wants (state.hostOrZero replica.hostID)).map Replica.id
  occupied : ∀ id, tally.occupiedHosts.contains id ↔
    ∃ replica ∈ replicas, demand.wants (state.hostOrZero replica.hostID) ∧ replica.hostID = id
  unvaried : demand.vary = ∅ ∨ replicas = [] → tally.varyCount = ∅

theorem getD_add (counts : Counts) (name group : String) (amount : ℤ) :
    (counts.add name amount).getD group 0 = counts.getD group 0 + if name = group then amount else 0 := by
  rw [Counts.add, ExtTreeMap.getD_insert]
  by_cases same : name = group
  · subst same
    simp
  · simp [same]

theorem varied_iff {host : Host} {tags : List (String × Bool)} (perm : tags.Perm demand.vary.toList) :
    demand.varied host ↔ ∀ tag ∈ tags, (host.tags.bind (·[tag.1]?)).isSome := by
  rw [Demand.varied, ← ExtTreeMap.map_fst_toList_eq_keys, List.all_map, List.all_eq_true]
  simp only [perm.mem_iff, Function.comp_apply]

theorem counts_eq {host : Host} {group : String} (selected : demand.selects group host) :
    demand.counts host group = demand.varied host := by
  rw [Demand.counts, selected, Bool.true_and]

theorem names_eq_nil_iff {host : Host} {groups : List (String × ℤ)} (perm : groups.Perm demand.desired.toList) :
    (groups.map Prod.fst).filter (demand.counts host) = [] ↔ demand.wants host = false := by
  have keys := perm.map Prod.fst
  rw [ExtTreeMap.map_fst_toList_eq_keys] at keys
  rw [Demand.wants, List.any_eq_false, List.filter_eq_nil_iff]
  simp only [keys.mem_iff]

theorem count_names {host : Host} {groups : List (String × ℤ)} (perm : groups.Perm demand.desired.toList)
    {group : String} (present : group ∈ demand.desired) :
    ((groups.map Prod.fst).filter (demand.counts host)).count group = if demand.counts host group then 1 else 0 := by
  have keys := perm.map Prod.fst
  rw [ExtTreeMap.map_fst_toList_eq_keys] at keys
  split
  · next counts =>
    rw [List.count_filter counts, keys.count_eq]
    exact List.count_eq_one_of_mem ExtTreeMap.nodup_keys (ExtTreeMap.mem_keys.mpr present)
  · next uncounted =>
    rw [List.count_eq_zero]
    simp [uncounted]

theorem tallyReplica_ends (tallied : Tallied state demand replicas tally) (replica : Replica) :
    (tallyReplica state demand tally replica).Ends (·.isOrder)
      (Tallied state demand (replicas ++ [replica])) := by
  unfold tallyReplica
  generalize at_ : state.hostOrZero replica.hostID = host
  -- After some groups: their names, if the host counts for them, and one more for each of these.
  refine .bind (rangeOver_ends _) fun groups perm => .bind (.forIn
    (fun front (found, varyCount, names) => names = (front.map Prod.fst).filter (demand.counts host) ∧
      (∀ group, found.getD group 0 = tally.found.getD group 0 + names.count group) ∧
      (demand.vary = ∅ → varyCount = ∅))
    (fun (found, varyCount, names) => names = (groups.map Prod.fst).filter (demand.counts host) ∧
      (∀ group, found.getD group 0 = tally.found.getD group 0 + names.count group) ∧
      (demand.vary = ∅ → varyCount = ∅))
    ⟨rfl, by simp, fun plain => tallied.unvaried (.inl plain)⟩ ?_ fun _ done => done) ?_
  · rintro front ⟨group, size⟩ back ⟨found, varyCount, names⟩ split ⟨listed, counted, plain⟩
    dsimp only at listed counted plain ⊢
    split
    · next selected =>
      refine .bind (rangeOver_ends _) fun tags varied => .bind (.forIn
        (fun passed (varyCount, varies) => varies = true ∧
          (∀ tag ∈ passed, (host.tags.bind (·[tag.1]?)).isSome) ∧ (demand.vary = ∅ → varyCount = ∅))
        (fun (varyCount, varies) => varies = demand.varied host ∧ (demand.vary = ∅ → varyCount = ∅))
        ⟨rfl, by simp, plain⟩ ?_ ?_) ?_
      · rintro passed ⟨tag, mark⟩ rest ⟨counts, varies⟩ split ⟨unbroken, held, -⟩
        dsimp only
        have some_vary : demand.vary ≠ ∅ := by
          intro empty
          have length := varied.length_eq
          simp [empty, split] at length
        cases tagged : host.tags.bind (·[tag]?) with
        | none =>
          refine ⟨.symm (Bool.eq_false_iff.mpr fun all => ?_), fun empty => absurd empty some_vary⟩
          have present := (varied_iff varied).mp all (tag, mark) (by simp [split])
          simp [tagged] at present
        | some value =>
          refine ⟨unbroken, fun other member => ?_, fun empty => absurd empty some_vary⟩
          obtain member | member := List.mem_append.mp member
          · exact held other member
          · simp [List.mem_singleton.mp member, tagged]
      · rintro ⟨counts, varies⟩ ⟨rfl, held, plain⟩
        exact ⟨((varied_iff varied).mpr held).symm, plain⟩
      · rintro ⟨varyCount, varies⟩ ⟨rfl, plain⟩
        dsimp only at plain ⊢
        have here := counts_eq selected
        split
        · next varied =>
          rw [varied] at here
          refine ⟨by simp [listed, here], fun other => ?_, plain⟩
          dsimp only
          rw [getD_add, counted, List.count_append, List.count_singleton]
          simp [add_assoc, beq_iff_eq]
        · next unvaried =>
          rw [Bool.not_eq_true] at unvaried
          rw [unvaried] at here
          exact ⟨by simp [listed, here], counted, plain⟩
    · next unselected =>
      have here : demand.selects group host = false := Bool.eq_false_iff.mpr unselected
      replace here : demand.counts host group = false := by rw [Demand.counts, here, Bool.false_and]
      exact ⟨by simp [listed, here], counted, plain⟩
  · rintro ⟨found, varyCount, names⟩ ⟨listed, counted, plain⟩
    dsimp only at listed counted plain ⊢
    have found_eq (group : String) (present : group ∈ demand.desired) : found.getD group 0 =
        ((replicas ++ [replica]).countP fun other =>
          demand.counts (state.hostOrZero other.hostID) group : ℕ) := by
      rw [counted, tallied.found group present, listed, count_names perm present, List.countP_append,
        List.countP_singleton, at_, Nat.cast_add]
    have empty_iff : names = [] ↔ demand.wants host = false := by
      rw [listed]
      exact names_eq_nil_iff perm
    split
    · next empty =>
      have unwanted := empty_iff.mp empty
      refine ⟨found_eq, ?_, fun id => ?_, fun either => plain (either.resolve_right (by simp))⟩
      · simp [tallied.undesired, at_, unwanted]
      · simp [tallied.occupied, at_, unwanted]
    · next matched =>
      have wanted : demand.wants host = true := by
        rw [← Bool.not_eq_false]
        exact fun unwanted => matched (empty_iff.mpr unwanted)
      refine ⟨found_eq, ?_, fun id => ?_, fun either => plain (either.resolve_right (by simp))⟩
      · simp [tallied.undesired, at_, wanted]
      · simp [tallied.occupied, at_, wanted, ExtTreeMap.contains_insert, or_comm, or_and_right, exists_or]

theorem tally_ends (state : State) (demand : Demand) (replicas : List Replica) :
    (replicas.foldlM (tallyReplica state demand) {}).Ends (·.isOrder) (Tallied state demand replicas) := by
  refine .foldlM _ ?_ fun front replica back tally _ tallied => tallyReplica_ends tallied replica
  refine ⟨fun group _ => ?_, rfl, fun id => ?_, fun _ => rfl⟩
  · simp
  · simp

end Tally

section Plan

variable {demand : Demand} {tally : Tally}

/-- The groups are those of the demand, with what each of them misses. -/
structure Planned (demand : Demand) (tally : Tally) (plan : Plan) : Prop where
  groups : plan.groups.Perm demand.desired.keys
  missing : ∀ group amount, plan.missing[group]? = some amount ↔ ∃ count, demand.desired[group]? = some count ∧
    tally.found.getD group 0 < count ∧ amount = count - tally.found.getD group 0

theorem planGroups_ends (demand : Demand) (tally : Tally) :
    (planGroups demand tally).Ends (·.isOrder) (Planned demand tally) := by
  unfold planGroups
  refine .bind (rangeOver_ends _) fun groups perm => .bind (.forIn
    (fun front plan => plan.groups.Perm (front.map Prod.fst) ∧ ∀ (group : String) (amount : ℤ),
      plan.missing[group]? = some amount ↔ ∃ count, (group, count) ∈ front ∧
        tally.found.getD group 0 < count ∧ amount = count - tally.found.getD group 0)
    (Planned demand tally) ⟨.nil, by simp⟩ ?_ ?_) fun plan planned => planned
  · rintro front ⟨group, count⟩ back plan split ⟨listed, missing⟩
    have stored {name : String} {size : ℤ} (member : (name, size) ∈ groups) : demand.desired[name]? = some size :=
      ExtTreeMap.mem_toList_iff_getElem?_eq_some.mp (perm.mem_iff.mp member)
    -- The step writes at most the entry of its own group.
    have writes (next : Plan) (named : next.groups.Perm (group :: plan.groups))
        (wrote : next.missing = if tally.found.getD group 0 < count then
          plan.missing.insert group (count - tally.found.getD group 0) else plan.missing) :
        next.groups.Perm ((front ++ [(group, count)]).map Prod.fst) ∧ ∀ (name : String) (amount : ℤ),
          next.missing[name]? = some amount ↔ ∃ size, (name, size) ∈ front ++ [(group, count)] ∧
            tally.found.getD name 0 < size ∧ amount = size - tally.found.getD name 0 := by
      refine ⟨?_, fun name amount => ?_⟩
      · rw [List.map_append]
        exact named.trans ((listed.cons group).trans (List.perm_append_singleton ..).symm)
      · have kept (other : name ≠ group ∨ ¬ tally.found.getD group 0 < count) :
            next.missing[name]? = plan.missing[name]? := by
          rw [wrote]
          split
          · next lacks =>
            obtain different | complete := other
            · simp [ExtTreeMap.getElem?_insert, Ne.symm different]
            · exact absurd lacks complete
          · rfl
        by_cases same : name = group
        · subst same
          have only {size : ℤ} (member : (name, size) ∈ front ++ [(name, count)]) : size = count := by
            have member : (name, size) ∈ groups := by
              rw [split]
              simp only [List.mem_append, List.mem_cons, List.not_mem_nil, or_false] at member ⊢
              exact member.imp_right .inl
            exact Option.some.inj ((stored member).symm.trans (stored (by simp [split])))
          by_cases lacks : tally.found.getD name 0 < count
          · rw [wrote, if_pos lacks, ExtTreeMap.getElem?_insert_self, Option.some_inj]
            constructor
            · rintro rfl
              exact ⟨count, by simp, lacks, rfl⟩
            · rintro ⟨size, member, -, rfl⟩
              rw [only member]
          · rw [kept (.inr lacks), missing]
            constructor
            · rintro ⟨size, member, less, rfl⟩
              exact ⟨size, List.mem_append_left _ member, less, rfl⟩
            · rintro ⟨size, member, less, -⟩
              exact absurd (only member ▸ less) lacks
        · rw [kept (.inl same), missing]
          simp [same]
    dsimp only
    split <;> split <;> split
    all_goals
      refine writes _ ?_ (by simp_all)
      first
        | exact .refl _
        | exact List.perm_append_singleton ..
  · rintro plan ⟨listed, missing⟩
    refine ⟨listed.trans ?_, fun group amount => ?_⟩
    · rw [← ExtTreeMap.map_fst_toList_eq_keys]
      exact perm.map _
    · rw [missing]
      simp only [perm.mem_iff, ExtTreeMap.mem_toList_iff_getElem?_eq_some]

theorem Planned.getD_missing {plan : Plan} (planned : Planned demand tally plan) {group : String} {count : ℤ}
    (wanted : demand.desired[group]? = some count) :
    (plan.missing.getD group 0).toNat = (count - tally.found.getD group 0).toNat := by
  rw [ExtTreeMap.getD_eq_getD_getElem?]
  cases lookup : plan.missing[group]? with
  | some amount =>
    obtain ⟨size, stored, -, rfl⟩ := (planned.missing group amount).mp lookup
    cases wanted.symm.trans stored
    rfl
  | none =>
    have enough : ¬ tally.found.getD group 0 < count := by
      intro lacks
      have stored := (planned.missing group _).mpr ⟨count, wanted, lacks, rfl⟩
      cases lookup.symm.trans stored
    rw [Option.getD_none]
    omega

end Plan

section Matches

variable {state : State} {demand : Demand} {tally : Tally}

/-- The group does not have exactly what it wants. -/
def Demand.isOpen (demand : Demand) (tally : Tally) (group : String) : Bool :=
  demand.desired[group]?.any fun count => tally.found.getD group 0 ≠ count

/-- A host that a group can still be placed on. -/
def Demand.admits (demand : Demand) (tally : Tally) (group : String) (host : Host) : Bool :=
  demand.isOpen tally group && !tally.occupiedHosts.contains host.id && demand.selects group host

theorem findMatches_ends (state : State) (demand : Demand) (tally : Tally) :
    (findMatches state demand tally).Ends (·.isOrder) fun candidates =>
      ∀ group, candidates.matches_.getD group [] = state.hostIterate.filter (demand.admits tally group) := by
  unfold findMatches
  refine .bind (.forIn
    (fun front (candidates : Candidates) => ∀ group, candidates.matches_.getD group [] =
      front.filter (demand.admits tally group)) _ (by simp) ?_ fun _ done => done) fun _ done => done
  intro front host back candidates split listed
  dsimp only
  split
  · next occupied =>
    intro group
    rw [List.filter_append, listed]
    simp [Demand.admits, occupied]
  · next free =>
    -- The host is listed for the groups visited so far that admit it.
    refine .bind (rangeOver_ends _) fun groups perm => .bind (.forIn
      (fun passed (candidates : Candidates) => ∀ group, candidates.matches_.getD group [] =
        front.filter (demand.admits tally group) ++
          if group ∈ passed.map Prod.fst ∧ demand.admits tally group host then [host] else [])
      (fun (candidates : Candidates) => ∀ group, candidates.matches_.getD group [] =
        (front ++ [host]).filter (demand.admits tally group)) (by simpa using listed) ?_ ?_) fun _ done => done
    · rintro passed ⟨group, count⟩ rest candidates split listed
      have wanted : demand.desired[group]? = some count := by
        rw [← ExtTreeMap.mem_toList_iff_getElem?_eq_some, ← perm.mem_iff, split]
        simp
      have admits : demand.admits tally group host = (decide (tally.found.getD group 0 ≠ count) &&
          demand.selects group host) := by
        simp [Demand.admits, Demand.isOpen, wanted, free]
      have skips (refused : demand.admits tally group host = false) (name : String) :
          candidates.matches_.getD name [] = front.filter (demand.admits tally name) ++
            if name ∈ (passed ++ [(group, count)]).map Prod.fst ∧ demand.admits tally name host then [host]
            else [] := by
        rw [listed]
        congr 1
        refine if_congr ?_ rfl rfl
        rw [List.map_append, List.mem_append, or_and_right]
        refine (or_iff_left ?_).symm
        rintro ⟨here, admitted⟩
        cases List.mem_singleton.mp here
        cases refused.symm.trans admitted
      dsimp only
      split
      · next complete => exact skips (by simp [admits, complete])
      · next differs =>
        split
        · next selected =>
          refine .bind (rangeOver_ends _) fun tags _ => .bind (.forIn
            (fun _ (next : Candidates) =>
              next.matches_ = candidates.matches_.insert group (candidates.matches_.getD group [] ++ [host]))
            _ rfl (fun _ _ _ _ _ same => same) fun _ done => done) fun next same name => ?_
          have admitted : demand.admits tally group host := by
            simpa [admits, differs, Demand.selects] using selected
          have distinct : group ∉ passed.map Prod.fst := key_not_mem_front perm split
          rw [same, ExtTreeMap.getD_insert]
          by_cases here : group = name
          · subst here
            rw [if_pos compare_self, listed, if_neg (fun both => distinct both.1),
              if_pos ⟨by simp, admitted⟩, List.append_nil]
          · rw [if_neg (by simpa using here), listed]
            congr 1
            refine if_congr ?_ rfl rfl
            simp [Ne.symm here]
        · next unselected => exact skips (by simp [admits, Demand.selects, unselected])
    · intro candidates listed group
      rw [listed, List.filter_append]
      congr 1
      have visited : demand.admits tally group host → group ∈ groups.map Prod.fst := by
        intro admitted
        simp only [Demand.admits, Demand.isOpen, Bool.and_eq_true, Option.any_eq_true] at admitted
        obtain ⟨⟨⟨count, wanted, -⟩, -⟩, -⟩ := admitted
        have member : (group, count) ∈ groups :=
          perm.mem_iff.mpr (ExtTreeMap.mem_toList_iff_getElem?_eq_some.mpr wanted)
        exact List.mem_map_of_mem member
      rw [List.filter_singleton, Bool.cond_eq_ite]
      exact if_congr (and_iff_right_of_imp visited) rfl rfl

end Matches

section Place

variable {placing : Placing} {group : String} {shard : Shard} {varyTags : List String}
  {possible : (op : ControlOp) → ControlRes op → Prop}

/-- The calls that create or delete replicas. -/
def changes (calls : List (Σ op, ControlRes op)) : List (Σ op, ControlRes op) :=
  calls.filter fun call => !call.1.isOrder

@[simp] theorem changes_append (first second : List (Σ op, ControlRes op)) :
    changes (first ++ second) = changes first ++ changes second :=
  List.filter_append ..

theorem changes_eq_nil {calls : List (Σ op, ControlRes op)} (quiet : ∀ call ∈ calls, call.1.isOrder) :
    changes calls = [] := by
  simpa [changes, List.filter_eq_nil_iff] using quiet

theorem requiresRebalance_ends (tally : Tally) :
    (requiresRebalance tally).Ends (·.isOrder) fun _ => True := by
  unfold requiresRebalance
  refine .bind (rangeOver_ends _) fun tables _ => .bind (.forIn (fun _ _ => True) _ trivial ?_ fun _ _ => trivial)
    fun _ _ => trivial
  rintro _ ⟨_, tags⟩ _ _ _ -
  refine .bind (rangeOver_ends _) fun counts _ => .bind (.forIn (fun _ _ => True) _ trivial ?_ fun _ _ => trivial)
    fun _ _ => trivial
  rintro _ ⟨_, count⟩ _ _ _ -
  dsimp only
  split <;> split <;> split <;> trivial

/-- The choice without replicas to vary from, as far as it is known. -/
def Unvaried (placing : Placing) (group : String) (chosen : Option (List String)) : Prop :=
  placing.varyCount.getD group ∅ = ∅ → chosen = some []

theorem chooseVaryTags_ends (placing : Placing) (group : String) :
    (chooseVaryTags placing group).Ends (·.isOrder) (Unvaried placing group) := by
  unfold chooseVaryTags Unvaried
  generalize placing.varyCount.getD group ∅ = counts
  refine .bind (rangeOver_ends _) fun visited perm => .bind (.forIn
    (fun _ (values, found) => counts = ∅ → values = ∅ ∧ found = ∅)
    (fun (values, found) => counts = ∅ → values = ∅ ∧ found = ∅) (fun _ => ⟨rfl, rfl⟩) ?_ fun _ done => done) ?_
  · rintro front ⟨tag, count⟩ back ⟨values, found⟩ split -
    have some_count : counts ≠ ∅ := by
      intro empty
      have length := perm.length_eq
      simp [empty, split] at length
    dsimp only
    split
    · exact fun empty => absurd empty some_count
    · split
      · exact fun empty => absurd empty some_count
      · exact fun empty => absurd empty some_count
  · rintro ⟨values, found⟩ blank
    dsimp only
    split
    · next few =>
      intro empty
      simp [empty] at few
    · refine .bind (rangeOver_ends _) fun keys perm => .bind (.forIn
        (fun front tags => front = [] → tags = []) (fun tags => found = ∅ → tags = []) (fun _ => rfl) ?_ ?_) ?_
      · rintro front ⟨tag, count⟩ back tags split -
        have some_found : found ≠ ∅ := by
          intro empty
          have length := perm.length_eq
          simp [empty, split] at length
        dsimp only
        split
        · exact fun empty => absurd empty some_found
        · intro nil
          simp at nil
      · rintro tags none rfl
        exact none (List.eq_nil_of_length_eq_zero (by simpa using perm.length_eq))
      · rintro tags none empty
        rw [none (blank empty).2]

/-- The call that creates a replica of a group on a host. -/
def createOn (shard : Shard) (group : String) (host : Host) : ControlOp :=
  .create host.id shard.id (group != "member")

end Place

end Zongzi
