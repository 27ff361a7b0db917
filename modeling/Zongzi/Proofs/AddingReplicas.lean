import Zongzi.Proofs.Reconcile

/-! # Adding missing replicas

The loop that adds replicas takes one host after the other. `pick` is the host of the next `Create` call and
`take` is what is left after it. Here the loop also returns its calls, each with the group it is made for.
Without them it is `addMissing` (`fst_addMissingTraced`).
-/

namespace Zongzi

open Std Machine

section Pick

variable {placing : Placing} {group : String} {varyTags : List String} {host : Host}
  {possible : (op : ControlOp) → ControlRes op → Prop}

namespace Placing

/-- The host is free and has the tags. -/
def accepts (placing : Placing) (varyTags : List String) (host : Host) : Bool :=
  !placing.occupiedHosts.contains host.id && matchTagFilter host.tags varyTags

/-- The host on which the next replica of a group is created. -/
def pick (placing : Placing) (group : String) (varyTags : List String) : Option Host :=
  (placing.matches_.getD group []).find? (placing.accepts varyTags)

/-- What is left after a replica was created on a host. -/
def take (placing : Placing) (group : String) (varyTags : List String) (host : Host) : Placing where
  matches_ := placing.matches_.insert group
    ((placing.matches_.getD group []).eraseP (placing.accepts varyTags))
  varyMatch := varyTags.foldl (fun counts varyTag => addTo counts group (parseTag varyTag).1 (-1)) placing.varyMatch
  varyCount := varyTags.foldl (fun counts varyTag => addTo counts group varyTag 1) placing.varyCount
  occupiedHosts := placing.occupiedHosts.insert host.id true

end Placing

private theorem split_of_zipIdx {α : Type} {items : List α} {front back : List (α × ℕ)} {item : α} {position : ℕ}
    (split : items.zipIdx = front ++ (item, position) :: back) :
    position = front.length ∧ items = front.map Prod.fst ++ item :: back.map Prod.fst := by
  have here : items.zipIdx[front.length]? = some (item, position) := by simp [split]
  refine ⟨?_, ?_⟩
  · rw [List.getElem?_zipIdx] at here
    obtain ⟨_, _, same⟩ := Option.map_eq_some_iff.mp here
    simpa using (congrArg Prod.snd same).symm
  · have named := congrArg (List.map Prod.fst) split
    rwa [List.zipIdx_map_fst, List.map_append, List.map_cons] at named

/-- A replica is created on the picked host, if there is one. -/
theorem placeReplica_picks (placing : Placing) (shard : Shard) (group : String) (varyTags : List String) :
    (placeReplica shard placing group varyTags).Records possible fun outcome calls =>
      match placing.pick group varyTags with
      | none => outcome = .ok none ∧ calls = []
      | some host => ∃ answer : Except String ℕ, calls = [⟨createOn shard group host, answer⟩] ∧
          outcome = answer.map fun _ => some (placing.take group varyTags host) := by
  unfold placeReplica
  refine .bind (.forIn
    (fun front (outcome, _) calls => outcome = none ∧ calls = [] ∧
      ∀ host ∈ front, placing.accepts varyTags host.1 = false)
    (fun (outcome, _) calls => match placing.pick group varyTags with
      | none => outcome.getD (.ok none) = .ok none ∧ calls = []
      | some host => ∃ answer : Except String ℕ, calls = [⟨createOn shard group host, answer⟩] ∧
          outcome.getD (.ok none) = answer.map fun _ => some (placing.take group varyTags host))
    ⟨rfl, rfl, by simp⟩ ?_ ?_) ?_
  · rintro front ⟨host, position⟩ back ⟨outcome, _⟩ calls split ⟨-, rfl, passed⟩
    have skip (refused : placing.accepts varyTags host = false) (other : Host × ℕ)
        (member : other ∈ front ++ [(host, position)]) : placing.accepts varyTags other.1 = false := by
      obtain earlier | here := List.mem_append.mp member
      · exact passed other earlier
      · rwa [List.mem_singleton.mp here]
    dsimp only
    split
    · next occupied => exact ⟨rfl, rfl, skip (by simp [Placing.accepts, occupied])⟩
    · next free =>
      have accepts_eq : placing.accepts varyTags host = matchTagFilter host.tags varyTags := by
        simp [Placing.accepts, Bool.eq_false_iff.mpr free]
      split
      · next fits =>
        have accepted : placing.accepts varyTags host := by
          rw [accepts_eq]
          obtain rfl | fits : varyTags = [] ∨ matchTagFilter host.tags varyTags := by simpa using fits
          · rfl
          · exact fits
        obtain ⟨rfl, listed⟩ := split_of_zipIdx split
        have refused : ∀ other ∈ front.map Prod.fst, ¬ placing.accepts varyTags other := by
          intro other member
          obtain ⟨entry, earlier, rfl⟩ := List.mem_map.mp member
          simp [passed entry earlier]
        have picked : placing.pick group varyTags = some host := by
          rw [Placing.pick, listed, List.find?_append, List.find?_eq_none.mpr refused]
          simp [accepted]
        have erased : (placing.matches_.getD group []).eraseP (placing.accepts varyTags) =
            (placing.matches_.getD group []).eraseIdx front.length := by
          rw [listed, List.eraseP_append_right _ refused, List.eraseP_cons_of_pos accepted,
            List.eraseIdx_append_of_length_le (by simp)]
          simp
        rw [picked]
        intro answer _
        cases answer with
        | error err => exact ⟨.error err, rfl, rfl⟩
        | ok id =>
          refine ⟨.ok id, rfl, ?_⟩
          simp only [Placing.take, erased]
          rfl
      · next unfit =>
        have unfit : varyTags ≠ [] ∧ matchTagFilter host.tags varyTags = false := by simpa using unfit
        exact ⟨rfl, rfl, skip (accepts_eq.trans unfit.2)⟩
  · rintro ⟨outcome, _⟩ calls ⟨rfl, rfl, passed⟩
    have nobody : placing.pick group varyTags = none := by
      rw [Placing.pick, List.find?_eq_none]
      intro host member
      obtain ⟨position, here⟩ := List.mem_iff_getElem?.mp member
      simpa using passed (host, position) (List.mem_zipIdx_iff_getElem?.mpr here)
    rw [nobody]
    exact ⟨rfl, rfl⟩
  · rintro ⟨outcome, _⟩ calls held
    rw [← List.append_nil calls] at held
    cases outcome with
    | none => exact held
    | some outcome => exact held

end Pick

section Traced

/-- One call of `Create`, and the group it is made for. -/
structure Attempt where
  group : String
  hostID : String
  shardID : ℕ
  isNonVoting : Bool
  answer : Except String ℕ

def Attempt.read (group : String) : (Σ op, ControlRes op) → Option Attempt
  | ⟨.create hostID shardID isNonVoting, answer⟩ => some ⟨group, hostID, shardID, isNonVoting, answer⟩
  | _ => none

def Attempt.call (attempt : Attempt) : Σ op, ControlRes op :=
  ⟨.create attempt.hostID attempt.shardID attempt.isNonVoting, attempt.answer⟩

def addMissingTraced (shard : Shard) (plan : Plan) (start : Placing) :
    Reconciliation (Option String × List Attempt) := do
  let mut placing := start
  let mut attempts : List Attempt := []
  for group in plan.groups do
    for _ in List.range (plan.missing.getD group 0).toNat do
      if placing.matches_.getD group [] = [] then
        break
      match ← chooseVaryTags placing group with
      | none => break
      | some varyTags =>
        let (outcome, calls) ← (placeReplica shard placing group varyTags).record
        attempts := attempts ++ calls.filterMap (Attempt.read group)
        match outcome with
        | .error err => return (some err, attempts)
        | .ok none => break
        | .ok (some next) => placing := next
  return (none, attempts)

/-- The attempts change nothing else. -/
theorem fst_addMissingTraced (shard : Shard) (plan : Plan) (start : Placing) :
    Prod.fst <$> addMissingTraced shard plan start = addMissing shard plan start := by
  let forget (state : Option (Option String × List Attempt) × Placing × List Attempt) :
      Option (Option String) × Placing := (state.1.map Prod.fst, state.2.1)
  unfold addMissingTraced addMissing
  refine map_forIn_bind forget (fun group state => ?_) ?_
  · refine map_forIn_bind forget (fun round state => ?_) ?_
    · dsimp only [forget]
      split
      · rfl
      · simp only [map_bind]
        refine bind_congr fun chosen => ?_
        cases chosen with
        | none => rfl
        | some varyTags =>
          dsimp only
          generalize placeReplica shard state.2.1 group varyTags = program
          conv_rhs => rw [← program.fst_record]
          simp only [map_bind, bind_map_left]
          refine bind_congr ?_
          rintro ⟨err | _ | next, calls⟩
          · rfl
          · rfl
          · rfl
    · rintro ⟨_ | outcome, placing, attempts⟩
      · rfl
      · rfl
  · rintro ⟨_ | outcome, placing, attempts⟩
    · rfl
    · rfl

end Traced

section Run

variable {chooses : Placing → String → Option (List String) → Prop} {plan : Plan} {start placing next : Placing}
  {group : String} {shard : Shard} {possible : (op : ControlOp) → ControlRes op → Prop}

/-- A host that was picked for a group, and what became of it. -/
structure Placed where
  group : String
  host : Host
  answer : Except String ℕ

def Placed.attempt (shard : Shard) (placed : Placed) : Attempt where
  group := placed.group
  hostID := placed.host.id
  shardID := shard.id
  isNonVoting := placed.group != "member"
  answer := placed.answer

namespace Placing

/-- One host is picked and taken. -/
def Places (chooses : Placing → String → Option (List String) → Prop) (placing : Placing) (one : Placed)
    (next : Placing) : Prop :=
  ∃ varyTags, chooses placing one.group (some varyTags) ∧ placing.pick one.group varyTags = some one.host ∧
    next = placing.take one.group varyTags one.host

/-- No host can be picked for the group. -/
def Stuck (chooses : Placing → String → Option (List String) → Prop) (placing : Placing) (group : String) : Prop :=
  placing.matches_.getD group [] = [] ∨ chooses placing group none ∨
    ∃ varyTags, chooses placing group (some varyTags) ∧ placing.pick group varyTags = none

end Placing

/-- Only the last of the answers may be an error, which the controller then returns. -/
def Ended : Option String → List Placed → Prop
  | none, placed => ∀ one ∈ placed, one.answer.isOk
  | some err, placed => ∃ front last, placed = front ++ [last] ∧ last.answer = .error err ∧
      ∀ one ∈ front, one.answer.isOk

/-- The group gets what it misses or comes to a point where no host can be picked for it. -/
def Stops (chooses : Placing → String → Option (List String) → Prop) (plan : Plan) (start : Placing)
    (placed : List Placed) (group : String) : Prop :=
  (plan.missing.getD group 0).toNat ≤ placed.countP (·.group = group) ∨
    ∃ front back middle, placed = front ++ back ∧ Path (Placing.Places chooses) start front middle ∧
      middle.Stuck chooses group

theorem Stops.append {placed : List Placed} (stops : Stops chooses plan start placed group) (more : List Placed) :
    Stops chooses plan start (placed ++ more) group := by
  refine stops.imp (fun enough => ?_) ?_
  · rw [List.countP_append]
    omega
  · rintro ⟨front, back, middle, rfl, path, stuck⟩
    exact ⟨front, back ++ more, middle, List.append_assoc .., path, stuck⟩

/-- Hosts are taken one after the other, for each group at most as many as it misses. -/
structure AddRun (chooses : Placing → String → Option (List String) → Prop) (plan : Plan) (start : Placing)
    (placed : List Placed) (err : Option String) : Prop where
  path : ∃ final, Path (Placing.Places chooses) start placed final
  planned : ∀ one ∈ placed, one.group ∈ plan.groups
  bounded : ∀ group, placed.countP (·.group = group) ≤ (plan.missing.getD group 0).toNat
  ended : Ended err placed
  stops : err = none → ∀ group ∈ plan.groups, Stops chooses plan start placed group

/-- What is known while hosts are taken for the groups visited so far. -/
structure Running (chooses : Placing → String → Option (List String) → Prop) (plan : Plan) (shard : Shard)
    (start : Placing) (visited : List String) (placing : Placing) (placed : List Placed) (attempts : List Attempt)
    (calls : List (Σ op, ControlRes op)) : Prop where
  path : Path (Placing.Places chooses) start placed placing
  attempts_eq : attempts = placed.map (Placed.attempt shard)
  calls_eq : changes calls = attempts.map Attempt.call
  visited : ∀ one ∈ placed, one.group ∈ visited
  bounded : ∀ group, placed.countP (·.group = group) ≤ (plan.missing.getD group 0).toNat
  succeeded : ∀ one ∈ placed, one.answer.isOk

variable {visited : List String} {placed : List Placed} {attempts : List Attempt}
  {calls more : List (Σ op, ControlRes op)}

theorem Running.nil : Running chooses plan shard start [] start [] [] [] where
  path := .nil
  attempts_eq := rfl
  calls_eq := rfl
  visited := by simp
  bounded := by simp
  succeeded := by simp

theorem Running.quiet (running : Running chooses plan shard start visited placing placed attempts calls)
    (unchanged : changes more = []) :
    Running chooses plan shard start visited placing placed attempts (calls ++ more) :=
  { running with calls_eq := by rw [changes_append, unchanged, List.append_nil, running.calls_eq] }

/-- One more host is taken; what is known afterwards, but for the answer. -/
theorem Running.take (running : Running chooses plan shard start visited placing placed attempts calls)
    (one : Placed) (places : placing.Places chooses one next) (here : one.group ∈ visited)
    (misses : placed.countP (·.group = one.group) < (plan.missing.getD one.group 0).toNat) :
    Path (Placing.Places chooses) start (placed ++ [one]) next ∧
      attempts ++ [one.attempt shard] = (placed ++ [one]).map (Placed.attempt shard) ∧
      changes (calls ++ [(one.attempt shard).call]) = (attempts ++ [one.attempt shard]).map Attempt.call ∧
      (∀ other ∈ placed ++ [one], other.group ∈ visited) ∧
      ∀ group, (placed ++ [one]).countP (·.group = group) ≤ (plan.missing.getD group 0).toNat := by
  refine ⟨.snoc running.path places, by simp [running.attempts_eq], ?_, ?_, fun group => ?_⟩
  · rw [changes_append, running.calls_eq, List.map_append]
    rfl
  · simpa [or_imp, forall_and] using ⟨running.visited, here⟩
  · rw [List.countP_append, List.countP_singleton]
    split
    · next same =>
      cases of_decide_eq_true same
      exact misses
    · exact running.bounded group

/-- The calls for one group. -/
def GroupRun (chooses : Placing → String → Option (List String) → Prop) (plan : Plan) (shard : Shard)
    (start : Placing) (visited : List String) (placed : List Placed) (group : String) (placing : Placing)
    (attempts : List Attempt) :
    Option (Option String × List Attempt) → List (Σ op, ControlRes op) → Prop
  | none, calls => ∃ added, Running chooses plan shard start visited placing (placed ++ added) attempts calls ∧
      Stops chooses plan start (placed ++ added) group
  | some (err, attempts), calls => ∃ placed : List Placed, attempts = placed.map (Placed.attempt shard) ∧
      changes calls = attempts.map Attempt.call ∧ AddRun chooses plan start placed err

theorem addMissingTraced_records
    (chosen : ∀ placing group, (chooseVaryTags placing group).Ends (·.isOrder) (chooses placing group))
    (nodup : plan.groups.Nodup) (start : Placing) :
    (addMissingTraced shard plan start).Records possible fun (err, attempts) calls =>
      ∃ placed : List Placed, attempts = placed.map (Placed.attempt shard) ∧
        changes calls = attempts.map Attempt.call ∧ AddRun chooses plan start placed err := by
  unfold addMissingTraced
  refine .bind (.forIn
    (fun front (outcome, placing, attempts) calls => outcome = none ∧ ∃ placed,
      Running chooses plan shard start front placing placed attempts calls ∧
        ∀ group ∈ front, Stops chooses plan start placed group)
    (fun (outcome, placing, attempts) calls => ∃ placed : List Placed,
      (outcome.getD (none, attempts)).2 = placed.map (Placed.attempt shard) ∧
        changes calls = (outcome.getD (none, attempts)).2.map Attempt.call ∧
          AddRun chooses plan start placed (outcome.getD (none, attempts)).1)
    ⟨rfl, [], .nil, by simp⟩ ?_ ?_) ?_
  · rintro front group back ⟨outcome, placing, attempts⟩ calls outer ⟨-, placed, running, stopped⟩
    have fresh : group ∉ front := by
      rw [outer, List.nodup_append] at nodup
      exact fun member => nodup.2.2 group member group (by simp) rfl
    have none_yet : placed.countP (·.group = group) = 0 := by
      rw [List.countP_eq_zero]
      intro one member same
      exact fresh (of_decide_eq_true same ▸ running.visited one member)
    replace running : Running chooses plan shard start (front ++ [group]) placing placed attempts calls :=
      { running with visited := fun one member => List.mem_append_left _ (running.visited one member) }
    refine .bind (.forIn
      (fun passed (outcome, placing, attempts) more => outcome = none ∧ ∃ added,
        Running chooses plan shard start (front ++ [group]) placing (placed ++ added) attempts (calls ++ more) ∧
          (placed ++ added).countP (·.group = group) = passed.length)
      (fun (outcome, placing, attempts) more =>
        GroupRun chooses plan shard start (front ++ [group]) placed group placing attempts outcome (calls ++ more))
      ⟨rfl, [], by simpa using running, by simpa using none_yet⟩ ?_ ?_) ?_
    · rintro passed round rest ⟨outcome, placing, attempts⟩ more split ⟨-, added, running, count⟩
      have misses : (placed ++ added).countP (·.group = group) < (plan.missing.getD group 0).toNat := by
        have length := congrArg List.length split
        simp at length
        omega
      have stuck (placing_stuck : placing.Stuck chooses group) :
          Stops chooses plan start (placed ++ added) group :=
        .inr ⟨placed ++ added, [], placing, by simp, running.path, placing_stuck⟩
      dsimp only at running ⊢
      split
      · next empty => exact ⟨added, by simpa using running, stuck (.inl empty)⟩
      · refine .bind (chosen placing group).records fun choice asked ⟨chooses_it, quiet⟩ => ?_
        replace running := running.quiet (changes_eq_nil quiet)
        cases choice with
        | none => exact ⟨added, by simpa using running, stuck (.inr (.inl chooses_it))⟩
        | some varyTags =>
          refine (placeReplica_picks placing shard group varyTags).record.bind
            fun (outcome, made) calls' ⟨same, picks⟩ => ?_
          subst same
          dsimp only at picks ⊢
          cases picked : placing.pick group varyTags with
          | none =>
            rw [picked] at picks
            obtain ⟨rfl, rfl⟩ := picks
            refine ⟨added, by simpa using running, stuck (.inr (.inr ⟨varyTags, chooses_it, picked⟩))⟩
          | some host =>
            rw [picked] at picks
            obtain ⟨answer, made_eq, rfl⟩ := picks
            have read : made.filterMap (Attempt.read group) = [Placed.attempt shard ⟨group, host, answer⟩] := by
              rw [made_eq]
              rfl
            replace made_eq : made = [(Placed.attempt shard ⟨group, host, answer⟩).call] := made_eq
            rw [read, made_eq]
            obtain ⟨path, attempts_eq, calls_eq, within, bounded⟩ := running.take ⟨group, host, answer⟩
              ⟨varyTags, chooses_it, picked, rfl⟩ (by simp) misses
            cases answer with
            | error err =>
              refine ⟨placed ++ added ++ [⟨group, host, .error err⟩], attempts_eq, by simpa using calls_eq,
                ⟨_, path⟩, fun one member => ?_, bounded, ⟨_, _, rfl, rfl, running.succeeded⟩, by simp⟩
              rw [outer, List.append_cons]
              exact List.mem_append_left _ (within one member)
            | ok id =>
              have succeeded : ∀ one ∈ placed ++ added ++ [⟨group, host, .ok id⟩], one.answer.isOk := by
                simpa [or_imp, forall_and, Except.isOk, Except.toBool] using running.succeeded
              refine ⟨rfl, added ++ [⟨group, host, .ok id⟩], ?_, ?_⟩
              · rw [← List.append_assoc]
                exact ⟨path, attempts_eq, by simpa using calls_eq, within, bounded, succeeded⟩
              · rw [← List.append_assoc, List.countP_append, count]
                simp
    · rintro ⟨outcome, placing, attempts⟩ more ⟨rfl, added, running, count⟩
      exact ⟨added, running, .inl (by simpa using count.ge)⟩
    · rintro ⟨outcome, placing, attempts⟩ more held
      dsimp only at held ⊢
      rw [← List.append_nil more] at held
      match outcome, held with
      | none, ⟨added, running, stops⟩ =>
        refine ⟨rfl, placed ++ added, running, fun name member => ?_⟩
        obtain member | member := List.mem_append.mp member
        · exact (stopped name member).append added
        · cases List.mem_singleton.mp member
          exact stops
      | some (err, attempts), failed => exact failed
  · rintro ⟨outcome, placing, attempts⟩ calls ⟨rfl, placed, running, stopped⟩
    exact ⟨placed, running.attempts_eq, running.calls_eq, ⟨placing, running.path⟩, running.visited, running.bounded,
      running.succeeded, fun _ => stopped⟩
  · rintro ⟨outcome, placing, attempts⟩ calls held
    rw [← List.append_nil calls] at held
    cases outcome with
    | none => exact held
    | some outcome => exact held

end Run

section Remaining

variable {chooses : Placing → String → Option (List String) → Prop} {start placing next : Placing}
  {placed : List Placed} {group : String} {one : Placed}

private theorem filter_eraseP {α : Type} {p q : α → Bool} {items : List α}
    (refused : ∀ item, items.find? p = some item → q item = false) : (items.eraseP p).filter q = items.filter q := by
  induction items with
  | nil => rfl
  | cons item items ih =>
    by_cases taken : p item
    · rw [List.eraseP_cons_of_pos taken, List.filter_cons_of_neg]
      simp [refused item (List.find?_cons_of_pos taken)]
    · rw [List.eraseP_cons_of_neg taken, List.filter_cons, List.filter_cons, ih]
      intro other found
      exact refused other ((List.find?_cons_of_neg taken).trans found)

namespace Placing

/-- No replica is on the host. -/
def free (placing : Placing) (host : Host) : Bool := !placing.occupiedHosts.contains host.id

theorem pick_eq (placing : Placing) (group : String) (varyTags : List String) : placing.pick group varyTags =
    ((placing.matches_.getD group []).filter placing.free).find? fun host => matchTagFilter host.tags varyTags := by
  rw [List.find?_filter, pick]
  congr 1
  funext host
  rw [Bool.decide_and, Bool.decide_eq_true, Bool.decide_eq_true]
  rfl

theorem free_of_pick {varyTags : List String} {host : Host} (picked : placing.pick group varyTags = some host) :
    placing.free host := by
  rw [pick_eq] at picked
  exact (List.mem_filter.mp (List.mem_of_find?_eq_some picked)).2

theorem free_take {varyTags : List String} {host other : Host} :
    (placing.take group varyTags host).free other = (placing.free other && other.id != host.id) := by
  rw [free, take, ExtTreeMap.contains_insert, Bool.not_or, Bool.and_comm, bne_comm]
  congr 1
  rw [Bool.eq_iff_iff]
  simp

end Placing

/-- Hosts on which replicas were created are no longer free, and otherwise the lists are as they were. -/
structure Remaining (start : Placing) (placed : List Placed) (placing : Placing) : Prop where
  free : ∀ host, placing.free host ↔ start.free host ∧ ∀ one ∈ placed, one.host.id ≠ host.id
  listed : ∀ group, (placing.matches_.getD group []).filter placing.free =
    (start.matches_.getD group []).filter placing.free
  distinct : (placed.map (·.host.id)).Nodup

theorem Remaining.take (remaining : Remaining start placed placing) (places : placing.Places chooses one next) :
    Remaining start (placed ++ [one]) next := by
  obtain ⟨varyTags, -, picked, rfl⟩ := places
  have narrower (hosts : List Host) : hosts.filter (placing.take one.group varyTags one.host).free =
      (hosts.filter placing.free).filter fun host => host.id != one.host.id := by
    rw [List.filter_filter]
    exact List.filter_congr fun host _ => by rw [Placing.free_take, Bool.and_comm]
  refine ⟨fun host => ?_, fun group => ?_, ?_⟩
  · rw [Placing.free_take, Bool.and_eq_true, remaining.free, and_assoc, bne_iff_ne, ne_comm]
    simp only [List.mem_append, List.mem_singleton, or_imp, forall_and, forall_eq]
  · have kept : ((placing.take one.group varyTags one.host).matches_.getD group []).filter
        (placing.take one.group varyTags one.host).free =
        (placing.matches_.getD group []).filter (placing.take one.group varyTags one.host).free := by
      simp only [Placing.take, ExtTreeMap.getD_insert]
      split
      · next same =>
        rw [Std.compare_eq_iff_eq] at same
        subst same
        refine filter_eraseP fun host found => ?_
        cases picked.symm.trans found
        exact Placing.free_take.trans (by simp)
      · rfl
    rw [kept, narrower, remaining.listed, ← narrower]
  · rw [List.map_append, List.nodup_append]
    refine ⟨remaining.distinct, List.nodup_singleton _, fun id member other here => ?_⟩
    cases List.mem_singleton.mp here
    obtain ⟨earlier, before, rfl⟩ := List.mem_map.mp member
    exact ((remaining.free one.host).mp (Placing.free_of_pick picked)).2 earlier before

theorem Remaining.of_path (path : Path (Placing.Places chooses) start placed placing) :
    Remaining start placed placing := by
  induction path with
  | nil => exact ⟨by simp, fun _ => rfl, .nil⟩
  | snoc before places ih => exact ih.take places

/-- The next host is the first free one of the list that has the tags. -/
theorem Remaining.pick_eq (remaining : Remaining start placed placing) (varyTags : List String) :
    placing.pick group varyTags =
      ((start.matches_.getD group []).filter placing.free).find? fun host => matchTagFilter host.tags varyTags := by
  rw [Placing.pick_eq, remaining.listed]

end Remaining

section Untraced

variable {chooses : Placing → String → Option (List String) → Prop} {plan : Plan} {start placing : Placing}
  {placed : List Placed} {group : String} {err : Option String}

/-- A replica that was created for a group. -/
structure Created where
  group : String
  host : Host
  id : ℕ

def Created.call (shard : Shard) (created : Created) : Σ op, ControlRes op :=
  ⟨createOn shard created.group created.host, .ok created.id⟩

def Created.attempted (created : Created) : Placed := ⟨created.group, created.host, .ok created.id⟩

theorem exists_created (succeeded : ∀ one ∈ placed, one.answer.isOk) :
    ∃ created : List Created, placed = created.map Created.attempted := by
  induction placed with
  | nil => exact ⟨[], rfl⟩
  | cons one placed ih =>
    obtain ⟨created, rfl⟩ := ih fun other member => succeeded other (List.mem_cons_of_mem _ member)
    have ok := succeeded one List.mem_cons_self
    obtain ⟨group, host, err | id⟩ := one
    · cases ok
    · exact ⟨⟨group, host, id⟩ :: created, rfl⟩

/-- A group that misses replicas can be placed on the host. -/
structure Offers (plan : Plan) (start : Placing) (group : String) (host : Host) : Prop where
  planned : group ∈ plan.groups
  missing : 0 < (plan.missing.getD group 0).toNat
  listed : host ∈ start.matches_.getD group []
  free : start.free host

/-- A host is picked only for a group that can be placed on it. -/
theorem AddRun.offers (run : AddRun chooses plan start placed err) {one : Placed} (member : one ∈ placed) :
    Offers plan start one.group one.host := by
  have planned := run.planned one member
  have some_placed : 0 < placed.countP (·.group = one.group) := List.countP_pos_iff.mpr ⟨one, member, by simp⟩
  have missing := some_placed.trans_le (run.bounded _)
  obtain ⟨final, path⟩ := run.path
  obtain ⟨front, back, rfl⟩ := List.append_of_mem member
  obtain ⟨before, after, reached, ⟨varyTags, -, picked, -⟩, -⟩ := path.cut
  have remaining := Remaining.of_path reached
  have free := ((remaining.free one.host).mp (Placing.free_of_pick picked)).1
  rw [remaining.pick_eq] at picked
  exact ⟨planned, missing, (List.mem_filter.mp (List.mem_of_find?_eq_some picked)).1, free⟩

/-- The group has what it missed, or no host is left for it. -/
def Saturated (plan : Plan) (start : Placing) (placed : List Placed) (group : String) : Prop :=
  (plan.missing.getD group 0).toNat ≤ placed.countP (·.group = group) ∨
    ∀ host ∈ start.matches_.getD group [], start.free host → ∃ one ∈ placed, one.host.id = host.id

/-- A group that can be placed anywhere takes hosts until none is free. -/
theorem Remaining.exhausted (remaining : Remaining start placed placing) (nobody : placing.pick group [] = none)
    {host : Host} (listed : host ∈ start.matches_.getD group []) (free : start.free host) :
    ∃ one ∈ placed, one.host.id = host.id := by
  rw [remaining.pick_eq, List.find?_eq_none] at nobody
  by_contra untaken
  have still : placing.free host :=
    (remaining.free host).mpr ⟨free, fun one member same => untaken ⟨one, member, same⟩⟩
  exact nobody host (List.mem_filter.mpr ⟨listed, still⟩) rfl

theorem varyCount_of_path (path : Path (Placing.Places Unvaried) start placed placing)
    (plain : ∀ name, start.varyCount.getD name ∅ = ∅) : placing.varyCount = start.varyCount := by
  induction path with
  | nil => rfl
  | snoc _ places ih =>
    obtain ⟨varyTags, chosen, -, rfl⟩ := places
    cases chosen (by rw [ih, plain])
    exact ih

theorem AddRun.saturated (run : AddRun Unvaried plan start placed none)
    (plain : ∀ name, start.varyCount.getD name ∅ = ∅) (planned : group ∈ plan.groups) :
    Saturated plan start placed group := by
  refine (run.stops rfl group planned).imp_right ?_
  rintro ⟨front, back, middle, rfl, path, stuck⟩ host listed free
  have any {chosen : Option (List String)} (chooses : Unvaried middle group chosen) : chosen = some [] :=
    chooses (by rw [varyCount_of_path path plain, plain])
  have nobody : middle.pick group [] = none := by
    obtain empty | chosen | ⟨varyTags, chosen, nobody⟩ := stuck
    · rw [Placing.pick, empty]
      rfl
    · cases any chosen
    · cases any chosen
      exact nobody
  obtain ⟨one, member, same⟩ := (Remaining.of_path path).exhausted nobody listed free
  exact ⟨one, List.mem_append_left _ member, same⟩

end Untraced

end Zongzi
