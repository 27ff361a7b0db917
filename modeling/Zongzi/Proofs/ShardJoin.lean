import Zongzi.Machine.Loops
import Zongzi.Model.HostController
import Zongzi.Proofs.Runs

/-! # Joining a shard through its members

`requestShardJoin` asks the members of a shard one after the other. It gives each of them a context with a deadline and
repeats the request until it is answered. A request with an expired context is answered by an error, and the next
one is made all the same. So it comes to an end exactly if it never makes a request after the deadline.
-/

namespace Zongzi

open Std Machine Program

abbrev HostCall : Type := Σ op, HostRes op

/-- Times are in nanoseconds. -/
def second : ℕ := 1000000000

def raftTimeout : ℕ := 30 * second

def HostOp.isAdd : HostOp → Bool
  | .add .. => true
  | _ => false

/-- The deadline of the next request. Its context is made after the last call that is not a request itself. -/
def deadline (now : List HostCall → ℕ) (calls : List HostCall) : ℕ :=
  now (calls.rdropWhile (·.1.isAdd)) + raftTimeout

/-- How everything else answers the calls of a host controller, and when it makes them. -/
structure JoinWorld where
  answer : List HostCall → (op : HostOp) → HostRes op
  /-- The time when the next call is made. -/
  now : List HostCall → ℕ
  /-- The controller sleeps after a request that has failed. -/
  sleeps : ∀ calls apiAddress request err, answer calls (.add apiAddress request) = .error err →
    now calls + second ≤ now (calls ++ [⟨.add apiAddress request, .error err⟩])
  /-- A request with an expired context fails. -/
  expires : ∀ calls apiAddress request, deadline now calls ≤ now calls →
    ∃ err, answer calls (.add apiAddress request) = .error err

/-- The host that is asked for a member. A read that fails leaves the host of the member before. -/
def hostAfter (host : Option Host) (hostID : String) : Except String Snapshot → Option Host
  | .error _ => host
  | .ok snapshot => (snapshot.state.host hostID).toOption.join

namespace JoinWorld

variable (world : JoinWorld)

/-- No request is made after its deadline. -/
def InTime (calls : List HostCall) : Prop :=
  ∀ front call back, calls = front ++ call :: back → call.1.isAdd → world.now front < deadline world.now front

variable {world} {calls made : List HostCall} {apiAddress : String} {request : AddRequest}

theorem InTime.front (inTime : world.InTime made) (before : calls <+: made) : world.InTime calls := by
  obtain ⟨rest, rfl⟩ := before
  intro front call back split
  exact inTime front call (back ++ rest) (by simp [split])

theorem inTime_concat {call : HostCall} :
    world.InTime (calls ++ [call]) ↔
      world.InTime calls ∧ (call.1.isAdd → world.now calls < deadline world.now calls) := by
  constructor
  · intro inTime
    exact ⟨inTime.front (List.prefix_append ..), inTime calls call [] rfl⟩
  · rintro ⟨inTime, last⟩ front other back split asks
    obtain rfl | ⟨rest, final, rfl⟩ := List.eq_nil_or_concat' back
    · obtain ⟨rfl, same⟩ := List.append_inj' split rfl
      cases same
      exact last asks
    · rw [← List.cons_append, ← List.append_assoc] at split
      exact inTime front other rest (List.append_inj' split rfl).1 asks

theorem deadline_add {now : List HostCall → ℕ} {answer : Except String ℕ} :
    deadline now (calls ++ [⟨.add apiAddress request, answer⟩]) = deadline now calls := by
  rw [deadline, List.rdropWhile_concat_pos _ _ _ rfl, deadline]

theorem deadline_read {now : List HostCall → ℕ} {call : HostCall} (other : call.1.isAdd = false) :
    deadline now (calls ++ [call]) = now (calls ++ [call]) + raftTimeout := by
  rw [deadline, List.rdropWhile_concat_neg _ _ _ (by simp [other])]

section Add

variable (world calls apiAddress request)

/-- Asking one member, with its calls. -/
def adds (fuel : ℕ) : Option ℕ × List HostCall := (addReplica apiAddress request fuel).converse world.answer calls

variable {world calls apiAddress request}

theorem adds_of_ok {fuel value : ℕ} (answered : world.answer calls (.add apiAddress request) = .ok value) :
    world.adds calls apiAddress request (fuel + 1) =
      (some value, calls ++ [⟨.add apiAddress request, .ok value⟩]) := by
  simp [adds, addReplica, converse, answered]

theorem adds_of_error {fuel : ℕ} {err : String} (failed : world.answer calls (.add apiAddress request) = .error err) :
    world.adds calls apiAddress request (fuel + 1) =
      world.adds (calls ++ [⟨.add apiAddress request, .error err⟩]) apiAddress request fuel := by
  simp [adds, addReplica, converse, failed]

/-- A member that is asked after the deadline is asked forever. -/
theorem adds_of_expired (expired : deadline world.now calls ≤ world.now calls) (fuel : ℕ) :
    (world.adds calls apiAddress request fuel).1 = none := by
  induction fuel generalizing calls with
  | zero => rfl
  | succ fuel ih =>
    obtain ⟨err, failed⟩ := world.expires calls apiAddress request expired
    have later := world.sleeps calls apiAddress request err failed
    rw [adds_of_error failed]
    refine ih ?_
    rw [deadline_add]
    exact expired.trans (le_of_add_le_left later)

theorem inTime_of_adds {fuel : ℕ} (inTime : world.InTime calls)
    (answered : (world.adds calls apiAddress request fuel).1.isSome) :
    world.InTime (world.adds calls apiAddress request fuel).2 := by
  induction fuel generalizing calls with
  | zero => cases answered
  | succ fuel ih =>
    have early : world.now calls < deadline world.now calls := by
      by_contra expired
      rw [adds_of_expired (Nat.le_of_not_lt expired)] at answered
      cases answered
    cases attempt : world.answer calls (.add apiAddress request) with
    | ok value =>
      rw [adds_of_ok attempt]
      exact inTime_concat.mpr ⟨inTime, fun _ => early⟩
    | error err =>
      rw [adds_of_error attempt] at answered ⊢
      exact ih (inTime_concat.mpr ⟨inTime, fun _ => early⟩) answered

/-- A member that is not asked after the deadline has answered before. -/
theorem adds_isSome {fuel : ℕ} (enough : deadline world.now calls ≤ world.now calls + fuel * second)
    (inTime : world.InTime (world.adds calls apiAddress request (fuel + 1)).2) :
    (world.adds calls apiAddress request (fuel + 1)).1.isSome := by
  induction fuel generalizing calls with
  | zero =>
    cases attempt : world.answer calls (.add apiAddress request) with
    | ok value =>
      rw [adds_of_ok attempt]
      rfl
    | error err =>
      rw [adds_of_error attempt] at inTime
      have early := (inTime_concat.mp inTime).2 rfl
      omega
  | succ fuel ih =>
    cases attempt : world.answer calls (.add apiAddress request) with
    | ok value =>
      rw [adds_of_ok attempt]
      rfl
    | error err =>
      rw [adds_of_error attempt] at inTime ⊢
      have later := world.sleeps calls apiAddress request err attempt
      refine ih ?_ inTime
      rw [deadline_add]
      calc deadline world.now calls
        _ ≤ world.now calls + (fuel + 1) * second := enough
        _ = world.now calls + second + fuel * second := by ring
        _ ≤ _ := Nat.add_le_add_right later _

/-- With more fuel a run that has come to an end is the same, and any other goes on. -/
def Extends (less more : Option ℕ × List HostCall) : Prop := less = more ∨ less.1 = none ∧ less.2 <+: more.2

variable (world calls apiAddress request) in
theorem adds_extends {fuel fuel' : ℕ} (le : fuel ≤ fuel') :
    Extends (world.adds calls apiAddress request fuel) (world.adds calls apiAddress request fuel') := by
  induction fuel generalizing calls fuel' with
  | zero => exact .inr ⟨rfl, prefix_converse ..⟩
  | succ fuel ih =>
    obtain ⟨fuel', rfl⟩ := Nat.exists_eq_add_of_lt le
    cases attempt : world.answer calls (.add apiAddress request) with
    | ok value => exact .inl (by rw [adds_of_ok attempt, adds_of_ok attempt])
    | error err =>
      rw [adds_of_error attempt, adds_of_error attempt]
      exact ih _ (Nat.le_add_right ..)

end Add

section Members

variable {fuel : ℕ} {members : List (ℕ × String)} {host : Option Host} {value : ℕ}

variable (world request fuel members)

/-- Asking the members, with all calls. -/
def asks (host : Option Host) (value : ℕ) (calls : List HostCall) : Option ℕ × List HostCall :=
  (requestMembers request fuel members host value).converse world.answer calls

/-- What follows the answer of a member. -/
def asksOn (found : Host) : Option ℕ × List HostCall → Option ℕ × List HostCall
  | (none, made) => (none, made)
  | (some value, made) =>
    if 0 < value then (some value, made) else world.asks request fuel members (some found) value made

/-- The calls after the read for a member. -/
def reads (calls : List HostCall) : List HostCall := calls ++ [⟨.agent .read, world.answer calls (.agent .read)⟩]

variable {world request fuel members}

theorem converse_found {found : Host} :
    (do match ← addReplica found.apiAddress request fuel with
        | none => return none
        | some value =>
          if 0 < value then return some value
          else requestMembers request fuel members (some found) value : HostM _).converse world.answer calls =
      world.asksOn request fuel members found (world.adds calls found.apiAddress request fuel) := by
  rw [converse_bind, ← adds]
  rcases world.adds calls found.apiAddress request fuel with ⟨_ | value, made⟩
  · rfl
  · dsimp only [asksOn]
    split
    · rfl
    · rfl

theorem asks_cons {member : ℕ × String} : world.asks request fuel (member :: members) host value calls =
    match hostAfter host member.2 (world.answer calls (.agent .read)) with
    | none => world.asks request fuel members none value (world.reads calls)
    | some found => world.asksOn request fuel members found
      (world.adds (world.reads calls) found.apiAddress request fuel) := by
  rw [asks, requestMembers, perform_bind, converse, reads]
  cases world.answer calls (.agent .read) with
  | error err =>
    cases host with
    | none => rfl
    | some found => exact converse_found
  | ok snapshot =>
    dsimp only [hostAfter, pure_eq, done_bind]
    cases (snapshot.state.host member.2).toOption.join with
    | none => rfl
    | some found => exact converse_found

variable (world request fuel members) in
theorem prefix_asksOn (found : Host) (made : Option ℕ × List HostCall) :
    made.2 <+: (world.asksOn request fuel members found made).2 := by
  rcases made with ⟨_ | value, made⟩
  · exact List.prefix_rfl
  · dsimp only [asksOn]
    split
    · exact List.prefix_rfl
    · exact prefix_converse ..

theorem asks_extends {fuel' : ℕ} (le : fuel ≤ fuel') :
    Extends (world.asks request fuel members host value calls) (world.asks request fuel' members host value calls) := by
  induction members generalizing host value calls with
  | nil => exact .inl rfl
  | cons member members ih =>
    rw [asks_cons, asks_cons]
    cases hostAfter host member.2 (world.answer calls (.agent .read)) with
    | none => exact ih
    | some found =>
      dsimp only
      obtain same | ⟨unanswered, before⟩ := adds_extends world (world.reads calls) found.apiAddress request le
      · rw [same]
        rcases world.adds (world.reads calls) found.apiAddress request fuel' with ⟨_ | value, made⟩
        · exact .inl rfl
        · dsimp only [asksOn]
          split
          · exact .inl rfl
          · exact ih
      · have onwards := before.trans (prefix_asksOn world request fuel' members found _)
        generalize world.adds (world.reads calls) found.apiAddress request fuel = less at unanswered onwards
        obtain ⟨_, made⟩ := less
        cases unanswered
        exact .inr ⟨rfl, onwards⟩

/-- A run that comes to an end makes no request after its deadline. -/
theorem inTime_of_asks (inTime : world.InTime calls)
    (ended : (world.asks request fuel members host value calls).1.isSome) :
    world.InTime (world.asks request fuel members host value calls).2 := by
  induction members generalizing host value calls with
  | nil => exact inTime
  | cons member members ih =>
    have read : world.InTime (world.reads calls) := inTime_concat.mpr ⟨inTime, by simp [HostOp.isAdd]⟩
    rw [asks_cons] at ended ⊢
    cases looked : hostAfter host member.2 (world.answer calls (.agent .read)) with
    | none =>
      rw [looked] at ended
      exact ih read ended
    | some found =>
      simp only [looked] at ended ⊢
      have answers : (world.adds (world.reads calls) found.apiAddress request fuel).1.isSome →
          world.InTime (world.adds (world.reads calls) found.apiAddress request fuel).2 := inTime_of_adds read
      generalize world.adds (world.reads calls) found.apiAddress request fuel = asked at ended answers ⊢
      rcases asked with ⟨_ | value, made⟩
      · cases ended
      · dsimp only [asksOn] at ended ⊢
        split
        · exact answers rfl
        · next refused =>
          rw [if_neg refused] at ended
          exact ih (answers rfl) ended

/-- A run in which no request is made after its deadline comes to an end. -/
theorem asks_isSome (fuel : ℕ) (enough : raftTimeout ≤ fuel * second)
    (inTime : world.InTime (world.asks request (fuel + 1) members host value calls).2) :
    (world.asks request (fuel + 1) members host value calls).1.isSome := by
  induction members generalizing host value calls with
  | nil => rfl
  | cons member members ih =>
    rw [asks_cons] at inTime ⊢
    cases looked : hostAfter host member.2 (world.answer calls (.agent .read)) with
    | none =>
      rw [looked] at inTime
      exact ih inTime
    | some found =>
      simp only [looked] at inTime ⊢
      have answers : (world.adds (world.reads calls) found.apiAddress request (fuel + 1)).1.isSome := by
        refine adds_isSome ?_ (inTime.front (prefix_asksOn ..))
        rw [reads, deadline_read rfl]
        exact Nat.add_le_add_left enough _
      generalize world.adds (world.reads calls) found.apiAddress request (fuel + 1) = asked at inTime answers ⊢
      rcases asked with ⟨_ | value, made⟩
      · cases answers
      · dsimp only [asksOn] at inTime ⊢
        split
        · rfl
        · next refused =>
          rw [if_neg refused] at inTime
          exact ih inTime

end Members

end JoinWorld

/-- What a run does that comes to an end: the members are asked in turn, each until it answers, and the first positive
answer is the result. A member without a host is left out. The other arguments are the host and the value of the member
before. -/
inductive Tries (request : AddRequest) : List (ℕ × String) → Option Host → ℕ → List HostCall → ℕ → Prop where
  | ended (host : Option Host) (value : ℕ) : Tries request [] host value [] value
  | missing {id : ℕ} {hostID : String} {members : List (ℕ × String)} {host : Option Host} {value result : ℕ}
      {read : Except String Snapshot} {calls : List HostCall} (absent : hostAfter host hostID read = none)
      (rest : Tries request members none value calls result) :
      Tries request ((id, hostID) :: members) host value (⟨.agent .read, read⟩ :: calls) result
  | added {id : ℕ} {hostID : String} {members : List (ℕ × String)} {host : Option Host} {value result : ℕ}
      {read : Except String Snapshot} {found : Host} (present : hostAfter host hostID read = some found)
      (failures : List String) (positive : 0 < result) :
      Tries request ((id, hostID) :: members) host value (⟨.agent .read, read⟩ ::
        (failures.map (fun err => ⟨.add found.apiAddress request, .error err⟩) ++
          [⟨.add found.apiAddress request, .ok result⟩])) result
  | refused {id : ℕ} {hostID : String} {members : List (ℕ × String)} {host : Option Host} {value result : ℕ}
      {read : Except String Snapshot} {found : Host} {calls : List HostCall}
      (present : hostAfter host hostID read = some found) (failures : List String)
      (rest : Tries request members (some found) 0 calls result) :
      Tries request ((id, hostID) :: members) host value (⟨.agent .read, read⟩ ::
        (failures.map (fun err => ⟨.add found.apiAddress request, .error err⟩) ++
          ⟨.add found.apiAddress request, .ok 0⟩ :: calls)) result

section Records

variable (request : AddRequest)

theorem addReplica_records (apiAddress : String) (fuel : ℕ) :
    (addReplica apiAddress request fuel).Records (fun _ _ => True) fun outcome calls => ∀ value ∈ outcome,
      ∃ failures : List String, calls = failures.map (fun err => ⟨.add apiAddress request, .error err⟩) ++
        [⟨.add apiAddress request, .ok value⟩] := by
  induction fuel with
  | zero => exact fun _ none_answered => by cases none_answered
  | succ fuel ih =>
    intro answer _
    cases answer with
    | ok value =>
      intro other same
      cases same
      exact ⟨[], rfl⟩
    | error err =>
      refine ih.mono fun outcome calls made value answered => ?_
      obtain ⟨failures, rfl⟩ := made value answered
      exact ⟨err :: failures, rfl⟩

theorem requestMembers_records (fuel : ℕ) (members : List (ℕ × String)) (host : Option Host) (value : ℕ) :
    (requestMembers request fuel members host value).Records (fun _ _ => True) fun outcome calls =>
      ∀ result ∈ outcome, Tries request members host value calls result := by
  induction members generalizing host value with
  | nil =>
    intro result same
    cases same
    exact .ended host value
  | cons member members ih =>
    obtain ⟨id, hostID⟩ := member
    intro read _
    have asked (found : Host) (present : hostAfter host hostID read = some found) :
        (do match ← addReplica found.apiAddress request fuel with
          | none => return none
          | some value =>
            if 0 < value then return some value
            else requestMembers request fuel members (some found) value : HostM _).Records (fun _ _ => True)
          fun outcome calls => ∀ result ∈ outcome,
            Tries request ((id, hostID) :: members) host value (⟨.agent .read, read⟩ :: calls) result := by
      refine (addReplica_records ..).bind fun outcome calls answered => ?_
      cases outcome with
      | none => exact fun _ none_answered => by cases none_answered
      | some answer =>
        obtain ⟨failures, rfl⟩ := answered answer rfl
        dsimp only
        split
        · next positive =>
          intro result same
          cases same
          rw [List.append_nil]
          exact .added present failures positive
        · next refused =>
          obtain rfl : answer = 0 := Nat.eq_zero_of_not_pos refused
          refine (ih (some found) 0).mono fun outcome calls rest result ended => ?_
          rw [List.append_assoc]
          exact .refused present failures (rest result ended)
    have skipped (absent : hostAfter host hostID read = none) :
        (requestMembers request fuel members none value).Records (fun _ _ => True) fun outcome calls =>
          ∀ result ∈ outcome,
            Tries request ((id, hostID) :: members) host value (⟨.agent .read, read⟩ :: calls) result :=
      (ih none value).mono fun outcome calls rest result ended => .missing absent (rest result ended)
    cases read with
    | error err =>
      cases host with
      | none => exact skipped rfl
      | some found => exact asked found rfl
    | ok snapshot =>
      dsimp only [hostAfter] at asked skipped
      dsimp only [pure_eq, done_bind, Program.bind]
      cases present : (snapshot.state.host hostID).toOption.join with
      | none => exact skipped present
      | some found => exact asked found present

end Records

/-- A request to join a shard comes to an end, with every member tried that the registry shows until one has answered
with a positive value, exactly if it never asks a member after the deadline of its context. -/
theorem join_ends_iff (world : JoinWorld) (members : ExtTreeMap ℕ String) (request : AddRequest) :
    (∃ fuel result order calls, (requestShardJoin members request fuel).converse world.answer [] =
        (some result, ⟨.agent (.order members.size), order⟩ :: calls) ∧
      Tries request (order.val.filterMap (members.toList[·]?)) none 0 calls result) ↔
    ∀ fuel, world.InTime ((requestShardJoin members request fuel).converse world.answer []).2 := by
  let order : Order members.size := world.answer [] (.agent (.order members.size))
  let ordered : HostCall := ⟨.agent (.order members.size), order⟩
  have same (fuel : ℕ) : (requestShardJoin members request fuel).converse world.answer [] =
      world.asks request fuel (order.val.filterMap (members.toList[·]?)) none 0 [ordered] := rfl
  constructor
  · rintro ⟨fuel, result, _, calls, ran, -⟩ other
    rw [same] at ran
    have inTime : world.InTime
        (world.asks request fuel (order.val.filterMap (members.toList[·]?)) none 0 [ordered]).2 := by
      have start : world.InTime [] := fun front call back split => by simp at split
      refine JoinWorld.inTime_of_asks (JoinWorld.inTime_concat.mpr ⟨start, fun asks => by cases asks⟩) ?_
      rw [ran]
      rfl
    rw [same]
    obtain less | more := Nat.le_total other fuel
    · obtain equal | ⟨-, before⟩ := JoinWorld.asks_extends less
      · rwa [equal]
      · exact inTime.front before
    · obtain equal | ⟨unanswered, -⟩ := JoinWorld.asks_extends more
      · rwa [← equal]
      · rw [ran] at unanswered
        cases unanswered
  · intro inTime
    -- Each member is asked at most once per second until its deadline.
    obtain ⟨result, ended⟩ := Option.isSome_iff_exists.mp (JoinWorld.asks_isSome 30 le_rfl (inTime 31))
    obtain ⟨calls, made, tries⟩ := (requestMembers_records request 31
      (order.val.filterMap (members.toList[·]?)) none 0).of_converse world.answer [ordered]
    exact ⟨31, result, order, calls, Prod.ext ended made, tries result ended⟩

/-- The calls take no time, and a second passes after each of them. The answer to a request is given for the number of
calls before it. -/
def clockWorld (registry : State) (replies : ℕ → Except String ℕ)
    (late : ∀ count, 30 ≤ count → ∃ err, replies count = .error err) : JoinWorld where
  answer calls
    | .agent (.order count) => .unmoved count
    | .agent .read => .ok ⟨registry, fun _ => []⟩
    | .add .. => replies calls.length
    | .agent (.propose _) => .error ""
    | .agent .cancelled => false
    | .agent (.parseMeta _) => .error ""
    | .agent (.syncGetShardMembership _) => .error ""
    | .agent (.syncRequestAdd ..) => .error ""
    | .agent (.startReplica ..) => .error ""
    | .agent (.info _) => .error ""
    | .agent (.members _) => .error ""
    | .agent (.status _) => .error ""
    | .agent (.hostID _) => ""
    | .agent (.replicaID _) => 0
    | .agent (.startHost ..) => ()
    | .agent (.setReplicaID ..) => ()
    | .agent (.setMembers ..) => ()
    | .agent (.setStatus ..) => ()
    | .getNodeHostInfo => []
    | .startReplica .. => .error ""
  now calls := calls.length * second
  sleeps calls apiAddress request err _ := by simp [Nat.add_mul]
  expires calls _ _ expired := late calls.length
    (Nat.le_of_mul_le_mul_right ((Nat.le_add_left ..).trans expired) (by decide : 0 < second))

/-- Every request fails. -/
def deadWorld (registry : State) : JoinWorld :=
  clockWorld registry (fun _ => .error "unavailable") fun _ _ => ⟨"unavailable", rfl⟩

theorem adds_deadWorld (registry : State) (calls : List HostCall) (apiAddress : String) (request : AddRequest)
    (fuel : ℕ) : ((deadWorld registry).adds calls apiAddress request fuel).1 = none := by
  induction fuel generalizing calls with
  | zero => rfl
  | succ fuel ih => exact ih _

theorem asks_deadWorld {registry : State} {host : Host} {id : ℕ} {hostID : String} {members : List (ℕ × String)}
    {request : AddRequest} (present : (registry.host hostID).toOption.join = some host) (fuel : ℕ)
    (calls : List HostCall) :
    ((deadWorld registry).asks request fuel ((id, hostID) :: members) none 0 calls).1 = none := by
  have looked : hostAfter none hostID ((deadWorld registry).answer calls (.agent .read)) = some host := present
  have unanswered := adds_deadWorld registry ((deadWorld registry).reads calls) host.apiAddress request fuel
  rw [JoinWorld.asks_cons]
  simp only [looked]
  generalize (deadWorld registry).adds ((deadWorld registry).reads calls) host.apiAddress request fuel = asked
    at unanswered ⊢
  obtain ⟨_, made⟩ := asked
  cases unanswered
  rfl

private theorem exampleHost_registered :
    ∃ reached ∈ (Fsm.run {} [{ index := 1, cmd := .host .put Fsm.exampleHost }]).toOption,
      (reached.1.host Fsm.exampleHost.id).toOption.join.isSome := by
  decide +kernel

/-- The second request to the only member is answered. -/
theorem second_request_in_time :
    ∃ (world : JoinWorld) (members : ExtTreeMap ℕ String) (request : AddRequest), members.size = 1 ∧
      ((requestShardJoin members request 2).converse world.answer []).1 = some 1 ∧
      ∀ fuel, world.InTime ((requestShardJoin members request fuel).converse world.answer []).2 := by
  obtain ⟨⟨registry, _⟩, -, present⟩ := exampleHost_registered
  obtain ⟨host, found⟩ := Option.isSome_iff_exists.mp present
  let world : JoinWorld := clockWorld registry (fun count => if count = 3 then .ok 1 else .error "unavailable")
    fun count enough => ⟨"unavailable", if_neg (by omega)⟩
  have looked : hostAfter none Fsm.exampleHost.id (.ok ⟨registry, fun _ => []⟩) = some host := found
  have ran : (requestShardJoin {(1, Fsm.exampleHost.id)} ⟨"", 1, 2, false⟩ 2).converse world.answer [] =
      (some 1, [⟨.agent (.order 1), .unmoved 1⟩, ⟨.agent .read, .ok ⟨registry, fun _ => []⟩⟩,
        ⟨.add host.apiAddress ⟨"", 1, 2, false⟩, .error "unavailable"⟩,
        ⟨.add host.apiAddress ⟨"", 1, 2, false⟩, .ok 1⟩]) := by
    change world.asks _ 2 [(1, Fsm.exampleHost.id)] none 0 [⟨.agent (.order 1), .unmoved 1⟩] = _
    have read : hostAfter none Fsm.exampleHost.id (world.answer [⟨.agent (.order 1), .unmoved 1⟩] (.agent .read)) =
        some host := looked
    rw [JoinWorld.asks_cons]
    simp only [read]
    rw [JoinWorld.adds_of_error rfl, JoinWorld.adds_of_ok rfl]
    rfl
  exact ⟨world, {(1, Fsm.exampleHost.id)}, ⟨"", 1, 2, false⟩, rfl, congrArg Prod.fst ran,
    (join_ends_iff world _ _).mp ⟨2, 1, _, _, ran, .added looked ["unavailable"] Nat.one_pos⟩⟩

/-- The only member does not answer, and the request does not come to an end. -/
theorem dead_member_asked_forever :
    ∃ (world : JoinWorld) (members : ExtTreeMap ℕ String) (request : AddRequest), members.size = 1 ∧
      ∀ fuel, ((requestShardJoin members request fuel).converse world.answer []).1 = none := by
  obtain ⟨⟨registry, _⟩, -, present⟩ := exampleHost_registered
  refine ⟨deadWorld registry, {(1, Fsm.exampleHost.id)}, ⟨"", 1, 2, false⟩, rfl, fun fuel => ?_⟩
  change ((deadWorld registry).asks _ fuel [(1, Fsm.exampleHost.id)] none 0 _).1 = none
  obtain ⟨host, found⟩ := Option.isSome_iff_exists.mp present
  exact asks_deadWorld found fuel _

end Zongzi
