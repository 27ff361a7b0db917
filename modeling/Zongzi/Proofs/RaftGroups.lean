import Zongzi.Model.RaftGroups
import Zongzi.Proofs.HostController

/-! # What controllers and handlers ask for

A controller asks for nothing that its snapshot does not list for its host, a handler asks raft for nothing that it
was not sent, and it confirms nothing that raft has not accepted. Each program is verified alone, against everything
that the others may do between two of its calls.
-/

namespace Zongzi

open Std Machine Relation

/-- The host is registered, and the scan for it finds the replica. -/
def State.Finds (state : State) (hostID : String) (replica : Replica) : Prop :=
  ∃ key, uuidKey hostID = some key ∧ (state.hosts.id[key]?).isSome ∧ Scans key replica.hostID replica.id

/-- The registry has such a replica, on the host of the member or among what a scan finds for that host. Two texts of
one identifier name one host. -/
def State.Lists (state : State) (member : AddRequest) : Prop :=
  ∃ replica, state.replica member.replicaID = some replica ∧ replica.shardID = member.shardID ∧
    replica.isNonVoting = member.isNonVoting ∧
      (uuidKey replica.hostID = uuidKey member.hostID ∨ state.Finds member.hostID replica)

namespace Fabric

variable {fabric next : Fabric} {member : AddRequest}

/-- A registry has listed the member. -/
def Recorded (fabric : Fabric) (member : AddRequest) : Prop := ∃ state ∈ fabric.past, state.Lists member

/-- A raft group has accepted the replica. -/
def Accepted (fabric : Fabric) (shardID replicaID : ℕ) (isNonVoting : Bool) : Prop :=
  ∃ member ∈ fabric.members, member.shardID = shardID ∧ member.replicaID = replicaID ∧
    member.isNonVoting = isNonVoting

/-- Everything on the way to a raft group was listed, and what was confirmed was accepted. -/
structure Sound (fabric : Fabric) : Prop where
  current : fabric.cluster.registry ∈ fabric.past
  sent : ∀ apiAddress request, (apiAddress, request) ∈ fabric.sent → fabric.Recorded request
  requested : ∀ change ∈ fabric.requested, fabric.Recorded change
  members : ∀ member ∈ fabric.members, fabric.Recorded member
  answers : ∀ apiAddress request value, (apiAddress, request, value) ∈ fabric.answers → 0 < value →
    fabric.Accepted request.shardID request.replicaID request.isNonVoting

/-- Nothing is forgotten, and what is sound stays sound. -/
structure Follows (before after : Fabric) : Prop where
  past : before.past ⊆ after.past
  members : before.members ⊆ after.members
  sound : before.Sound → after.Sound

theorem Follows.refl (fabric : Fabric) : fabric.Follows fabric := ⟨List.Subset.refl _, List.Subset.refl _, id⟩

theorem Follows.trans {last : Fabric} (first : fabric.Follows next) (second : next.Follows last) :
    fabric.Follows last where
  past := List.Subset.trans first.past second.past
  members := List.Subset.trans first.members second.members
  sound := second.sound ∘ first.sound

theorem Follows.of_star (steps : ReflTransGen Follows fabric next) : fabric.Follows next := by
  induction steps with
  | refl => exact .refl fabric
  | tail _ step ih => exact ih.trans step

theorem Recorded.mono (recorded : fabric.Recorded member) (past : fabric.past ⊆ next.past) : next.Recorded member := by
  obtain ⟨state, known, lists⟩ := recorded
  exact ⟨state, past known, lists⟩

theorem Accepted.mono {shardID replicaID : ℕ} {isNonVoting : Bool}
    (accepted : fabric.Accepted shardID replicaID isNonVoting) (members : fabric.members ⊆ next.members) :
    next.Accepted shardID replicaID isNonVoting := by
  obtain ⟨member, listed, same⟩ := accepted
  exact ⟨member, members listed, same⟩

/-- What must hold when a call is made. -/
def Warrants (fabric : Fabric) : FabricOp → Prop
  | .send _ request => fabric.Recorded request
  | .reply _ request (.ok value) => 0 < value →
    fabric.Accepted request.shardID request.replicaID request.isNonVoting
  | .host (.agent (.propose cmd)) => ∃ id, cmd = newCmdReplicaUpdateStatus id .active
  | .host (.agent (.syncRequestAdd shardID replicaID hostID isNonVoting _)) =>
    fabric.Recorded { hostID, shardID, replicaID, isNonVoting }
  | .host (.startReplica _ members join config) =>
    (∀ member ∈ initial config.shardID (members.getD ∅), fabric.Recorded member) ∧
      (join → fabric.Accepted config.shardID config.replicaID config.isNonVoting)
  | _ => True

section Steps

theorem follows_take (fabric : Fabric) (cluster : Cluster) : fabric.Follows (fabric.take cluster) where
  past := List.subset_cons_self _ _
  members := List.Subset.refl _
  sound sound :=
    { current := List.mem_cons_self
      sent := fun apiAddress request listed => (sound.sent apiAddress request listed).mono (List.subset_cons_self _ _)
      requested := fun change listed => (sound.requested change listed).mono (List.subset_cons_self _ _)
      members := fun member listed => (sound.members member listed).mono (List.subset_cons_self _ _)
      answers := sound.answers }

/-- New members that were listed. -/
theorem follows_members {members : List AddRequest} (recorded : ∀ member ∈ members, fabric.Recorded member) :
    fabric.Follows { fabric with members := members ++ fabric.members } where
  past := List.Subset.refl _
  members := List.subset_append_right _ _
  sound sound :=
    { sound with
      members := fun member listed => (List.mem_append.mp listed).elim (recorded member) (sound.members member)
      answers := fun apiAddress request value listed positive =>
        (sound.answers apiAddress request value listed positive).mono (List.subset_append_right _ _) }

theorem follows_requested {change : AddRequest} (recorded : fabric.Recorded change) :
    fabric.Follows { fabric with requested := change :: fabric.requested } where
  past := List.Subset.refl _
  members := List.Subset.refl _
  sound sound :=
    { sound with
      requested := fun other listed => by
        rcases List.mem_cons.mp listed with rfl | listed
        · exact recorded
        · exact sound.requested other listed }

theorem follows_sent {apiAddress : String} {request : AddRequest} (recorded : fabric.Recorded request) :
    fabric.Follows { fabric with sent := (apiAddress, request) :: fabric.sent } where
  past := List.Subset.refl _
  members := List.Subset.refl _
  sound sound :=
    { sound with
      sent := fun address other listed => by
        rcases List.mem_cons.mp listed with same | listed
        · cases same
          exact recorded
        · exact sound.sent address other listed }

theorem follows_answered {apiAddress : String} {request : AddRequest} {value : ℕ}
    (accepted : 0 < value → fabric.Accepted request.shardID request.replicaID request.isNonVoting) :
    fabric.Follows { fabric with answers := (apiAddress, request, value) :: fabric.answers } where
  past := List.Subset.refl _
  members := List.Subset.refl _
  sound sound :=
    { sound with
      answers := fun address other given listed positive => by
        rcases List.mem_cons.mp listed with same | listed
        · cases same
          exact accepted positive
        · exact sound.answers address other given listed positive }

theorem follows_accept {members : List AddRequest} {choice : FabricChoice} {answer : Except String Unit}
    (recorded : ∀ member ∈ members, fabric.Recorded member)
    (served : fabric.accept members choice = some (answer, next)) : fabric.Follows next := by
  unfold accept at served
  split at served
  · cases served
    exact follows_members recorded
  · cases served
    exact follows_members recorded
  · cases served
    exact .refl fabric
  · cases served

theorem onHost_eq_some {op : HostOp} {choice : FabricChoice} {answer : HostRes op}
    (served : fabric.onHost op choice = some (answer, next)) :
    ∃ inner cluster, choice = .host inner ∧ serveHost fabric.cluster op inner = some (answer, cluster) ∧
      next = fabric.take cluster := by
  unfold onHost at served
  split at served
  · next inner =>
    obtain ⟨⟨_, cluster⟩, moved, same⟩ := Option.map_eq_some_iff.mp served
    cases same
    exact ⟨inner, cluster, rfl, moved, rfl⟩
  · cases served

theorem follows_onHost {op : HostOp} {choice : FabricChoice} {answer : HostRes op}
    (served : fabric.onHost op choice = some (answer, next)) : fabric.Follows next := by
  obtain ⟨inner, cluster, -, -, rfl⟩ := onHost_eq_some served
  exact follows_take fabric cluster

/-- A warranted call leaves what is sound sound. -/
theorem follows_of_serve {op : FabricOp} {choice : FabricChoice} {answer : FabricRes op}
    (warrants : fabric.Warrants op) (served : fabric.serve op choice = some (answer, next)) : fabric.Follows next := by
  cases op with
  | host op =>
    cases op with
    | agent op =>
      cases op with
      | syncGetShardMembership shardID =>
        simp only [serve] at served
        split at served
        · obtain ⟨-, same⟩ := Option.ite_none_right_eq_some.mp served
          cases same
          exact .refl fabric
        · cases served
          exact .refl fabric
        · cases served
      | syncRequestAdd shardID replicaID hostID isNonVoting configChangeID =>
        have accepted := follows_accept (fun member listed => by
          cases List.mem_singleton.mp listed
          exact warrants) served
        exact (follows_requested warrants).trans accepted
      | _ => exact follows_onHost served
    | startReplica factory members join config => exact follows_accept warrants.1 served
    | _ => exact follows_onHost served
  | send apiAddress request =>
    simp only [serve] at served
    split at served
    · cases served
      exact follows_sent warrants
    · cases served
  | await apiAddress request =>
    simp only [serve] at served
    split at served
    · obtain ⟨-, same⟩ := Option.ite_none_right_eq_some.mp served
      cases same
      exact .refl fabric
    · cases served
      exact .refl fabric
    · cases served
  | receive apiAddress =>
    simp only [serve] at served
    split at served
    · obtain ⟨-, same⟩ := Option.ite_none_right_eq_some.mp served
      cases same
      exact .refl fabric
    · cases served
  | reply apiAddress request value =>
    simp only [serve] at served
    split at served
    · cases served
      exact follows_answered warrants
    · cases served
      exact .refl fabric
    · cases served

theorem follows_of_outside {event : FabricEvent} (moved : fabric.outside event = some next) : fabric.Follows next := by
  cases event with
  | entry entry =>
    obtain ⟨cluster, -, rfl⟩ := Option.map_eq_some_iff.mp moved
    exact follows_take fabric cluster
  | land change =>
    obtain ⟨asked, same⟩ := Option.ite_none_right_eq_some.mp moved
    cases same
    have landed (sound : fabric.Sound) : fabric.Follows { fabric with members := [change] ++ fabric.members } :=
      follows_members fun member listed => by
        cases List.mem_singleton.mp listed
        exact sound.requested change asked
    exact ⟨List.Subset.refl _, List.subset_cons_self _ _, fun sound => (landed sound).sound sound⟩
  | agent apiAddress agent =>
    cases moved
    exact follows_take fabric _

end Steps

end Fabric

section Programs

variable {ι : Type} {setups : ι → HostController.Setup}

/-- Every call is warranted, whatever the others do. -/
def fabricContract (setups : ι → HostController.Setup) : (raftGroups setups).Contract where
  rely := Fabric.Follows
  permits _ _ := True
  guard _ := Fabric.Warrants
  inv _ fabric _ := fabric.Sound
  post _ _ _ fabric := fabric.Sound

variable {i : ι ⊕ String × ℕ} {fabric : Fabric} {request : AddRequest} {τ υ : Type}

/-- The program makes warranted calls only, and ends with `post`. -/
def Leads (setups : ι → HostController.Setup) (i : ι ⊕ String × ℕ) (program : FabricM τ) (fabric : Fabric)
    (post : τ → Fabric → Prop) : Prop :=
  (fabricContract setups).Ensures i program fabric fun result after => fabric.Follows after ∧ post result after

theorem Leads.done {result : τ} {post : τ → Fabric → Prop} (holds : ∀ after, fabric.Follows after → post result after) :
    Leads setups i (.done result) fabric post := by
  intro after others
  have reached := Fabric.Follows.of_star others
  exact ⟨reached, holds after reached⟩

theorem Leads.bind {program : FabricM τ} {continue_ : τ → FabricM υ} {middle : τ → Fabric → Prop}
    {post : υ → Fabric → Prop} (first : Leads setups i program fabric middle)
    (rest : ∀ result after, fabric.Follows after → middle result after →
      Leads setups i (continue_ result) after post) :
    Leads setups i (program >>= continue_) fabric post := by
  refine ActorSystem.Contract.Ensures.bind first ?_
  rintro result after ⟨reached, holds⟩
  refine (rest result after reached holds).mono ?_
  rintro last state ⟨onwards, ends⟩
  exact ⟨reached.trans onwards, ends⟩

/-- One call, between whatever the others do. -/
theorem Leads.perform {op : FabricOp} {post : FabricRes op → Fabric → Prop}
    (warrants : ∀ before, fabric.Follows before → before.Warrants op)
    (holds : ∀ before served after choice answer, fabric.Follows before →
      before.serve op choice = some (answer, served) → served.Follows after → post answer after) :
    Leads setups i (Program.perform op) fabric post := by
  intro before others
  have reached := Fabric.Follows.of_star others
  refine ⟨warrants before reached, fun choice answer served moved after rest => ?_⟩
  have onwards := Fabric.Follows.of_star rest
  have called := Fabric.follows_of_serve (warrants before reached) moved
  exact ⟨(reached.trans called).trans onwards, holds before served after choice answer reached moved onwards⟩

/-- A call of which only the answer matters. -/
theorem Leads.call {op : FabricOp} (warrants : ∀ before : Fabric, before.Warrants op) :
    Leads setups i (Program.perform op) fabric fun _ _ => True :=
  .perform (fun before _ => warrants before) fun _ _ _ _ _ _ _ _ => trivial

/-- The answer to a request that was listed. -/
theorem add_leads (sound : fabric.Sound) (recorded : fabric.Recorded request) (apiAddress : String) :
    Leads setups i (overNetwork (.add apiAddress request)) fabric fun answer after => ∀ value, answer = .ok value →
      0 < value → after.Accepted request.shardID request.replicaID request.isNonVoting := by
  have sent : Leads setups i (Program.perform (FabricOp.send apiAddress request)) fabric fun _ _ => True :=
    .perform (fun before reached => recorded.mono reached.past) fun _ _ _ _ _ _ _ _ => trivial
  refine sent.bind fun _ middle reached _ => .perform (fun _ _ => trivial) ?_
  intro before served after choice answer others moved rest value answered positive
  subst answered
  simp only [Fabric.serve] at moved
  split at moved
  · obtain ⟨listed, same⟩ := Option.ite_none_right_eq_some.mp moved
    cases same
    have kept := others.sound (reached.sound sound)
    exact (kept.answers apiAddress request value listed positive).mono rest.members
  · cases moved
  · cases moved

/-- A positive answer means that the raft group has accepted the replica. -/
def Confirms (request : AddRequest) (result : Option ℕ) (fabric : Fabric) : Prop :=
  ∀ value, result = some value → 0 < value →
    fabric.Accepted request.shardID request.replicaID request.isNonVoting

theorem addReplica_leads (sound : fabric.Sound) (recorded : fabric.Recorded request) (apiAddress : String) (fuel : ℕ) :
    Leads setups i ((addReplica apiAddress request fuel).interpret overNetwork) fabric (Confirms request) := by
  induction fuel generalizing fabric with
  | zero => exact .done fun after _ value answered => by cases answered
  | succ fuel ih =>
    refine (add_leads sound recorded apiAddress).bind fun answer after reached holds => ?_
    cases answer with
    | ok value =>
      refine .done fun last onwards given same positive => ?_
      cases same
      exact (holds value rfl positive).mono onwards.members
    | error err => exact ih (reached.sound sound) (recorded.mono reached.past)

theorem requestMembers_leads (sound : fabric.Sound) (recorded : fabric.Recorded request) (fuel : ℕ)
    (members : List (ℕ × String)) (host : Option Host) :
    Leads setups i ((requestMembers request fuel members host 0).interpret overNetwork) fabric (Confirms request) := by
  induction members generalizing fabric host with
  | nil =>
    refine .done fun after _ value answered positive => ?_
    cases answered
    exact absurd positive (lt_irrefl 0)
  | cons member members ih =>
    unfold requestMembers
    have read : Leads setups i (overNetwork (.agent .read)) fabric fun _ _ => True := .call fun _ => trivial
    refine read.bind fun answer after reached _ => ?_
    have sound := reached.sound sound
    have recorded := recorded.mono reached.past
    -- A failed read leaves the host of the member before, and either host is asked alike.
    cases answer
    all_goals simp only [Program.bind, pure_bind]
    case' error => generalize host = asked
    case' ok snapshot => generalize (snapshot.state.host member.2).toOption.join = asked
    all_goals
      cases asked with
      | none => exact ih sound recorded none
      | some found =>
        dsimp only
        rw [Program.interpret_bind]
        refine (addReplica_leads sound recorded found.apiAddress fuel).bind fun outcome last onwards holds => ?_
        cases outcome with
        | none => exact .done fun state _ value answered => by cases answered
        | some value =>
          dsimp only
          split
          · next positive =>
            refine .done fun state further given same _ => ?_
            cases same
            exact (holds value rfl positive).mono further.members
          · next none =>
            obtain rfl := Nat.eq_zero_of_not_pos none
            exact ih (onwards.sound sound) (recorded.mono onwards.past) (some found)

theorem requestShardJoin_leads (sound : fabric.Sound) (recorded : fabric.Recorded request)
    (members : ExtTreeMap ℕ String) (fuel : ℕ) :
    Leads setups i ((requestShardJoin members request fuel).interpret overNetwork) fabric (Confirms request) := by
  have ordered : Leads setups i (overNetwork (.agent (.order members.size))) fabric fun _ _ => True :=
    .call fun _ => trivial
  refine ordered.bind fun order after reached _ => ?_
  exact requestMembers_leads (reached.sound sound) (recorded.mono reached.past) _ _ _

/-- A shard is joined once its raft group has accepted the replica. -/
theorem joinShard_leads (sound : fabric.Sound) (recorded : fabric.Recorded request) (members : ExtTreeMap ℕ String)
    (fuel : ℕ) :
    Leads setups i ((joinShard members request fuel).interpret overNetwork) fabric fun result after =>
      ∀ value, result = some value → after.Accepted request.shardID request.replicaID request.isNonVoting := by
  induction fuel generalizing fabric with
  | zero => exact .done fun after _ value answered => by cases answered
  | succ fuel ih =>
    unfold joinShard
    rw [Program.interpret_bind]
    refine (requestShardJoin_leads sound recorded members (fuel + 1)).bind fun outcome last onwards holds => ?_
    cases outcome with
    | none => exact .done fun state _ value answered => by cases answered
    | some value =>
      dsimp only
      split
      · next positive => exact .done fun state further given _ => (holds value rfl positive).mono further.members
      · exact ih (onwards.sound sound) (recorded.mono onwards.past)

section Tick

open HostController

variable {setup : Setup} {state : State} {shard : Shard} {replica : Replica}

/-- The members of a snapshot were listed. -/
theorem recorded_of_shardMembers (known : state ∈ fabric.past) (shardID : ℕ) {member : AddRequest}
    (listed : member ∈ Fabric.initial shardID (state.shardMembers shardID)) : fabric.Recorded member := by
  obtain ⟨⟨id, hostID⟩, entry, rfl⟩ := List.mem_map.mp listed
  have found := ExtTreeMap.mem_toList_iff_getElem?_eq_some.mp entry
  obtain ⟨replica, stored, ofShard, voting, hosted⟩ := State.getElem?_shardMembers_eq_some_iff.mp found
  exact ⟨state, known, replica, stored, ofShard, voting, .inl (congrArg uuidKey hosted)⟩

theorem start_leads {factory : Factory} {members : Option (ExtTreeMap ℕ String)} {join : Bool} {config : ReplicaConfig}
    (assigned : ∀ member ∈ Fabric.initial config.shardID (members.getD ∅), fabric.Recorded member)
    (joined : join → fabric.Accepted config.shardID config.replicaID config.isNonVoting)
    (continue_ : Except String Unit → HostM τ) (ends : ∀ answer, ∃ result, continue_ answer = .done result) :
    Leads setups i
      ((Program.perform (HostOp.startReplica factory members join config) >>= continue_).interpret overNetwork)
      fabric fun _ _ => True := by
  have called : Leads setups i (overNetwork (.startReplica factory members join config)) fabric fun _ _ => True := by
    refine .perform (fun before reached => ⟨fun member listed => ?_, fun joins => ?_⟩) fun _ _ _ _ _ _ _ _ => trivial
    · exact (assigned member listed).mono reached.past
    · exact (joined joins).mono reached.members
  refine called.bind fun answer after _ _ => ?_
  obtain ⟨result, same⟩ := ends answer
  change Leads setups i ((continue_ answer).interpret overNetwork) after _
  rw [same]
  exact .done fun _ _ => trivial

/-- A replica of the host is started as its snapshot has it. -/
theorem startReplica_leads (sound : fabric.Sound) (known : state ∈ fabric.past)
    (stored : state.replica replica.id = some replica) (owned : replica.shardID = shard.id)
    (mine : state.Finds setup.hostID replica) (fuel : ℕ) (item : ShardType) (err : Option String) :
    Leads setups i
      ((startReplica setup fuel item (state.shardMembers shard.id) shard replica err).interpret overNetwork)
      fabric fun _ _ => True := by
  have nobody {start : Fabric} {shardID : ℕ} :
      ∀ member ∈ Fabric.initial shardID ((none : Option (ExtTreeMap ℕ String)).getD ∅), start.Recorded member := by
    simp [Fabric.initial]
  unfold startReplica
  cases replica.status with
  | bootstrapping =>
    dsimp only
    split
    · exact .done fun _ _ => trivial
    · refine start_leads (fun member listed => ?_) (by simp) _ fun answer => ⟨_, rfl⟩
      exact recorded_of_shardMembers known shard.id listed
  | joining =>
    have recorded : fabric.Recorded ⟨setup.hostID, shard.id, replica.id, replica.isNonVoting⟩ :=
      ⟨state, known, replica, stored, owned, rfl, .inr mine⟩
    dsimp only
    rw [Program.interpret_bind]
    refine (joinShard_leads sound recorded _ fuel).bind fun outcome after reached holds => ?_
    cases outcome with
    | none => exact .done fun _ _ => trivial
    | some value => exact start_leads nobody (fun _ => holds value rfl) _ fun answer => ⟨_, rfl⟩
  | active => exact start_leads nobody (by simp) _ fun answer => ⟨_, rfl⟩
  | _ => exact .done fun _ _ => trivial

theorem startMissing_leads (sound : fabric.Sound) (known : state ∈ fabric.past) (fuel : ℕ) (found : List (ℕ × Bool))
    (mine : ∀ id replica, (id, false) ∈ found → state.replica id = some replica →
      state.Finds setup.hostID replica) (err : Option String) (hadErr : Bool) :
    Leads setups i ((startMissing setup fuel state found err hadErr).interpret overNetwork) fabric fun _ _ => True := by
  induction found generalizing fabric err hadErr with
  | nil => exact .done fun _ _ => trivial
  | cons first found ih =>
    have later {start : Fabric} (sound : start.Sound) (known : state ∈ start.past) (err : Option String)
        (hadErr : Bool) := ih sound known (fun id replica listed => mine id replica (List.mem_cons_of_mem _ listed))
          err hadErr
    obtain ⟨id, running⟩ := first
    unfold startMissing
    cases running with
    | true => exact later sound known err hadErr
    | false =>
      simp only [Bool.false_eq_true, if_false]
      cases present : state.replica id with
      | none => exact later sound known err true
      | some replica =>
        dsimp only
        cases held : state.shard replica.shardID with
        | none => exact later sound known err true
        | some shard =>
          dsimp only
          cases setup.shardTypes shard.type with
          | none => exact later sound known err hadErr
          | some item =>
            have owned := State.shard_id held
            obtain rfl := State.replica_id present
            dsimp only
            rw [Program.interpret_bind]
            refine (startReplica_leads sound known present owned.symm (mine _ replica List.mem_cons_self present) fuel
              item err).bind fun outcome after reached _ => ?_
            have sound := reached.sound sound
            have known := reached.past known
            rcases outcome with _ | _ | err
            · exact .done fun _ _ => trivial
            · have proposed : Leads setups i
                  (overNetwork (.agent (.propose (newCmdReplicaUpdateStatus replica.id .active)))) after
                  fun _ _ => True :=
                .call fun _ => ⟨replica.id, rfl⟩
              refine proposed.bind fun answer last onwards _ => ?_
              cases answer with
              | error err => exact later (onwards.sound sound) (onwards.past known) _ _
              | ok result => exact later (onwards.sound sound) (onwards.past known) _ _
            · exact later sound known _ _

/-- What is found missing was assigned. -/
theorem findReplicas_missing {assigned : List Replica} {infos : List ShardInfo} {id : ℕ}
    (missing : (findReplicas state assigned infos)[id]? = some false) : ∃ replica ∈ assigned, replica.id = id := by
  have listed : ∀ id : ℕ, (findReplicas state assigned infos)[id]? = some false →
      ∃ replica ∈ assigned, replica.id = id := by
    refine List.foldlRecOn (motive := fun found : ExtTreeMap ℕ Bool => ∀ id : ℕ, found[id]? = some false →
      ∃ replica ∈ assigned, replica.id = id) infos _ ?_ fun found held info _ id missing => ?_
    · refine List.foldlRecOn (motive := fun found : ExtTreeMap ℕ Bool => ∀ id : ℕ, found[id]? = some false →
        ∃ replica ∈ assigned, replica.id = id) assigned _ ?_
        fun found held replica member id missing => ?_
      · intro id missing
        simp at missing
      split at missing
      · rw [ExtTreeMap.getElem?_insert] at missing
        split at missing
        · next same => exact ⟨replica, member, LawfulEqCmp.compare_eq_iff_eq.mp same⟩
        · exact held id missing
      · exact held id missing
    · split at missing
      · rw [ExtTreeMap.getElem?_insert] at missing
        split at missing
        · cases missing
        · exact held id missing
      · exact held id missing
  exact listed id missing

theorem startAssigned_leads (sound : fabric.Sound) (known : state ∈ fabric.past) (fuel : ℕ) {assigned : List Replica}
    {host : Host} (registered : state.host setup.hostID = .ok (some host))
    (listed : state.replicaIterateByHostID setup.hostID = .ok assigned) :
    Leads setups i ((startAssigned setup fuel state assigned).interpret overNetwork) fabric fun _ _ => True := by
  have looked : Leads setups i (overNetwork .getNodeHostInfo) fabric fun _ _ => True := .call fun _ => trivial
  refine looked.bind fun infos after reached _ => ?_
  have ordered : Leads setups i (overNetwork (.agent (.order (findReplicas state assigned infos).size))) after
      fun _ _ => True := .call fun _ => trivial
  refine ordered.bind fun order last onwards _ => ?_
  refine startMissing_leads (onwards.sound (reached.sound sound)) (onwards.past (reached.past known)) fuel _ ?_ _ _
  intro id replica visited stored
  obtain ⟨position, -, entry⟩ := List.mem_filterMap.mp visited
  have missing := ExtTreeMap.mem_toList_iff_getElem?_eq_some.mp (List.mem_of_getElem? entry)
  obtain ⟨other, member, rfl⟩ := findReplicas_missing missing
  obtain ⟨key, parsed, rfl⟩ := State.replicaIterateByHostID_eq_ok_iff.mp listed
  obtain ⟨again, scanned⟩ := State.mem_scanHost.mp member
  cases again.symm.trans stored
  obtain ⟨_, valid, present⟩ := State.host_eq_ok_iff.mp registered
  cases parsed.symm.trans valid
  exact ⟨key, parsed, by rw [present]; rfl, scanned⟩

/-- A tick asks for what some registry lists for its host. -/
theorem tick_leads (sound : fabric.Sound) (fuel index : ℕ) :
    Leads setups i ((HostController.tick setup fuel index).interpret overNetwork) fabric fun _ _ => True := by
  have read : Leads setups i (overNetwork (.agent .read)) fabric fun answer after =>
      ∀ snapshot, answer = .ok snapshot → snapshot.state ∈ after.past := by
    refine .perform (fun _ _ => trivial) fun before served after choice answer reached moved rest snapshot is => ?_
    subst is
    obtain ⟨inner, cluster, -, read, rfl⟩ := Fabric.onHost_eq_some moved
    rw [registry_of_read read]
    exact rest.past (List.mem_cons_of_mem _ (reached.sound sound).current)
  refine read.bind fun answer after reached holds => ?_
  cases answer with
  | error err => exact .done fun _ _ => trivial
  | ok snapshot =>
    have known := holds snapshot rfl
    change Leads setups i ((reconcileHost setup fuel index snapshot.state).interpret overNetwork) after _
    unfold reconcileHost
    split
    · next host assigned found listed =>
      split
      · exact .done fun _ _ => trivial
      · rw [Program.interpret_bind]
        refine (startAssigned_leads (reached.sound sound) known fuel found listed).bind fun outcome last _ _ => ?_
        rcases outcome with _ | _ | _
        all_goals exact .done fun _ _ => trivial
    · exact .done fun _ _ => trivial

end Tick

section Handler

/-- A member of a view is accepted with its vote. -/
theorem accepted_of_view {shardID replicaID : ℕ} {isNonVoting : Bool} {membership : Membership}
    (viewed : Fabric.viewed shardID membership ⊆ fabric.members)
    (joined : (if isNonVoting then membership.nonVotings else membership.nodes).contains replicaID) :
    fabric.Accepted shardID replicaID isNonVoting := by
  obtain ⟨hostID, entry⟩ := Option.isSome_iff_exists.mp
    (ExtTreeMap.mem_iff_isSome_getElem?.mp (ExtTreeMap.mem_iff_contains.mpr joined))
  have listed := ExtTreeMap.mem_toList_iff_getElem?_eq_some.mpr entry
  refine ⟨⟨hostID, shardID, replicaID, isNonVoting⟩, viewed (List.mem_append.mpr ?_), rfl, rfl, rfl⟩
  cases isNonVoting with
  | false => exact .inl (List.mem_map.mpr ⟨_, listed, rfl⟩)
  | true => exact .inr (List.mem_map.mpr ⟨_, List.mem_map.mpr ⟨_, listed, rfl⟩, rfl⟩)

theorem joinShardReplica_leads (recorded : fabric.Recorded request) :
    Leads setups i ((joinShardReplica request.hostID request.shardID request.replicaID
      request.isNonVoting).interpret onAgent) fabric fun answer after => ∀ value, answer = .ok value →
        after.Accepted request.shardID request.replicaID request.isNonVoting := by
  have viewed : Leads setups i (onAgent (.syncGetShardMembership request.shardID)) fabric fun answer after =>
      ∀ membership, answer = .ok membership → Fabric.viewed request.shardID membership ⊆ after.members := by
    refine .perform (fun _ _ => trivial) fun before served after choice answer _ moved rest membership is => ?_
    subst is
    simp only [Fabric.serve] at moved
    split at moved
    · obtain ⟨part, same⟩ := Option.ite_none_right_eq_some.mp moved
      cases same
      exact List.Subset.trans part rest.members
    · cases moved
    · cases moved
  refine viewed.bind fun answer after reached holds => ?_
  cases answer with
  | error err => exact .done fun _ _ value is => by cases is
  | ok membership =>
    change Leads setups i (Program.interpret onAgent (if (if request.isNonVoting then membership.nonVotings
      else membership.nodes).contains request.replicaID then _ else _)) after _
    by_cases joined : (if request.isNonVoting then membership.nonVotings else membership.nodes).contains
        request.replicaID
    · rw [if_pos joined]
      refine .done fun last onwards value _ => ?_
      exact (accepted_of_view (holds membership rfl) joined).mono onwards.members
    · rw [if_neg joined]
      have asked : Leads setups i (onAgent (.syncRequestAdd request.shardID request.replicaID request.hostID
          request.isNonVoting membership.configChangeID)) after fun answer last => answer = .ok () →
            last.Accepted request.shardID request.replicaID request.isNonVoting := by
        refine .perform (fun before onwards => (recorded.mono reached.past).mono onwards.past) ?_
        intro before served last choice answer _ moved rest is
        subst is
        simp only [Fabric.serve, Fabric.accept] at moved
        split at moved
        · cases moved
          exact ⟨request, rest.members List.mem_cons_self, rfl, rfl, rfl⟩
        all_goals cases moved
      refine asked.bind fun answer last _ holds => ?_
      cases answer with
      | error err => exact .done fun _ _ value is => by cases is
      | ok _ => exact .done fun state onwards value _ => (holds rfl).mono onwards.members

/-- A handler asks raft for what it was sent, and confirms what raft has accepted. -/
theorem handleAdd_leads (sound : fabric.Sound) (apiAddress : String) :
    Leads setups i (handleAdd apiAddress) fabric fun _ _ => True := by
  have received : Leads setups i (Program.perform (FabricOp.receive apiAddress)) fabric fun request after =>
      after.Recorded request := by
    refine .perform (fun _ _ => trivial) fun before served after choice request reached moved rest => ?_
    simp only [Fabric.serve] at moved
    split at moved
    · obtain ⟨listed, same⟩ := Option.ite_none_right_eq_some.mp moved
      cases same
      exact ((reached.sound sound).sent apiAddress request listed).mono rest.past
    · cases moved
  refine received.bind fun request after reached recorded => ?_
  have handled : Leads setups i ((grpcAdd apiAddress request).interpret onAgent) after fun answer last =>
      ∀ value, answer = .ok value → last.Accepted request.shardID request.replicaID request.isNonVoting := by
    have asked : Leads setups i (onAgent (.status apiAddress)) after fun _ _ => True := .call fun _ => trivial
    refine asked.bind fun answer last onwards _ => ?_
    cases answer with
    | error err => exact .done fun _ _ value is => by cases is
    | ok status =>
      change Leads setups i (Program.interpret onAgent (if _ then _ else _)) last _
      split
      · exact joinShardReplica_leads (recorded.mono onwards.past)
      · exact .done fun _ _ value is => by cases is
  refine handled.bind fun answer last onwards holds =>
    .perform (fun before further => ?_) fun _ _ _ _ _ _ _ _ => trivial
  cases answer with
  | error err => trivial
  | ok value => exact fun _ => (holds value rfl).mono further.members

end Handler

theorem fabricContract_valid : (fabricContract setups).Valid where
  stable sound rely := rely.sound sound
  outside _ moved := Fabric.follows_of_outside moved
  calls warrants served := .single (Fabric.follows_of_serve warrants served)
  starts {i fabric memory} fuel sound := by
    cases i with
    | inl i => exact (tick_leads sound fuel _).mono fun _ _ ends => ends.1.sound sound
    | inr handler =>
      have handled : Leads setups (.inr handler) (handleAdd handler.1 >>= fun _ => pure memory) fabric
          fun _ _ => True :=
        (handleAdd_leads sound handler.1).bind fun _ _ _ _ => .done fun _ _ => trivial
      exact handled.mono fun _ _ ends => ends.1.sound sound
  finishes sound := sound

end Programs

end Zongzi
