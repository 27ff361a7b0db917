import Zongzi.Model.ShardClient
import Zongzi.Proofs.ReadIndex

/-! # What the success of a request stands for

A shard client returns the answer of the first host that serves its request. When there is no host to try, it returns
that nothing went wrong, and so does a request for a read index on the agent's own host. Apart from that, a success
stands for a request that some host has executed.
-/

namespace Zongzi

open Machine Program

section Success

variable {α : Type}

/-- What holds of calls holds of more calls. -/
def Grows (executed : α → List RequestCall → Prop) : Prop :=
  ∀ value first calls last, executed value calls → executed value (first ++ calls ++ last)

/-- What holds of calls holds of a stretch of them. -/
def Shrinks (fair : List RequestCall → Prop) : Prop :=
  ∀ first calls last, fair (first ++ calls ++ last) → fair calls

/-- In fair runs a success stands for an execution. -/
def Success (fair : List RequestCall → Prop) (executed : α → List RequestCall → Prop)
    (program : RequestM (Answer α)) : Prop :=
  program.Records anyAnswer fun answer calls => fair calls → ∀ value, answer = some (.ok value) → executed value calls

variable {fair : List RequestCall → Prop} {executed : α → List RequestCall → Prop} (grows : Grows executed)
  (shrinks : Shrinks fair)
include grows shrinks

theorem viaGrpc_success {apiAddress : String} {serve : Site → RequestM (Answer α)}
    (serves : ∀ site, Success fair executed (serve site)) : Success fair executed (viaGrpc apiAddress serve) := by
  intro dialed _
  cases dialed with
  | error err => exact fun _ _ => nofun
  | ok _ =>
    refine (serves (.peer apiAddress)).bind fun answer calls success => ?_
    cases answer with
    | none => exact fun _ _ => nofun
    | some answer =>
      intro replied _
      cases replied with
      | error err => exact fun _ _ => nofun
      | ok _ =>
        intro met value same
        have within := grows value [⟨.dial apiAddress, .ok ()⟩] calls [⟨.reply apiAddress, .ok ()⟩]
          (success (shrinks [⟨.dial apiAddress, .ok ()⟩] calls [⟨.reply apiAddress, .ok ()⟩] met) value same)
        exact within

theorem request_success {client : HostClient} {self : String} {serve : Site → RequestM (Answer α)}
    (serves : ∀ site, Success fair executed (serve site)) : Success fair executed (client.request self serve) := by
  unfold HostClient.request
  split
  · exact serves .own
  · exact viaGrpc_success grows shrinks serves

/-- The first host that serves the request has executed it. Without hosts the answer is the one before. -/
theorem tryHosts_success {call : HostClient → RequestM (Answer α)} {list : PingMap}
    (calls : ∀ entry ∈ list, Success fair executed (call entry.2)) (last : Except RequestErr α) :
    (tryHosts call list last).Records anyAnswer fun answer made => fair made → ∀ value, answer = some (.ok value) →
      executed value made ∨ list = [] ∧ last = .ok value := by
  induction list generalizing last with
  | nil => exact fun _ value same => .inr ⟨rfl, Option.some.inj same⟩
  | cons entry list ih =>
    refine (calls entry List.mem_cons_self).bind fun answer made success => ?_
    match answer with
    | none => exact fun _ _ => nofun
    | some (.ok value) =>
      intro met other same
      rw [List.append_nil] at met ⊢
      exact .inl (success met other same)
    | some (.error err) =>
      refine (ih (fun entry listed => calls entry (List.mem_cons_of_mem _ listed)) (.error err)).mono ?_
      intro answer more held met value same
      have within : fair more := shrinks made more [] (by rwa [List.append_nil])
      obtain done | ⟨-, failed⟩ := held within value same
      · have grown := grows value made more [] done
        rw [List.append_nil] at grown
        exact .inl grown
      · cases failed

/-- A list that is not empty. -/
theorem tryListed_success {client : ShardClient} {table : Std.ExtTreeMap ℕ PingMap}
    {call : HostClient → RequestM (Answer α)} {last : Except RequestErr α}
    (calls : ∀ list : PingMap, table[client.shardID]? = some list →
      ∀ entry ∈ list, Success fair executed (call entry.2))
    (filled : table[client.shardID]? = some [] → ∃ err, last = .error err) :
    Success fair executed (client.tryListed table call last) := by
  unfold ShardClient.tryListed
  split
  · exact fun _ _ => nofun
  · next list found =>
    refine (tryHosts_success grows shrinks (calls list found) last).mono fun answer made held met value same => ?_
    obtain done | ⟨rfl, success⟩ := held met value same
    · exact done
    · obtain ⟨err, failed⟩ := filled found
      cases failed.symm.trans success

end Success

section Executed

variable {α : Type} (site : Site) (shardID fuel : ℕ)

/-- Some host has proposed the data, and raft has reported an accepted event. -/
def Proposed (accepts : RequestEvent → Option α) (shardID : ℕ) (data : String) (value : α)
    (calls : List RequestCall) : Prop :=
  ∃ site event, accepts event = some value ∧
    List.Sublist [⟨.propose site shardID data, .ok ()⟩, ⟨.event site, event⟩] calls

/-- Some host has looked up the query, with this result. -/
def LookedUp (shardID : ℕ) (query : String) (stale : Bool) (value : Result) (calls : List RequestCall) : Prop :=
  ∃ site result, result.getD {} = value ∧ (⟨.read site shardID query stale, .ok result⟩ : RequestCall) ∈ calls

theorem proposed_grows (accepts : RequestEvent → Option α) (data : String) :
    Grows (Proposed accepts shardID data) := by
  rintro value first calls last ⟨site, event, accepted, listed⟩
  refine ⟨site, event, accepted, ?_⟩
  exact (listed.trans (List.sublist_append_right first calls)).trans (List.sublist_append_left _ last)

theorem lookedUp_grows (query : String) (stale : Bool) : Grows (LookedUp shardID query stale) := by
  rintro value first calls last ⟨site, result, same, listed⟩
  exact ⟨site, result, same, List.mem_append_left _ (List.mem_append_right _ listed)⟩

theorem indexed_grows : Grows fun (_ : Unit) => Indexed shardID := by
  rintro value first calls last ⟨site, listed⟩
  exact ⟨site, List.mem_append_left _ (List.mem_append_right _ listed)⟩

theorem patient_shrinks : Shrinks Patient := fun _ _ _ patient => patient.infix

theorem always_shrinks : Shrinks fun _ => True := fun _ _ _ _ => trivial

/-- An accepted event is the last one. -/
theorem awaitEvent_records (accepts : RequestEvent → Option α) :
    (awaitEvent accepts site fuel).Records anyAnswer fun answer calls => ∀ value, answer = some (.ok value) →
      ∃ event, accepts event = some value ∧ (⟨.event site, event⟩ : RequestCall) ∈ calls := by
  induction fuel with
  | zero => nofun
  | succ fuel ih =>
    intro event _
    dsimp only [Program.bind]
    split
    · next value accepted =>
      intro other same
      cases same
      exact ⟨event, accepted, List.mem_singleton_self _⟩
    · split
      · exact fun _ => nofun
      · refine ih.mono fun answer calls held value same => ?_
        obtain ⟨accepted, accepts, listed⟩ := held value same
        exact ⟨accepted, accepts, List.mem_cons_of_mem _ listed⟩

theorem grpcPropose_success (accepts : RequestEvent → Option α) (data : String) :
    Success (fun _ => True) (Proposed accepts shardID data) (grpcPropose accepts site shardID data fuel) := by
  intro status _
  change Records _ (if status = .ready then _ else _) _
  split
  · intro proposed _
    cases proposed with
    | error err => exact fun _ _ => nofun
    | ok _ =>
      refine (awaitEvent_records site fuel accepts).mono fun answer calls held _ value same => ?_
      obtain ⟨event, accepted, listed⟩ := held value same
      refine ⟨site, event, accepted, .cons _ (.cons_cons _ ?_)⟩
      exact List.singleton_sublist.mpr listed
  · exact fun _ _ => nofun

theorem grpcRead_success (query : String) (stale : Bool) :
    Success (fun _ => True) (LookedUp shardID query stale) (grpcRead site shardID query stale) := by
  intro answer _
  cases answer with
  | error err => exact fun _ _ => nofun
  | ok result =>
    intro _ value same
    cases same
    exact ⟨site, result, rfl, List.mem_singleton_self _⟩

theorem grpcIndex_success : Success Patient (fun _ => Indexed shardID) (grpcIndex site shardID fuel) := by
  refine (index_records site shardID fuel).mono fun answer calls outcome patient _ same => ?_
  exact outcome.indexed_iff.mpr (outcome.patient_iff.mpr patient same)

end Executed

section Client

variable {α : Type} (client : ShardClient) (self : String) (manager : ClientManager) (fuel : ℕ)

/-- Nobody is asked: the shard has an empty list of members, and no leader that is asked in their place. -/
def ShardClient.writesToNobody : Prop :=
  (client.writeToLeader → manager.clientLeader[client.shardID]? = none) ∧
    manager.clientMember[client.shardID]? = some []

/-- Nobody is asked: the shard has an empty list of members, and of replicas if they are asked first. -/
def ShardClient.readsFromNobody (stale : Bool) : Prop :=
  (stale → manager.clientReplica[client.shardID]? = some []) ∧ manager.clientMember[client.shardID]? = some []

/-- The shard has no list of replicas, or one that is not empty and without the agent's own host. -/
def ShardClient.IndexesOthers : Prop :=
  ∀ list : PingMap, manager.clientReplica[client.shardID]? = some list →
    list ≠ [] ∧ ∀ entry ∈ list, entry.2.host.id ≠ self

/-- A write that asks somebody stands for an execution, and no other. -/
theorem write_success_iff {executed : α → List RequestCall → Prop} {call : HostClient → RequestM (Answer α)}
    {zero : α} (grows : Grows executed) (calls : ∀ host, Success (fun _ => True) executed (call host))
    (never : ¬ executed zero []) :
    Success (fun _ => True) executed (client.write manager call zero) ↔ ¬ client.writesToNobody manager := by
  constructor
  · rintro success ⟨leaderless, empty⟩
    have absent : (if client.writeToLeader then manager.clientLeader[client.shardID]? else none) = none := by
      split
      · next asked => exact leaderless asked
      · rfl
    rw [ShardClient.write, absent, ShardClient.tryListed, empty] at success
    exact never (success trivial zero rfl)
  · intro asks
    unfold ShardClient.write
    split
    · exact calls _
    · next absent =>
      refine tryListed_success grows always_shrinks (fun _ _ entry _ => calls entry.2) fun empty => ?_
      refine absurd ⟨fun asked => ?_, empty⟩ asks
      rwa [if_pos asked] at absent

/-- A lookup that asks somebody stands for an execution, and no other. -/
theorem lookup_success_iff {executed : α → List RequestCall → Prop} {call : HostClient → RequestM (Answer α)}
    {zero : α} {stale : Bool} (grows : Grows executed)
    (calls : ∀ host, Success (fun _ => True) executed (call host)) (never : ¬ executed zero []) :
    Success (fun _ => True) executed (client.lookup manager stale call zero) ↔
      ¬ client.readsFromNobody manager stale := by
  have listed (last : Except RequestErr α)
      (filled : manager.clientMember[client.shardID]? = some [] → ∃ err, last = .error err) :
      Success (fun _ => True) executed (client.tryListed manager.clientMember call last) :=
    tryListed_success grows always_shrinks (fun _ _ entry _ => calls entry.2) filled
  constructor
  · rintro success ⟨replicas, members⟩
    cases stale with
    | false =>
      rw [ShardClient.lookup, if_neg nofun, ShardClient.tryListed, members] at success
      exact never (success trivial zero rfl)
    | true =>
      rw [ShardClient.lookup, if_pos rfl, replicas rfl] at success
      change Success _ _ (client.tryListed manager.clientMember call (.ok zero)) at success
      rw [ShardClient.tryListed, members] at success
      exact never (success trivial zero rfl)
  · intro asks
    unfold ShardClient.lookup
    split
    · next fresh =>
      split
      · exact fun _ _ => nofun
      · next list found =>
        refine (tryHosts_success grows always_shrinks (fun entry _ => calls entry.2) (.ok zero)).bind ?_
        intro answer made held
        match answer with
        | none => exact fun _ _ => nofun
        | some (.ok value) =>
          dsimp only
          split
          · next empty =>
            have unlisted : manager.clientReplica[client.shardID]? = some [] :=
              List.isEmpty_iff.mp empty ▸ found
            refine (listed (.ok value) fun members => absurd ⟨fun _ => unlisted, members⟩ asks).mono ?_
            intro answer more held _ value same
            have grown := grows value made more [] (held trivial value same)
            rwa [List.append_nil] at grown
          · next filled =>
            intro _ other same
            rw [List.append_nil]
            obtain done | ⟨rfl, -⟩ := held trivial other same
            · exact done
            · exact absurd rfl filled
        | some (.error err) =>
          refine (listed (.error err) fun _ => ⟨err, rfl⟩).mono fun answer more held _ value same => ?_
          have grown := grows value made more [] (held trivial value same)
          rwa [List.append_nil] at grown
    · next fresh =>
      refine listed (.ok zero) fun members => absurd ⟨fun asked => absurd asked fresh, members⟩ asks

/-- Where all hosts before it fail, the agent's own host answers at once. -/
theorem tryHosts_own {shardID : ℕ} {list : PingMap} {last : Except RequestErr Unit}
    (own : ∃ entry ∈ list, entry.2.host.id = self) :
    ¬ Success Patient (fun _ => Indexed shardID)
      (tryHosts (fun host => host.readIndex self shardID fuel) list last) := by
  induction list generalizing last with
  | nil => simp at own
  | cons entry list ih =>
    intro success
    unfold tryHosts at success
    by_cases here : entry.2.host.id = self
    · rw [HostClient.readIndex, if_pos here] at success
      obtain ⟨site, listed⟩ := success (List.isChain_nil) () rfl
      cases listed
    · rw [HostClient.readIndex, if_neg here] at success
      have onwards := success (.error (.other "")) trivial
      refine @ih (.error (.other "")) ?_ (Records.mono onwards fun answer calls held patient _ same => ?_)
      · obtain ⟨other, listed, own⟩ := own
        obtain rfl | listed := List.mem_cons.mp listed
        · exact absurd own here
        · exact ⟨other, listed, own⟩
      · obtain ⟨site, listed⟩ := held ((patient_cons rfl).mpr patient) () same
        refine ⟨site, ?_⟩
        simpa using listed

theorem index_success_iff :
    Success Patient (fun _ => Indexed client.shardID) (client.index self manager fuel) ↔
      client.IndexesOthers self manager := by
  unfold ShardClient.index
  constructor
  · intro success list found
    rw [ShardClient.tryListed, found] at success
    refine ⟨?_, fun entry listed own => tryHosts_own self fuel ⟨entry, listed, own⟩ success⟩
    rintro rfl
    obtain ⟨site, listed⟩ := success (List.isChain_nil) () rfl
    cases listed
  · intro others
    refine tryListed_success (indexed_grows _) patient_shrinks (fun list found entry listed => ?_) fun empty => ?_
    · rw [HostClient.readIndex, if_neg ((others list found).2 entry listed)]
      exact viaGrpc_success (indexed_grows _) patient_shrinks fun site => grpcIndex_success site client.shardID fuel
    · exact absurd rfl (others [] empty).1

/-- A success of a shard client stands for a request that some host has executed, with the value that is returned,
exactly if somebody is asked: for a write, a lookup and a read index there is a host in the list of the shard. The
agent's own host is not asked for a read index, and a read index that a host was asked for counts as long as the
context does not end while that host waits after a request that did not complete. -/
theorem success_means_executed (cmd query : String) (stale : Bool) :
    (Success (fun _ => True) (Proposed acceptsCompleted client.shardID cmd) (client.apply self manager cmd fuel) ↔
      ¬ client.writesToNobody manager) ∧
    (Success (fun _ => True) (Proposed acceptsCommitted client.shardID cmd) (client.commit self manager cmd fuel) ↔
      ¬ client.writesToNobody manager) ∧
    (Success (fun _ => True) (LookedUp client.shardID query stale) (client.read self manager query stale) ↔
      ¬ client.readsFromNobody manager stale) ∧
    (Success Patient (fun _ => Indexed client.shardID) (client.index self manager fuel) ↔
      client.IndexesOthers self manager) := by
  refine ⟨?_, ?_, ?_, index_success_iff client self manager fuel⟩
  · refine write_success_iff client manager (proposed_grows _ _ cmd) (fun host => ?_) (by simp [Proposed])
    exact request_success (proposed_grows _ _ cmd) always_shrinks fun site =>
      grpcPropose_success site client.shardID fuel _ cmd
  · refine write_success_iff client manager (proposed_grows _ _ cmd) (fun host => ?_) (by simp [Proposed])
    exact request_success (proposed_grows _ _ cmd) always_shrinks fun site =>
      grpcPropose_success site client.shardID fuel _ cmd
  · refine lookup_success_iff client manager (lookedUp_grows _ query stale) (fun host => ?_) (by simp [LookedUp])
    exact request_success (lookedUp_grows _ query stale) always_shrinks fun site =>
      grpcRead_success site client.shardID query stale

/-- A shard whose replicas are all on the agent's own host, and do not vote. -/
def ownReplicas : ClientManager where
  clientMember := {(1, [])}
  clientReplica := {(1, [(0, ⟨{ id := "h" }⟩)])}

/-- A write and a lookup that nobody has seen succeed, and so does a read index that was not asked for. -/
theorem nobody_asked :
    (exec answerFrom ((⟨1, false⟩ : ShardClient).apply "h" ownReplicas "set" 1) () []).map Prod.fst =
      some (some (.ok {})) ∧
    (exec answerFrom ((⟨1, false⟩ : ShardClient).commit "h" ownReplicas "set" 1) () []).map Prod.fst =
      some (some (.ok ())) ∧
    (exec answerFrom ((⟨1, false⟩ : ShardClient).read "h" ownReplicas "get" false) () []).map Prod.fst =
      some (some (.ok {})) ∧
    (exec answerFrom ((⟨1, false⟩ : ShardClient).index "h" ownReplicas 1) () []).map Prod.fst =
      some (some (.ok ())) := by
  decide +kernel

end Client

end Zongzi
