import Zongzi.Proofs.ShardClient

/-! # How often a write is proposed

A host that has proposed a command may report an error although raft applies it: the request has timed out, the
context has ended, or the answer is lost on its way back. The shard client then tries the next member with the same
command. So a write of which the caller hears once may have been applied by every member that was asked.
-/

namespace Zongzi

open Machine Program

section Proposals

/-- Raft has accepted the command, and may apply it. -/
def RequestCall.accepted (shardID : ℕ) (cmd : String) : RequestCall → Bool
  | ⟨.propose _ id data, .ok _⟩ => id = shardID && data = cmd
  | _ => false

def proposals (shardID : ℕ) (cmd : String) (calls : List RequestCall) : ℕ :=
  calls.countP (RequestCall.accepted shardID cmd)

variable {α : Type} (shardID : ℕ) (cmd : String) {fuel : ℕ} {site : Site} {accepts : RequestEvent → Option α}

theorem proposals_append {calls more : List RequestCall} :
    proposals shardID cmd (calls ++ more) = proposals shardID cmd calls + proposals shardID cmd more :=
  List.countP_append

theorem proposals_cons_of_rejected {call : RequestCall} {calls : List RequestCall}
    (other : call.accepted shardID cmd = false) :
    proposals shardID cmd (call :: calls) = proposals shardID cmd calls :=
  List.countP_cons_of_neg (by simp [other])

theorem awaitEvent_proposals : (awaitEvent accepts site fuel).Records anyAnswer fun _ calls =>
    proposals shardID cmd calls = 0 := by
  induction fuel with
  | zero => rfl
  | succ fuel ih =>
    intro event _
    dsimp only [Program.bind]
    split
    · rfl
    · split
      · rfl
      · exact ih.mono fun _ calls none => (proposals_cons_of_rejected shardID cmd rfl).trans none

/-- A host proposes once. -/
theorem grpcPropose_proposals {id : ℕ} {data : String} :
    (grpcPropose accepts site id data fuel).Records anyAnswer fun _ calls => proposals shardID cmd calls ≤ 1 := by
  intro status _
  change Records _ (if status = .ready then _ else _) _
  split
  · intro proposed _
    cases proposed with
    | error err => exact Nat.zero_le 1
    | ok _ =>
      refine (awaitEvent_proposals shardID cmd).mono fun _ calls none => ?_
      have once : proposals shardID cmd (⟨.propose site id data, .ok ()⟩ :: calls) ≤ 1 := by
        rw [proposals, List.countP_cons, ← proposals, none]
        split <;> omega
      exact (proposals_cons_of_rejected shardID cmd rfl).trans_le once
  · exact Nat.zero_le 1

theorem viaGrpc_proposals {apiAddress : String} {serve : Site → RequestM (Answer α)}
    (serves : ∀ site, (serve site).Records anyAnswer fun _ calls => proposals shardID cmd calls ≤ 1) :
    (viaGrpc apiAddress serve).Records anyAnswer fun _ calls => proposals shardID cmd calls ≤ 1 := by
  intro dialed _
  cases dialed with
  | error err => exact Nat.zero_le 1
  | ok _ =>
    refine (serves (.peer apiAddress)).bind fun answer calls few => ?_
    cases answer with
    | none =>
      change proposals shardID cmd (⟨.dial apiAddress, .ok ()⟩ :: (calls ++ [])) ≤ 1
      rwa [proposals_cons_of_rejected shardID cmd rfl, List.append_nil]
    | some answer =>
      intro replied _
      have same : proposals shardID cmd (⟨.dial apiAddress, .ok ()⟩ :: (calls ++ [⟨.reply apiAddress, replied⟩])) =
          proposals shardID cmd calls := by
        rw [proposals_cons_of_rejected shardID cmd rfl, proposals_append]
        rfl
      cases replied <;> exact same.trans_le few

theorem request_proposals {client : HostClient} {self : String} {serve : Site → RequestM (Answer α)}
    (serves : ∀ site, (serve site).Records anyAnswer fun _ calls => proposals shardID cmd calls ≤ 1) :
    (client.request self serve).Records anyAnswer fun _ calls => proposals shardID cmd calls ≤ 1 := by
  unfold HostClient.request
  split
  · exact serves .own
  · exact viaGrpc_proposals shardID cmd serves

theorem tryHosts_proposals {call : HostClient → RequestM (Answer α)}
    (each : ∀ host, (call host).Records anyAnswer fun _ calls => proposals shardID cmd calls ≤ 1) (list : PingMap)
    (last : Except RequestErr α) :
    (tryHosts call list last).Records anyAnswer fun _ calls => proposals shardID cmd calls ≤ list.length := by
  induction list generalizing last with
  | nil => exact Nat.zero_le 0
  | cons entry list ih =>
    refine (each entry.2).bind fun answer calls few => ?_
    have enough : proposals shardID cmd (calls ++ []) ≤ (entry :: list).length := by
      rw [List.append_nil, List.length_cons]
      omega
    match answer with
    | none => exact enough
    | some (.ok value) => exact enough
    | some (.error err) =>
      refine (ih (.error err)).mono fun _ more fewer => ?_
      rw [proposals_append, List.length_cons]
      omega

end Proposals

section Attempts

variable {α : Type} {fuel : ℕ} {self : String} {accepts : RequestEvent → Option α}

/-- A host that is ready proposes the command and hears of an event. -/
def proposing (shardID : ℕ) (cmd : String) (event : RequestEvent) (site : Site) : List RequestCall :=
  [⟨.status site, .ready⟩, ⟨.propose site shardID cmd, .ok ()⟩, ⟨.event site, event⟩]

/-- A request to another agent that arrives, and whose response does. -/
def HostClient.requesting (client : HostClient) (self : String) (calls : Site → List RequestCall) : List RequestCall :=
  if client.host.id = self then calls .own
  else ⟨.dial client.host.apiAddress, .ok ()⟩ ::
    (calls (.peer client.host.apiAddress) ++ [⟨.reply client.host.apiAddress, .ok ()⟩])

theorem request_can {client : HostClient} {serve : Site → RequestM (Answer α)} {answer : Except RequestErr α}
    {calls : Site → List RequestCall} (serves : ∀ site, (serve site).Can (some answer) (calls site)) :
    (client.request self serve).Can (some answer) (client.requesting self calls) := by
  unfold HostClient.request HostClient.requesting
  split
  · exact serves .own
  · refine ⟨Except.ok (), _, rfl, ?_⟩
    change (serve (.peer _) >>= _).Can _ _
    exact .bind (serves _) ⟨Except.ok (), [], rfl, .done _⟩

/-- Where every host but the last fails, the last one is asked. -/
theorem tryHosts_serves {call : HostClient → RequestM (Answer α)} {err : RequestErr} {value : α}
    {failing serving : HostClient → List RequestCall}
    (fails : ∀ host, (call host).Can (some (.error err)) (failing host))
    (serves : ∀ host, (call host).Can (some (.ok value)) (serving host)) (front : PingMap) (entry : ℤ × HostClient)
    (last : Except RequestErr α) :
    (tryHosts call (front ++ [entry]) last).Can (some (.ok value))
      ((front.flatMap fun entry => failing entry.2) ++ serving entry.2) := by
  induction front generalizing last with
  | nil =>
    rw [List.flatMap_nil, List.nil_append, List.nil_append, ← List.append_nil (serving entry.2)]
    exact .bind (serves entry.2) (.done _)
  | cons first front ih =>
    rw [List.flatMap_cons, List.append_assoc]
    exact .bind (fails first.2) (ih _)

/-- What raft reports ends a request: an event that is accepted, or an error. -/
inductive Ends (accepts : RequestEvent → Option α) (event : RequestEvent) : Except RequestErr α → Prop
  | accepted {value : α} (accepted : accepts event = some value) : Ends accepts event (.ok value)
  | failed {err : RequestErr} (unaccepted : accepts event = none) (failed : event.err = some err) :
      Ends accepts event (.error err)

theorem grpcPropose_can {site : Site} {shardID : ℕ} {cmd : String} {event : RequestEvent}
    {answer : Except RequestErr α} (ends : Ends accepts event answer) (positive : 0 < fuel) :
    (grpcPropose accepts site shardID cmd fuel).Can (some answer) (proposing shardID cmd event site) := by
  obtain ⟨fuel, rfl⟩ := Nat.exists_eq_add_of_lt positive
  refine ⟨AgentStatus.ready, _, rfl, Except.ok (), _, rfl, event, [], rfl, ?_⟩
  cases ends with
  | accepted accepted =>
    simp only [Program.bind, accepted]
    exact .done _
  | failed unaccepted failed =>
    simp only [Program.bind, unaccepted, failed]
    exact .done _

end Attempts

section Writes

variable {α : Type} (client : ShardClient) (self : String) (manager : ClientManager) {fuel : ℕ}

/-- The hosts that a write asks, one after the other. -/
def ShardClient.asked : PingMap :=
  match (if client.writeToLeader then manager.clientLeader[client.shardID]? else none) with
  | some leader => [(0, leader.client)]
  | none => (manager.clientMember[client.shardID]?).getD []

theorem write_cases (call : HostClient → RequestM (Answer α)) (zero : α) :
    (∃ leader : HostClientLeader, client.asked manager = [(0, leader.client)] ∧
        client.write manager call zero = call leader.client) ∨
      (client.asked manager = [] ∧ client.write manager call zero = .done (some (.error .shardNotReady))) ∨
      client.write manager call zero = tryHosts call (client.asked manager) (.ok zero) := by
  unfold ShardClient.write ShardClient.asked
  cases (if client.writeToLeader then manager.clientLeader[client.shardID]? else none) with
  | some leader => exact .inl ⟨leader, rfl, rfl⟩
  | none =>
    unfold ShardClient.tryListed
    cases manager.clientMember[client.shardID]? with
    | none => exact .inr (.inl ⟨rfl, rfl⟩)
    | some list => exact .inr (.inr rfl)

section Proposing

variable {shardID : ℕ} {cmd : String} {call : HostClient → RequestM (Answer α)} {zero value : α} {err : RequestErr}
  {failing serving : HostClient → List RequestCall}

/-- A write proposes at most once on each host that it asks. -/
theorem write_proposals
    (each : ∀ host, (call host).Records anyAnswer fun _ calls => proposals shardID cmd calls ≤ 1) :
    (client.write manager call zero).Records anyAnswer fun _ calls =>
      proposals shardID cmd calls ≤ (client.asked manager).length := by
  rcases write_cases client manager call zero with ⟨leader, asked, same⟩ | ⟨asked, same⟩ | same
  · rw [same, asked]
    exact each leader.client
  · rw [same]
    exact Nat.zero_le _
  · rw [same]
    exact tryHosts_proposals shardID cmd each _ _

/-- A write that succeeds may have failed on every host but the last. -/
theorem write_can_serve (fails : ∀ host, (call host).Can (some (.error err)) (failing host))
    (serves : ∀ host, (call host).Can (some (.ok value)) (serving host)) {front : PingMap} {entry : ℤ × HostClient}
    (asked : client.asked manager = front ++ [entry]) :
    (client.write manager call zero).Can (some (.ok value))
      ((front.flatMap fun entry => failing entry.2) ++ serving entry.2) := by
  rcases write_cases client manager call zero with ⟨leader, only, same⟩ | ⟨none, -⟩ | same
  · rw [same]
    rw [only] at asked
    obtain ⟨rfl, last⟩ := (List.append_eq_singleton_iff.mp asked.symm).resolve_right (by simp)
    cases last
    exact serves leader.client
  · simp [none] at asked
  · rw [same, asked]
    exact tryHosts_serves fails serves front entry _

end Proposing

section Counting

variable {counted : RequestCall → Bool}

theorem countP_requesting {client : HostClient} {calls : Site → List RequestCall} {count : ℕ}
    (unsent : ∀ apiAddress, counted ⟨.dial apiAddress, .ok ()⟩ = false)
    (unheard : ∀ apiAddress, counted ⟨.reply apiAddress, .ok ()⟩ = false)
    (each : ∀ site, (calls site).countP counted = count) : (client.requesting self calls).countP counted = count := by
  unfold HostClient.requesting
  split
  · exact each .own
  · rw [List.countP_cons_of_neg (by simp [unsent]), List.countP_append, each, List.countP_singleton, unheard]
    rfl

theorem countP_attempts {attempt : HostClient → List RequestCall} (once : ∀ host, (attempt host).countP counted = 1)
    (list : PingMap) : (list.flatMap fun entry => attempt entry.2).countP counted = list.length := by
  induction list with
  | nil => rfl
  | cons entry list ih =>
    rw [List.flatMap_cons, List.countP_append, once, ih, List.length_cons]
    omega

theorem proposals_proposing (shardID : ℕ) (cmd : String) (event : RequestEvent) (site : Site) :
    (proposing shardID cmd event site).countP (RequestCall.accepted shardID cmd) = 1 := by
  simp [proposing, RequestCall.accepted]

end Counting

/-- The most often that a request proposes the command. It may do so whatever it returns in the end. -/
structure ProposesUpTo (count shardID : ℕ) (cmd : String) (program : RequestM (Answer α)) : Prop where
  most : ∀ answer calls, program.Can answer calls → proposals shardID cmd calls ≤ count
  attained : ∀ value, ∃ calls, program.Can (some (.ok value)) calls ∧ proposals shardID cmd calls = count

theorem write_proposesUpTo (accepts : RequestEvent → Option α) (cmd : String) (zero : α)
    (heard : ∀ value, ∃ event, accepts event = some value) (impatient : accepts .timeout = none)
    (positive : 0 < fuel) (somebody : client.asked manager ≠ []) :
    ProposesUpTo (client.asked manager).length client.shardID cmd (client.write manager
      (fun host => host.request self fun site => grpcPropose accepts site client.shardID cmd fuel) zero) where
  most answer calls can := by
    have each (host : HostClient) :
        (host.request self fun site => grpcPropose accepts site client.shardID cmd fuel).Records anyAnswer
          fun _ calls => proposals client.shardID cmd calls ≤ 1 :=
      request_proposals client.shardID cmd fun site => grpcPropose_proposals client.shardID cmd
    exact (write_proposals client manager each).of_can can fun _ _ => trivial
  attained value := by
    obtain ⟨event, accepted⟩ := heard value
    have attempt {event : RequestEvent} {answer : Except RequestErr α} (ends : Ends accepts event answer)
        (host : HostClient) :
        (host.request self fun site => grpcPropose accepts site client.shardID cmd fuel).Can (some answer)
          (host.requesting self (proposing client.shardID cmd event)) :=
      request_can fun site => grpcPropose_can ends positive
    have once (event : RequestEvent) (host : HostClient) :
        (host.requesting self (proposing client.shardID cmd event)).countP
          (RequestCall.accepted client.shardID cmd) = 1 :=
      countP_requesting self (fun _ => rfl) (fun _ => rfl) fun site => proposals_proposing _ _ event site
    obtain ⟨front, entry, asked⟩ := (List.eq_nil_or_concat' (client.asked manager)).resolve_left somebody
    refine ⟨_, write_can_serve client manager (attempt (.failed impatient rfl)) (attempt (.accepted accepted)) asked,
      ?_⟩
    rw [proposals_append, asked, List.length_append, List.length_singleton]
    exact congrArg₂ (· + ·) (countP_attempts (once _) front) (once _ entry.2)

/-- One write that succeeds may have been proposed, and accepted by raft, on every host that is asked for it, and
never more often. -/
theorem write_proposed_by_all (cmd : String) (positive : 0 < fuel) (somebody : client.asked manager ≠ []) :
    ProposesUpTo (client.asked manager).length client.shardID cmd (client.apply self manager cmd fuel) ∧
      ProposesUpTo (client.asked manager).length client.shardID cmd (client.commit self manager cmd fuel) := by
  constructor
  · apply write_proposesUpTo client self manager acceptsCompleted cmd {} _ rfl positive somebody
    exact fun result => ⟨.completed result, rfl⟩
  · apply write_proposesUpTo client self manager acceptsCommitted cmd () _ rfl positive somebody
    exact fun _ => ⟨.committed, rfl⟩

/-- A shard with two members, one of them on the agent's own host. -/
def twoMembers : ClientManager where
  clientMember := {(1, [(0, ⟨{ id := "h" }⟩), (5, ⟨{ id := "i", apiAddress := "i:80" }⟩)])}

theorem asked_twoMembers : ((⟨1, false⟩ : ShardClient).asked twoMembers).length = 2 := by decide

/-- The caller hears of one result, and both members have proposed the command. -/
theorem both_members_propose :
    ∃ calls, ((⟨1, false⟩ : ShardClient).apply "h" twoMembers "set" 1).Can (some (.ok { value := 7 })) calls ∧
      proposals 1 "set" calls = 2 := by
  have somebody : (⟨1, false⟩ : ShardClient).asked twoMembers ≠ [] := List.ne_nil_of_length_eq_add_one asked_twoMembers
  obtain ⟨calls, can, count⟩ :=
    (write_proposed_by_all ⟨1, false⟩ "h" twoMembers "set" Nat.one_pos somebody).1.attained { value := 7 }
  exact ⟨calls, can, count.trans asked_twoMembers⟩

end Writes

end Zongzi
