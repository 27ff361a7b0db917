import Zongzi.Proofs.ShardClient

/-! # Watching at home and abroad

A watch of the agent's own host hands on the results that its server sends and returns the error of the server. A watch
of another host hands on the same results, but it returns no error, however it has ended, and where no stream can be
opened it does not return at all. So the two agree on the watches that succeed, and a shard client, which tries its
hosts until one succeeds, takes the first other host that it can reach for one that has.
-/

namespace Zongzi

open Machine Program

section Outcome

/-- What comes of a watch at its server. -/
inductive WatchOutcome where
  /-- No stream can be opened. -/
  | refused (err : RequestErr)
  /-- Results are sent. Then the server returns, or the stream breaks. -/
  | ended (results : List Result) (err : Option RequestErr)

namespace WatchOutcome

def results : WatchOutcome → List Result
  | .refused _ => []
  | .ended results _ => results

def err : WatchOutcome → Option RequestErr
  | .refused err => some err
  | .ended _ err => err

def opened : WatchOutcome → Except RequestErr Unit
  | .refused err => .error err
  | .ended .. => .ok ()

/-- Results arrive in order, and after them the end of the stream if the server has returned without an error. -/
def next (outcome : WatchOutcome) (position : ℕ) : Except (Option RequestErr) Result :=
  match outcome.results[position]? with
  | some result => .ok result
  | none => .error outcome.err

end WatchOutcome

/-- How many results have been asked for in the stream that was opened last. -/
def received (apiAddress : String) (calls : List RequestCall) : ℕ :=
  calls.foldl (fun count call => match call.1 with
    | .dial other => if other = apiAddress then 0 else count
    | .recv other => if other = apiAddress then count + 1 else count
    | _ => count) 0

/-- Watches have their outcomes, and callers take their results. Other requests are not made. -/
def watchAnswer (served : Site → WatchOutcome) (calls : List RequestCall) : (op : RequestOp) → RequestRes op
  | .watch site _ _ _ => ((served site).results, (served site).err)
  | .dial apiAddress => (served (.peer apiAddress)).opened
  | .recv apiAddress => (served (.peer apiAddress)).next (received apiAddress calls)
  | .deliver _ => true
  | .status _ => .ready
  | .readIndex .. => .ok none
  | .wait _ => true
  | .propose .. => .ok ()
  | .event _ => .canceled
  | .read .. => .ok none
  | .stream .. => .ok ()
  | .reply _ => .ok ()
  | .connect .. => .ok ()
  | .streamed _ => true
  | .callback => ()

/-- The results that the caller gets. -/
def delivered (calls : List RequestCall) : List Result :=
  calls.filterMap fun
    | ⟨.deliver result, true⟩ => some result
    | _ => none

theorem delivered_append (first second : List RequestCall) :
    delivered (first ++ second) = delivered first ++ delivered second := List.filterMap_append

end Outcome

section Runs

variable {served : Site → WatchOutcome} {calls : List RequestCall}

/-- The server's results are handed on as it sends them. -/
theorem sendResults_converse (results : List Result) :
    ∃ more, (sendResults results).converse (watchAnswer served) calls = ((), calls ++ more) ∧
      delivered more = results := by
  induction results generalizing calls with
  | nil => exact ⟨[], by simp [sendResults, converse], rfl⟩
  | cons result results ih =>
    obtain ⟨more, ran, same⟩ := @ih (calls ++ [⟨.deliver result, true⟩])
    refine ⟨⟨.deliver result, true⟩ :: more, ?_, ?_⟩
    · rw [List.append_cons]
      exact ran
    · rw [← List.singleton_append, delivered_append, same]
      rfl

theorem recvResults_succ (apiAddress : String) (fuel : ℕ) :
    (recvResults apiAddress (fuel + 1)).converse (watchAnswer served) calls =
      converse (watchAnswer served) (match watchAnswer served calls (.recv apiAddress) with
        | .error _ => return some (.ok ())
        | .ok result => do
          if ← perform (RequestOp.deliver result) then recvResults apiAddress fuel else return none)
        (calls ++ [⟨.recv apiAddress, watchAnswer served calls (.recv apiAddress)⟩]) := rfl

/-- What arrives is handed on, and no error is returned after it. -/
theorem recvResults_converse {apiAddress : String} {rest : List Result} {fuel : ℕ} (enough : rest.length < fuel)
    (left : (served (.peer apiAddress)).results.drop (received apiAddress calls) = rest) :
    ∃ more, (recvResults apiAddress fuel).converse (watchAnswer served) calls = (some (.ok ()), calls ++ more) ∧
      delivered more = rest := by
  induction rest generalizing calls fuel with
  | nil =>
    obtain ⟨fuel, rfl⟩ := Nat.exists_eq_add_one.mpr enough
    have ends : watchAnswer served calls (.recv apiAddress) = .error (served (.peer apiAddress)).err := by
      have none := List.getElem?_eq_none (List.drop_eq_nil_iff.mp left)
      simp only [watchAnswer, WatchOutcome.next, none]
    refine ⟨[⟨.recv apiAddress, .error (served (.peer apiAddress)).err⟩], ?_, rfl⟩
    rw [recvResults_succ, ends]
    rfl
  | cons result rest ih =>
    obtain ⟨fuel, rfl⟩ := Nat.exists_eq_add_one.mpr (Nat.zero_lt_of_lt enough)
    have arrives : watchAnswer served calls (.recv apiAddress) = .ok result := by
      have here : (served (.peer apiAddress)).results[received apiAddress calls]? = some result := by
        rw [← List.head?_drop, left, List.head?_cons]
      simp only [watchAnswer, WatchOutcome.next, here]
    have counted : received apiAddress (calls ++ [⟨.recv apiAddress, .ok result⟩] ++ [⟨.deliver result, true⟩]) =
        received apiAddress calls + 1 := by
      simp [received]
    have remains : (served (.peer apiAddress)).results.drop
        (received apiAddress (calls ++ [⟨.recv apiAddress, .ok result⟩] ++ [⟨.deliver result, true⟩])) = rest := by
      rw [counted, ← List.tail_drop, left, List.tail_cons]
    obtain ⟨more, ran, same⟩ := ih (Nat.lt_of_succ_lt_succ enough) remains
    refine ⟨⟨.recv apiAddress, .ok result⟩ :: ⟨.deliver result, true⟩ :: more, ?_, ?_⟩
    · rw [recvResults_succ, arrives]
      exact ran.trans (by simp)
    · exact congrArg (result :: ·) same

end Runs

section Hosts

variable {self : String} {client : HostClient} (shardID : ℕ) (query : String) (stale : Bool)

/-- A watch of the agent's own host returns the error of its server. -/
theorem watch_own (own : client.host.id = self) (served : Site → WatchOutcome) (fuel : ℕ) :
    ∃ calls, (client.watch self shardID query stale fuel).converse (watchAnswer served) [] =
      (some ((served .own).err.elim (.ok ()) .error), calls) ∧ delivered calls = (served .own).results := by
  let asked : RequestCall := ⟨.watch .own shardID query stale, ((served .own).results, (served .own).err)⟩
  obtain ⟨more, ran, same⟩ := @sendResults_converse served [asked] (served .own).results
  refine ⟨asked :: more, ?_, same⟩
  rw [HostClient.watch, if_pos own]
  change converse (watchAnswer served) (sendResults (served .own).results >>= _) [asked] = _
  rw [converse_bind, ran]
  cases (served .own).err <;> rfl

/-- A watch of another host returns no error. -/
theorem watch_peer (remote : client.host.id ≠ self) (served : Site → WatchOutcome) {fuel : ℕ}
    (enough : (served (.peer client.host.apiAddress)).results.length < fuel) :
    ∃ calls, (client.watch self shardID query stale fuel).converse (watchAnswer served) [] =
      ((served (.peer client.host.apiAddress)).opened.toOption.map .ok, calls) ∧
      delivered calls = (served (.peer client.host.apiAddress)).results := by
  obtain ⟨next, dials, fails, receives⟩ : ∃ next : Except RequestErr Unit → RequestM (Answer Unit),
      client.watch self shardID query stale fuel = .call (.dial client.host.apiAddress) next ∧
        (∀ err, next (.error err) = pure none) ∧ next (.ok ()) = recvResults client.host.apiAddress fuel := by
    rw [HostClient.watch, if_neg remote]
    exact ⟨_, rfl, fun _ => rfl, rfl⟩
  have dialed : (client.watch self shardID query stale fuel).converse (watchAnswer served) [] =
      (next (watchAnswer served [] (.dial client.host.apiAddress))).converse (watchAnswer served)
        [⟨.dial client.host.apiAddress, watchAnswer served [] (.dial client.host.apiAddress)⟩] := by
    rw [dials]
    rfl
  cases outcome : served (.peer client.host.apiAddress) with
  | refused err =>
    have answer : watchAnswer served [] (.dial client.host.apiAddress) = .error err := by
      simp only [watchAnswer, outcome, WatchOutcome.opened]
    rw [dialed, answer, fails]
    exact ⟨_, rfl, rfl⟩
  | ended results err =>
    have answer : watchAnswer served [] (.dial client.host.apiAddress) = .ok () := by
      simp only [watchAnswer, outcome, WatchOutcome.opened]
    have fresh : received client.host.apiAddress [⟨.dial client.host.apiAddress, .ok ()⟩] = 0 := by
      simp [received]
    rw [outcome] at enough
    obtain ⟨more, ran, same⟩ := @recvResults_converse served [⟨.dial client.host.apiAddress, .ok ()⟩] _
      results fuel enough (by rw [fresh, outcome, List.drop_zero]; rfl)
    rw [dialed, answer, receives]
    exact ⟨_, ran, same⟩

end Hosts

section Agreement

variable (self : String)

/-- The watches of two hosts whose servers do the same hand on the same results, and both fail or none does. -/
def WatchAgrees (outcome : WatchOutcome) (here there : HostClient) (shardID : ℕ) (query : String) (stale : Bool) :
    Prop :=
  ∃ enough, ∀ fuel ≥ enough,
    let near := (here.watch self shardID query stale fuel).converse (watchAnswer fun _ => outcome) []
    let far := (there.watch self shardID query stale fuel).converse (watchAnswer fun _ => outcome) []
    far.1.map Except.isOk = near.1.map Except.isOk ∧ delivered far.2 = delivered near.2

theorem watchAgrees_iff {self : String} {here there : HostClient} (own : here.host.id = self)
    (remote : there.host.id ≠ self) {outcome : WatchOutcome} {shardID : ℕ} {query : String} {stale : Bool} :
    WatchAgrees self outcome here there shardID query stale ↔ outcome.err = none := by
  have runs {fuel : ℕ} (enough : outcome.results.length < fuel) := And.intro
    (watch_own shardID query stale own (fun _ => outcome) fuel)
    (watch_peer shardID query stale remote (fun _ => outcome) enough)
  constructor
  · rintro ⟨enough, agrees⟩
    obtain ⟨⟨nearCalls, near, -⟩, farCalls, far, -⟩ := runs (Nat.lt_succ_of_le (Nat.le_max_right enough _))
    have same := (agrees _ (Nat.le_succ_of_le (Nat.le_max_left enough outcome.results.length))).1
    rw [near, far] at same
    cases outcome with
    | refused err => cases same
    | ended results err =>
      cases err with
      | none => rfl
      | some err => cases same
  · intro succeeds
    refine ⟨outcome.results.length + 1, fun fuel enough => ?_⟩
    obtain ⟨⟨nearCalls, near, nearSame⟩, farCalls, far, farSame⟩ := runs enough
    dsimp only
    rw [near, far]
    refine ⟨?_, farSame.trans nearSame.symm⟩
    cases outcome with
    | refused err => cases succeeds
    | ended results err =>
      cases succeeds
      rfl

/-- Where a watch has been asked for. -/
def watched (calls : List RequestCall) : List Site :=
  calls.filterMap fun call => match call.1 with
    | .dial apiAddress => some (.peer apiAddress)
    | .watch site _ _ _ => some site
    | _ => none

/-- No success is reported when every watch has failed. -/
def Honest (served : Site → WatchOutcome) (client : ShardClient) (manager : ClientManager) (query : String)
    (stale : Bool) (fuel : ℕ) : Prop :=
  let ran := (client.watch self manager query stale fuel).converse (watchAnswer served) []
  ran.1 = some (.ok ()) → watched ran.2 = [] ∨ ∃ site ∈ watched ran.2, (served site).err = none

/-- A stream has been opened, or the agent's own server has returned without an error. -/
def WatchServed (_ : Unit) (calls : List RequestCall) : Prop :=
  (∃ apiAddress, (⟨.dial apiAddress, .ok ()⟩ : RequestCall) ∈ calls) ∨
    ∃ site shardID query stale results, (⟨.watch site shardID query stale, (results, none)⟩ : RequestCall) ∈ calls

theorem watchServed_grows : Grows WatchServed := by
  rintro value first calls last (⟨apiAddress, listed⟩ | ⟨site, shardID, query, stale, results, listed⟩)
  · exact .inl ⟨apiAddress, List.mem_append_left _ (List.mem_append_right _ listed)⟩
  · exact .inr ⟨site, shardID, query, stale, results, List.mem_append_left _ (List.mem_append_right _ listed)⟩

theorem watch_success (client : HostClient) (shardID : ℕ) (query : String) (stale : Bool) (fuel : ℕ) :
    Success (fun _ => True) WatchServed (client.watch self shardID query stale fuel) := by
  unfold HostClient.watch
  split
  · rintro ⟨results, err⟩ _
    refine (Records.any (sendResults results)).bind fun _ calls _ => ?_
    cases err with
    | none => exact fun _ _ _ => .inr ⟨.own, shardID, query, stale, results, List.mem_cons_self⟩
    | some err => exact fun _ _ => nofun
  · intro dialed _
    cases dialed with
    | error err => exact fun _ _ => nofun
    | ok _ =>
      refine (Records.any (recvResults client.host.apiAddress fuel)).mono fun answer calls _ _ value _ => ?_
      exact .inl ⟨client.host.apiAddress, List.mem_cons_self⟩

/-- Where nobody is asked, no watch is. -/
theorem watched_nobody {served : Site → WatchOutcome} {client : ShardClient} {manager : ClientManager} {query : String}
    {stale : Bool} {fuel : ℕ} (nobody : client.readsFromNobody manager stale) :
    watched ((client.watch self manager query stale fuel).converse (watchAnswer served) []).2 = [] := by
  obtain ⟨replicas, members⟩ := nobody
  unfold ShardClient.watch
  cases stale with
  | false =>
    rw [ShardClient.lookup, if_neg Bool.false_ne_true, ShardClient.tryListed, members]
    rfl
  | true =>
    rw [ShardClient.lookup, if_pos rfl, replicas rfl]
    change watched ((client.tryListed manager.clientMember _ (.ok ())).converse (watchAnswer served) []).2 = []
    rw [ShardClient.tryListed, members]
    rfl

/-- Where the watches of other hosts succeed, a success is one of some host. -/
theorem honest_of_served {served : Site → WatchOutcome}
    (succeeds : ∀ apiAddress, (served (.peer apiAddress)).err = none) (client : ShardClient) (manager : ClientManager)
    (query : String) (stale : Bool) (fuel : ℕ) : Honest self served client manager query stale fuel := by
  intro answered
  by_cases nobody : client.readsFromNobody manager stale
  · exact .inl (watched_nobody self nobody)
  have success : Success (fun _ => True) WatchServed (client.watch self manager query stale fuel) :=
    (lookup_success_iff client manager watchServed_grows
      (fun host => watch_success self host client.shardID query stale fuel) (by simp [WatchServed])).mpr nobody
  obtain ⟨calls, made, held⟩ := success.of_converse (watchAnswer served) []
  rw [List.nil_append] at made
  rw [made]
  obtain ⟨apiAddress, listed⟩ | ⟨site, shardID, query, stale, results, listed⟩ := held trivial () answered
  · exact .inr ⟨.peer apiAddress, List.mem_filterMap.mpr ⟨_, listed, rfl⟩, succeeds apiAddress⟩
  · refine .inr ⟨site, List.mem_filterMap.mpr ⟨_, listed, rfl⟩, ?_⟩
    obtain earlier | ⟨before, answer⟩ := mem_converse (made ▸ listed)
    · cases earlier
    · exact (congrArg Prod.snd answer).symm

/-- The watch of another host agrees with one of the agent's own, and a shard client reports no success for watches
that have failed, exactly when no watch of another host fails. -/
theorem watch_agrees_iff (served : Site → WatchOutcome) :
    ((∀ here there : HostClient, here.host.id = self → there.host.id ≠ self → ∀ shardID query stale,
      WatchAgrees self (served (.peer there.host.apiAddress)) here there shardID query stale) ∧
      ∀ client manager query stale fuel, Honest self served client manager query stale fuel) ↔
    ∀ apiAddress, (served (.peer apiAddress)).err = none := by
  constructor
  · rintro ⟨agree, -⟩ apiAddress
    have other : self ++ "'" ≠ self := fun same => by
      have lengths := congrArg String.length same
      simp at lengths
    let here : HostClient := ⟨{ id := self }⟩
    let there : HostClient := ⟨{ id := self ++ "'", apiAddress }⟩
    exact (@watchAgrees_iff self here there rfl other _ _ _ _).mp (agree here there rfl other 0 "" false)
  · intro succeeds
    refine ⟨fun here there own remote _ _ _ => (watchAgrees_iff own remote).mpr (succeeds _), ?_⟩
    exact honest_of_served self succeeds

/-- A stream that breaks after a result, and one that cannot be opened. The agent's own host returns the error, the
other host nothing or not at all, and the shard client takes the broken one for a success. -/
theorem broken_watch_succeeds :
    let broken : WatchOutcome := .ended [⟨1, "a"⟩] (some (.other "unavailable"))
    let refused : WatchOutcome := .refused (.other "unavailable")
    let here : HostClient := ⟨{ id := "here" }⟩
    let there : HostClient := ⟨{ id := "there", apiAddress := "there:17001" }⟩
    let run (outcome : WatchOutcome) (client : HostClient) :=
      (client.watch "here" 1 "" false 9).converse (watchAnswer fun _ => outcome) []
    let members : PingMap := [(0, there)]
    let manager : ClientManager := { clientMember := .ofList [(1, members)] }
    let ran := (ShardClient.watch ⟨1, false⟩ "here" manager "" false 9).converse (watchAnswer fun _ => broken) []
    (run broken here).1 = some (.error (.other "unavailable")) ∧ (run broken there).1 = some (.ok ()) ∧
      delivered (run broken there).2 = delivered (run broken here).2 ∧
      (run refused here).1 = some (.error (.other "unavailable")) ∧ (run refused there).1 = none ∧
      ran.1 = some (.ok ()) ∧ watched ran.2 = [.peer "there:17001"] := by
  decide +kernel

end Agreement

end Zongzi
