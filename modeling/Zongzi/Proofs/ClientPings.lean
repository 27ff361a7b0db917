import Zongzi.Proofs.Routing

/-! # The pings of a tick

A tick of the client manager pings the host of each replica that it comes to, and passes over a host that does not
answer. Its pings and the call that they are made in share one error variable. The call assigns its own result to it
at the end, so a tick raises its index whatever its pings came to. Here a tick also returns its pings and the error that
it looks at. Without them it is `tick` (`fst_tickTraced`).

The lists are kept under the durations of the pings. Of several hosts with the same duration only the last one stays.
-/

namespace Zongzi

open Std Machine ExceptFold

namespace ClientManager

/-- The pings that a tick has made, and its error variable. -/
structure PingTrace where
  err : Option String := none
  pings : List (String × Except String ℤ) := []

section Traced

variable (self : String) (answers : Pings) (state : State)

def PingTrace.add (trace : PingTrace) (hostID : String) (answer : Except String ℤ) : PingTrace where
  err := match answer with
    | .error err => some err
    | .ok _ => none
  pings := trace.pings ++ [(hostID, answer)]

def replicaTraced (shard : Shard) (progress : Visit × PingTrace) (replica : Replica) :
    Except Failure (Visit × PingTrace) := do
  let (visit, trace) := progress
  let (client, visit) ← visit.client state replica.hostID
  match visit.pings[replica.hostID]? with
  | some ping => return (visit.enter shard replica client ping, trace)
  | none =>
    let answer := ping self answers replica.id client
    let trace := trace.add replica.hostID answer
    match answer with
    | .error _ => return (visit, trace)
    | .ok ping =>
      return ({ visit with pings := visit.pings.insert replica.hostID ping }.enter shard replica client ping, trace)

def tickShardTraced (progress : (ClientManager × ExtTreeMap String ℤ) × PingTrace) (shard : Shard) :
    Except Failure ((ClientManager × ExtTreeMap String ℤ) × PingTrace) := do
  let ((manager, pings), trace) := progress
  let (visit, trace) ← (state.replicaIterateByShardID shard.id).foldlM (replicaTraced self answers state shard)
    ({ clientHost := manager.clientHost, pings }, trace)
  return ((route answers manager shard visit, visit.pings), trace)

def tickTraced (manager : ClientManager) : Except Failure (ClientManager × PingTrace) := do
  let shards := state.shardIterateUpdatedAfter manager.index
  let ((manager, _), trace) ← shards.foldlM (tickShardTraced self answers state) ((manager, ∅), {})
  -- `StateLocal` returns no error, and its result is assigned after its callback has run.
  let trace := { trace with err := none }
  match trace.err, shards.getLast? with
  | none, some shard => return ({ manager with index := shard.updated }, trace)
  | _, _ => return (manager, trace)

variable {self answers state}

/-- A fold that carries more does the same for the part that a smaller fold has. -/
private theorem map_foldlM {ε α β γ : Type} (f : β → γ) {items : List α} {step : β → α → Except ε β}
    {step' : γ → α → Except ε γ} (same : ∀ state item, f <$> step state item = step' (f state) item) (start : β) :
    f <$> items.foldlM step start = items.foldlM step' (f start) := by
  induction items generalizing start with
  | nil => rfl
  | cons item items ih =>
    rw [List.foldlM_cons, List.foldlM_cons, ← same, map_bind, bind_map_left]
    exact bind_congr fun next => ih next

theorem fst_replicaTraced (shard : Shard) (progress : Visit × PingTrace) (replica : Replica) :
    Prod.fst <$> replicaTraced self answers state shard progress replica =
      progress.1.replica self answers state shard replica := by
  unfold replicaTraced Visit.replica
  rw [map_bind]
  refine bind_congr fun (client, visit) => ?_
  dsimp only
  cases visit.pings[replica.hostID]? with
  | some ping => rfl
  | none =>
    dsimp only
    cases ping self answers replica.id client with
    | error err => rfl
    | ok ping => rfl

theorem fst_tickShardTraced (progress : (ClientManager × ExtTreeMap String ℤ) × PingTrace) (shard : Shard) :
    Prod.fst <$> tickShardTraced self answers state progress shard = tickShard self answers state progress.1 shard := by
  obtain ⟨⟨manager, pings⟩, trace⟩ := progress
  unfold tickShardTraced tickShard
  dsimp only
  rw [← map_foldlM Prod.fst (fst_replicaTraced shard) ({ clientHost := manager.clientHost, pings }, trace),
    map_bind, bind_map_left]
  rfl

/-- The trace changes nothing else. -/
theorem fst_tickTraced (manager : ClientManager) :
    Prod.fst <$> manager.tickTraced self answers state = manager.tick self answers state := by
  unfold tickTraced tick
  dsimp only
  rw [← map_foldlM Prod.fst fst_tickShardTraced ((manager, ∅), {}), map_bind, bind_map_left]
  refine bind_congr fun ((reached, _), trace) => ?_
  dsimp only
  cases (state.shardIterateUpdatedAfter manager.index).getLast? with
  | none => rfl
  | some shard => rfl

theorem tick_of_traced {manager next : ClientManager} {trace : PingTrace}
    (ticked : manager.tickTraced self answers state = .ok (next, trace)) :
    manager.tick self answers state = .ok next := by
  rw [← fst_tickTraced, ticked]
  rfl

end Traced

section Failures

variable {self : String} {answers : Pings} {state : State} {manager next : ClientManager}
  {trace : PingTrace}

/-- A ping of the tick has failed. -/
def PingTrace.failed (trace : PingTrace) : Bool := trace.pings.any (!·.2.isOk)

theorem failed_add (trace : PingTrace) (hostID : String) (answer : Except String ℤ) :
    (trace.add hostID answer).failed = (trace.failed || !answer.isOk) := by
  simp [PingTrace.add, PingTrace.failed]

/-- The replicas that a tick comes to. -/
def visits (manager : ClientManager) (state : State) : List Replica :=
  (state.shardIterateUpdatedAfter manager.index).flatMap fun shard => state.replicaIterateByShardID shard.id

/-- Each host answers when it is pinged for the first of its replicas. -/
def Reachable (self : String) (answers : Pings) (known : ExtTreeMap String (Option HostClient))
    (state : State) (replicas : List Replica) : Prop :=
  ∀ replica, replicas.find? (·.hostID = replica.hostID) = some replica →
    (pingOf self answers known state replica).isSome

variable {known : ExtTreeMap String (Option HostClient)} {seen : List Replica}

theorem reachable_append_of_mem {replica : Replica} (listed : ∃ other ∈ seen, other.hostID = replica.hostID) :
    Reachable self answers known state (seen ++ [replica]) ↔ Reachable self answers known state seen := by
  refine forall_congr' fun first => ?_
  rw [List.find?_append]
  cases found : seen.find? (·.hostID = first.hostID) with
  | some other => rfl
  | none =>
    -- The last replica is not the first one of its host.
    have other : ¬ replica.hostID = first.hostID := by
      obtain ⟨other, listed, same⟩ := listed
      simpa [same] using List.find?_eq_none.mp found other listed
    simp [other]

theorem reachable_append_of_not_mem {replica : Replica} (fresh : ∀ other ∈ seen, other.hostID ≠ replica.hostID) :
    Reachable self answers known state (seen ++ [replica]) ↔
      Reachable self answers known state seen ∧ (pingOf self answers known state replica).isSome := by
  have here : (seen ++ [replica]).find? (·.hostID = replica.hostID) = some replica := by
    rw [List.find?_append, List.find?_eq_none.mpr (by simpa using fresh)]
    simp
  constructor
  · intro reachable
    refine ⟨fun first found => reachable first ?_, reachable replica here⟩
    rw [List.find?_append, found]
    rfl
  · rintro ⟨reachable, answered⟩ first found
    rw [List.find?_append] at found
    cases earlier : seen.find? (·.hostID = first.hostID) with
    | some other =>
      rw [earlier] at found
      cases found
      exact reachable first earlier
    | none =>
      rw [earlier, Option.none_or, List.find?_singleton] at found
      split at found
      · cases found
        exact answered
      · cases found

/-- What a tick has found out about its hosts after some replicas. -/
structure Tried (agent : String) (answers : Pings) (known : ExtTreeMap String (Option HostClient))
    (state : State) (seen : List Replica) (clientHost : ExtTreeMap String (Option HostClient))
    (pings : ExtTreeMap String ℤ) (trace : PingTrace) : Prop where
  clients : ∀ hostID, clientOf clientHost state hostID = clientOf known state hostID
  reachable : trace.failed = false ↔ Reachable agent answers known state seen
  answered : trace.failed = false → ∀ replica ∈ seen, replica.hostID ∈ pings
  pinged : ∀ hostID ∈ pings, ∃ replica ∈ seen, replica.hostID = hostID

theorem Tried.replica {replica : Replica} {shard : Shard} {visit after : Visit} {made : PingTrace}
    (tried : Tried self answers known state seen visit.clientHost visit.pings trace)
    (stepped : replicaTraced self answers state shard (visit, trace) replica = .ok (after, made)) :
    Tried self answers known state (seen ++ [replica]) after.clientHost after.pings made := by
  obtain ⟨⟨client, middle⟩, found, stepped⟩ := bind_eq_ok_iff.mp stepped
  obtain ⟨looked, clientHost, rfl, same, -⟩ := Visit.client_spec found
  rw [tried.clients] at looked
  have clients (hostID : String) := (same hostID).trans (tried.clients hostID)
  have pinged {hostID : String} (kept : hostID ∈ visit.pings) :
      ∃ other ∈ seen ++ [replica], other.hostID = hostID := by
    obtain ⟨other, listed, named⟩ := tried.pinged hostID kept
    exact ⟨other, List.mem_append_left _ listed, named⟩
  dsimp only at stepped
  split at stepped
  · next ping kept =>
    cases stepped
    have kept : replica.hostID ∈ visit.pings := ExtTreeMap.mem_iff_isSome_getElem?.mpr (by rw [kept]; rfl)
    refine ⟨clients, ?_, fun fine => ?_, fun _ => pinged⟩
    · rw [reachable_append_of_mem (tried.pinged _ kept)]
      exact tried.reachable
    · simpa [or_imp, forall_and] using ⟨tried.answered fine, kept⟩
  · next absent =>
    have absent : replica.hostID ∉ visit.pings := by
      rw [ExtTreeMap.mem_iff_isSome_getElem?, absent]
      exact Bool.false_ne_true
    have own : (pingOf self answers known state replica).isSome = (ping self answers replica.id client).isOk := by
      rw [pingOf, looked, Option.bind_some]
      cases ping self answers replica.id client with
      | error err => rfl
      | ok ping => rfl
    -- A host that is pinged again has not answered before.
    have reachable : (trace.add replica.hostID (ping self answers replica.id client)).failed = false ↔
        Reachable self answers known state (seen ++ [replica]) := by
      rw [failed_add, Bool.or_eq_false_iff, tried.reachable, Bool.not_eq_false', ← own]
      by_cases listed : ∃ other ∈ seen, other.hostID = replica.hostID
      · rw [reachable_append_of_mem listed]
        refine ⟨And.left, fun reachable => absurd (tried.reachable.mpr reachable) fun fine => ?_⟩
        obtain ⟨other, listed, named⟩ := listed
        exact absent (named ▸ tried.answered fine other listed)
      · exact (reachable_append_of_not_mem (by simpa using listed)).symm
    split at stepped
    · next failed =>
      cases stepped
      refine ⟨clients, reachable, fun fine => ?_, fun _ => pinged⟩
      rw [failed_add, failed] at fine
      simp [Except.isOk, Except.toBool] at fine
    · next ping answer =>
      cases stepped
      refine ⟨clients, reachable, fun fine => ?_, fun hostID kept => ?_⟩
      · rw [failed_add, Bool.or_eq_false_iff] at fine
        have earlier := tried.answered fine.1
        simpa [Visit.enter, or_imp, forall_and] using fun other listed => .inr (earlier other listed)
      · obtain here | kept := ExtTreeMap.mem_insert.mp kept
        · exact ⟨replica, by simp, Std.compare_eq_iff_eq.mp here⟩
        · exact pinged kept

theorem Tried.shard {shard : Shard} {before after : (ClientManager × ExtTreeMap String ℤ) × PingTrace}
    (tried : Tried self answers known state seen before.1.1.clientHost before.1.2 before.2)
    (ticked : tickShardTraced self answers state before shard = .ok after) :
    Tried self answers known state (seen ++ state.replicaIterateByShardID shard.id) after.1.1.clientHost after.1.2
      after.2 := by
  obtain ⟨⟨visit, made⟩, folded, same⟩ := bind_eq_ok_iff.mp ticked
  cases same
  refine foldlM_front (fun front progress => Tried self answers known state (seen ++ front) progress.1.clientHost
    progress.1.pings progress.2) folded ?_ ?_
  · rw [List.append_nil]
    exact tried
  · intro front replica back before after _ tried stepped
    rw [← List.append_assoc]
    exact tried.replica stepped

/-- A tick has no ping that fails exactly if the hosts that it comes to can be reached. -/
theorem failed_eq_false_iff (ticked : manager.tickTraced self answers state = .ok (next, trace)) :
    trace.failed = false ↔ Reachable self answers manager.clientHost state (manager.visits state) := by
  obtain ⟨⟨⟨reached, pings⟩, made⟩, folded, ticked⟩ := bind_eq_ok_iff.mp ticked
  have tried : Tried self answers manager.clientHost state (manager.visits state) reached.clientHost pings made := by
    refine foldlM_front (fun front progress => Tried self answers manager.clientHost state
      (front.flatMap fun shard => state.replicaIterateByShardID shard.id) progress.1.1.clientHost progress.1.2
      progress.2) folded ?_ ?_
    · exact ⟨fun _ => rfl, iff_of_true rfl fun _ found => (by cases found), by simp, by simp⟩
    · intro front shard back before after _ tried ticked
      simpa using tried.shard ticked
  have same : trace.pings = made.pings := by
    dsimp only at ticked
    split at ticked
    · cases ticked
      rfl
    · cases ticked
      rfl
  rw [PingTrace.failed, same]
  exact tried.reachable

/-- That a tick with a ping that fails keeps its index holds exactly if all hosts that it comes to answer, or if no
shard that it visits is newer than the index, as at the end of the index range. -/
theorem failed_ping_keeps_index_iff (ticked : manager.tickTraced self answers state = .ok (next, trace)) :
    (trace.failed → ¬ manager.index < next.index) ↔
      Reachable self answers manager.clientHost state (manager.visits state) ∨
        ∀ shard ∈ state.shardIterateUpdatedAfter manager.index, shard.updated ≤ manager.index := by
  rw [← failed_eq_false_iff ticked]
  obtain ⟨none_visited, same⟩ | ⟨last, visited, same, latest⟩ := index_tick (tick_of_traced ticked)
  · simp [none_visited, same]
  · have newest : (∀ shard ∈ state.shardIterateUpdatedAfter manager.index, shard.updated ≤ manager.index) ↔
        last.updated ≤ manager.index :=
      ⟨fun all => all last visited, fun bounded shard listed => (latest shard listed).trans bounded⟩
    rw [newest, same, Nat.not_lt]
    cases trace.failed with
    | true => simp
    | false => simp

/-- Two hosts, each with a replica of one shard. -/
def pairLog : List Entry :=
  [{ index := 1, cmd := .host .put Fsm.exampleHost },
    { index := 2, cmd := .host .put { id := "00000000-0000-4000-8000-000000000002", tags := some ∅ } },
    { index := 3, cmd := newCmdShardPost { name := "a" } },
    { index := 4, cmd := newCmdReplicaPost "00000000-0000-4000-8000-000000000002" 1 true },
    { index := 5, cmd := newCmdReplicaPost Fsm.exampleHost.id 1 false }]

/-- What a tick comes to. -/
def pairTick (index : ℕ) (answer : ℕ → Except String ℤ) : Option (State × ClientManager × PingTrace) := do
  let (state, _) ← (Fsm.run {} pairLog).toOption
  let (next, trace) ← (({ index } : ClientManager).tickTraced "h" (.stable answer) state).toOption
  return (state, next, trace)

theorem pairTick_eq_some {index : ℕ} {answer : ℕ → Except String ℤ}
    (ran : pairTick index answer = some (state, next, trace)) :
    (∃ results, Fsm.run {} pairLog = .ok (state, results)) ∧
      ({ index } : ClientManager).tickTraced "h" (.stable answer) state = .ok (next, trace) := by
  unfold pairTick at ran
  generalize Fsm.run {} pairLog = outcome at ran ⊢
  obtain ⟨⟨reached, results⟩, applied, ran⟩ := Option.bind_eq_some_iff.mp ran
  obtain ⟨⟨after, made⟩, ticked, same⟩ := Option.bind_eq_some_iff.mp ran
  cases same
  exact ⟨⟨results, ExceptFold.toOption_eq_some_iff.mp applied⟩, ExceptFold.toOption_eq_some_iff.mp ticked⟩

/-- Neither host answers, and the tick raises its index. -/
theorem unreachable_hosts_passed_over :
    ∃ state results next trace, Fsm.run {} pairLog = .ok (state, results) ∧
      ({} : ClientManager).tickTraced "h" (.stable fun _ => .error "unreachable") state = .ok (next, trace) ∧
      trace.failed ∧ 0 < next.index := by
  obtain ⟨⟨state, next, trace⟩, ran, failed, raised⟩ :
      ∃ ticked ∈ pairTick 0 fun _ => .error "unreachable", ticked.2.2.failed ∧ 0 < ticked.2.1.index := by
    decide +kernel
  obtain ⟨⟨results, applied⟩, ticked⟩ := pairTick_eq_some ran
  exact ⟨state, results, next, trace, applied, ticked, failed, raised⟩

/-- The hosts answer, or neither does in a tick from the end of the index range, which visits all shards again. -/
theorem last_index_not_raised :
    (∃ state next trace, ({} : ClientManager).tickTraced "h" (.stable fun _ => .ok 1) state = .ok (next, trace) ∧
      (trace.failed → ¬ 0 < next.index)) ∧
    ∃ state next trace, ({ index := 2 ^ 64 - 1 } : ClientManager).tickTraced "h"
        (.stable fun _ => .error "unreachable") state = .ok (next, trace) ∧
      trace.failed ∧ ¬ 2 ^ 64 - 1 < next.index := by
  constructor
  · obtain ⟨⟨state, next, trace⟩, ran, fine⟩ : ∃ ticked ∈ pairTick 0 fun _ => .ok 1, ticked.2.2.failed = false := by
      decide +kernel
    obtain ⟨-, ticked⟩ := pairTick_eq_some ran
    exact ⟨state, next, trace, ticked,
      (failed_ping_keeps_index_iff ticked).mpr (.inl ((failed_eq_false_iff ticked).mp fine))⟩
  · obtain ⟨⟨state, next, trace⟩, ran, failed, older⟩ :
        ∃ ticked ∈ pairTick (2 ^ 64 - 1) fun _ => .error "unreachable", ticked.2.2.failed ∧
          ∀ shard ∈ ticked.1.shardIterateUpdatedAfter (2 ^ 64 - 1), shard.updated ≤ 2 ^ 64 - 1 := by
      decide +kernel
    obtain ⟨-, ticked⟩ := pairTick_eq_some ran
    exact ⟨state, next, trace, ticked, failed, (failed_ping_keeps_index_iff ticked).mpr (.inr older) failed⟩

end Failures

section Durations

variable {self : String} {answers : Pings} {state : State} {manager next : ClientManager}
  {known : ExtTreeMap String (Option HostClient)} {entries : PingMap} {replicas : List Replica}

theorem keys_set (entries : PingMap) (ping : ℤ) (client : HostClient) :
    (entries.set ping client).map Prod.fst =
      if ping ∈ entries.map Prod.fst then entries.map Prod.fst else entries.map Prod.fst ++ [ping] := by
  have present : entries.any (·.1 = ping) = true ↔ ping ∈ entries.map Prod.fst := by simp
  unfold PingMap.set
  by_cases kept : ping ∈ entries.map Prod.fst
  · rw [if_pos (present.mpr kept), if_pos kept, List.map_map]
    refine List.map_congr_left fun entry _ => ?_
    rw [Function.comp_apply]
    split
    · next same => exact same.symm
    · rfl
  · rw [if_neg (mt present.mp kept), if_neg kept, List.map_append]
    rfl

/-- A list has no duration twice, and only those of its entries. -/
theorem keys_byPing (answers : Pings) (entries : PingMap) :
    ((byPing answers entries).map Prod.fst).Nodup ∧ (byPing answers entries).map Prod.fst ⊆ entries.map Prod.fst := by
  have folds (items map : PingMap) (nodup : (map.map Prod.fst).Nodup) :
      ((items.foldl (fun map entry => map.set entry.1 entry.2) map).map Prod.fst).Nodup ∧
      (items.foldl (fun map entry => map.set entry.1 entry.2) map).map Prod.fst ⊆
        map.map Prod.fst ++ items.map Prod.fst := by
    induction items generalizing map with
    | nil => simpa using nodup
    | cons entry items ih =>
      have step := keys_set map entry.1 entry.2
      split at step
      · next kept =>
        obtain ⟨distinct, within⟩ := ih (map.set entry.1 entry.2) (step ▸ nodup)
        refine ⟨distinct, List.Subset.trans within ?_⟩
        rw [step]
        simp
      · next fresh =>
        have nodup : (map.map Prod.fst ++ [entry.1]).Nodup := by
          rw [List.nodup_append]
          exact ⟨nodup, by simp, fun ping here other last => by
            rw [List.mem_singleton.mp last]
            rintro rfl
            exact fresh here⟩
        obtain ⟨distinct, within⟩ := ih (map.set entry.1 entry.2) (step ▸ nodup)
        refine ⟨distinct, List.Subset.trans within ?_⟩
        rw [step]
        simp
  obtain ⟨distinct, within⟩ := folds (answers.sort entries) [] (by simp)
  refine ⟨distinct, List.Subset.trans within ?_⟩
  simpa using ((answers.perm entries).map Prod.fst).subset

/-- The list has the client of every replica once and no others, in the order of their pings. -/
structure ListsOnce (known : ExtTreeMap String (Option HostClient)) (state : State) (replicas : List Replica)
    (list : PingMap) : Prop where
  once : ∀ replica ∈ replicas, ∀ client, clientOf known state replica.hostID = some client →
    (list.map Prod.snd).count client = 1
  only : ∀ entry ∈ list, ∃ replica ∈ replicas, clientOf known state replica.hostID = some entry.2
  ordered : list.Pairwise (·.1 ≤ ·.1)

/-- The clients of replicas on different hosts are listed once exactly if their pings differ. -/
theorem listsOnce_byPing_iff (answers : Pings) (clients : entries.map (some ·.2) = replicas.map fun replica =>
      clientOf known state replica.hostID)
    (distinct : (entries.map Prod.snd).Nodup) :
    ListsOnce known state replicas (byPing answers entries) ↔ (entries.map Prod.fst).Nodup := by
  have client_iff (client : HostClient) :
      (∃ replica ∈ replicas, clientOf known state replica.hostID = some client) ↔ client ∈ entries.map Prod.snd := by
    have listed : some client ∈ entries.map (some ·.2) ↔ client ∈ entries.map Prod.snd := by simp
    rw [← listed, clients, List.mem_map]
  constructor
  · intro lists
    have member (client : HostClient) :
        client ∈ (byPing answers entries).map Prod.snd ↔ client ∈ entries.map Prod.snd := by
      rw [← client_iff]
      constructor
      · intro member
        obtain ⟨entry, listed, rfl⟩ := List.mem_map.mp member
        exact lists.only entry listed
      · rintro ⟨replica, listed, known⟩
        exact List.count_pos_iff.mp (by rw [lists.once replica listed client known]; exact Nat.one_pos)
    have once : ((byPing answers entries).map Prod.snd).Nodup := by
      refine List.nodup_iff_count_le_one.mpr fun client => ?_
      by_cases listed : client ∈ (byPing answers entries).map Prod.snd
      · obtain ⟨replica, listed, known⟩ := (client_iff client).mpr ((member client).mp listed)
        exact (lists.once replica listed client known).le
      · rw [List.count_eq_zero_of_not_mem listed]
        exact Nat.zero_le _
    have length := ((List.perm_ext_iff_of_nodup once distinct).mpr member).length_eq
    obtain ⟨nodup, within⟩ := keys_byPing answers entries
    have perm := (nodup.subperm within).perm_of_length_le (by simpa using length.ge)
    exact perm.nodup_iff.mp nodup
  · intro pings
    obtain ⟨perm, ascending⟩ := byPing_spec answers (List.pairwise_map.mp pings)
    refine ⟨fun replica listed client known => ?_, fun entry listed => ?_, ascending.imp Int.le_of_lt⟩
    · rw [(perm.map Prod.snd).count_eq]
      exact List.count_eq_one_of_mem distinct ((client_iff client).mp ⟨replica, listed, known⟩)
    · exact (client_iff entry.2).mpr (List.mem_map_of_mem (perm.mem_iff.mp listed))

/-- The entries of replicas on different hosts, by the clients and the pings of these hosts. -/
theorem entries_of_enters (pings : String → ℤ) (sound : Sound known)
    (assigned : ∀ replica ∈ state.replicaIterate, pingOf self answers known state replica = some (pings replica.hostID))
    (entered : List.Forall₂ (Enters self answers known state) entries replicas) :
    entries.map (some ·.2) = (replicas.map fun replica => clientOf known state replica.hostID) ∧
      entries.map Prod.fst = (replicas.map fun replica => pings replica.hostID) ∧
      entries.map (fun entry => uuidKey entry.2.host.id) = replicas.map fun replica => uuidKey replica.hostID := by
  induction entered with
  | nil => exact ⟨rfl, rfl, rfl⟩
  | @cons entry replica entries replicas enters _ ih =>
    obtain ⟨clients, durations, keys⟩ := ih
    obtain ⟨found, asked, listed, here, pinged⟩ := enters
    have ping : entry.1 = pings replica.hostID := by
      rw [assigned asked listed, here] at pinged
      exact (Option.some.inj pinged).symm
    simp only [List.map_cons, clients, durations, keys, ping, found, sound.clientOf found, and_self]

theorem routed_of_assigned (pings : String → ℤ) {shard : Shard}
    (ticked : manager.tick self answers state = .ok next)
    (visited : shard ∈ state.shardIterateUpdatedAfter manager.index)
    (assigned : ∀ replica ∈ state.replicaIterate,
      pingOf self answers manager.clientHost state replica = some (pings replica.hostID)) :
    Routed self answers manager.clientHost state shard next := by
  refine (routed_tick ticked fun replica listed => ?_).2 shard visited
  rw [assigned replica listed]
  rfl

/-- Where all pings succeed, and the replicas of a shard are on different hosts, a tick that visits the shard lists the
client of each replica, and of each member, once and in the order of their pings exactly if no two of these hosts have
the same ping. -/
theorem lists_complete_iff (pings : String → ℤ) {shard : Shard} (sound : Sound manager.clientHost)
    (ticked : manager.tick self answers state = .ok next)
    (visited : shard ∈ state.shardIterateUpdatedAfter manager.index)
    (assigned : ∀ replica ∈ state.replicaIterate,
      pingOf self answers manager.clientHost state replica = some (pings replica.hostID))
    (spread : ((state.replicaIterateByShardID shard.id).map fun replica => uuidKey replica.hostID).Nodup) :
    ((∃ list, next.clientReplica[shard.id]? = some list ∧
        ListsOnce manager.clientHost state (state.replicaIterateByShardID shard.id) list) ∧
      ∃ list, next.clientMember[shard.id]? = some list ∧
        ListsOnce manager.clientHost state ((state.replicaIterateByShardID shard.id).filter (!·.isNonVoting)) list) ↔
      ((state.replicaIterateByShardID shard.id).map fun replica => pings replica.hostID).Nodup := by
  have routed := routed_of_assigned pings ticked visited assigned
  have listed_iff {replicas : List Replica} {table : ExtTreeMap ℕ PingMap}
      (routed : ∃ entries, table[shard.id]? = some (byPing answers entries) ∧
        List.Forall₂ (Enters self answers manager.clientHost state) entries replicas)
      (spread : (replicas.map fun replica => uuidKey replica.hostID).Nodup) :
      (∃ list, table[shard.id]? = some list ∧ ListsOnce manager.clientHost state replicas list) ↔
        (replicas.map fun replica => pings replica.hostID).Nodup := by
    obtain ⟨entries, written, entered⟩ := routed
    obtain ⟨clients, durations, keys⟩ := entries_of_enters pings sound assigned entered
    have distinct : (entries.map Prod.snd).Nodup := by
      refine .of_map (fun client => uuidKey client.host.id) ?_
      rw [List.map_map]
      exact keys ▸ spread
    rw [← durations, ← listsOnce_byPing_iff answers clients distinct, written]
    simp
  have voting : ((state.replicaIterateByShardID shard.id).filter (!·.isNonVoting)).Sublist
      (state.replicaIterateByShardID shard.id) := List.filter_sublist
  rw [listed_iff routed.replicas spread, listed_iff routed.members (spread.sublist (voting.map _))]
  exact ⟨And.left, fun distinct => ⟨distinct, distinct.sublist (voting.map _)⟩⟩

theorem sound_empty : Sound ({} : ClientManager).clientHost := fun hostID client kept => by
  simp at kept

/-- Two hosts answer after the same time, and one of them is not listed. -/
theorem same_ping_drops_host :
    ∃ state results next trace list, Fsm.run {} pairLog = .ok (state, results) ∧
      ({} : ClientManager).tickTraced "h" (.stable fun _ => .ok 1) state = .ok (next, trace) ∧
      ((state.replicaIterateByShardID 1).map fun replica => uuidKey replica.hostID).Nodup ∧
      (state.replicaIterateByShardID 1).map Replica.id = [1, 2] ∧
      next.clientReplica[1]? = some list ∧ list.length ≤ 1 := by
  obtain ⟨⟨state, next, trace⟩, ran, ⟨shard, visited, named⟩, spread, replicas, assigned⟩ :
      ∃ ticked ∈ pairTick 0 fun _ => .ok 1, (∃ shard ∈ ticked.1.shardIterateUpdatedAfter 0, shard.id = 1) ∧
        ((ticked.1.replicaIterateByShardID 1).map fun replica => uuidKey replica.hostID).Nodup ∧
        (ticked.1.replicaIterateByShardID 1).map Replica.id = [1, 2] ∧
        ∀ replica ∈ ticked.1.replicaIterate, pingOf "h" (.stable fun _ => .ok 1) ∅ ticked.1 replica = some 1 := by
    decide +kernel
  obtain ⟨⟨results, applied⟩, ticked⟩ := pairTick_eq_some ran
  have untraced := tick_of_traced ticked
  obtain ⟨entries, written, entered⟩ :=
    (routed_of_assigned (fun _ => 1) untraced visited assigned).replicas
  refine ⟨state, results, next, trace, byPing (.stable fun _ => .ok 1) entries, applied, ticked, spread, replicas,
    named ▸ written, ?_⟩
  obtain ⟨-, durations, -⟩ := entries_of_enters (fun _ => 1) sound_empty assigned entered
  obtain ⟨nodup, within⟩ := keys_byPing (.stable fun _ => .ok 1) entries
  -- All entries are kept under one duration.
  have single : (byPing (.stable fun _ => .ok 1) entries).map Prod.fst ⊆ [1] := fun ping kept => by
    obtain ⟨_, _, same⟩ := List.mem_map.mp (durations ▸ within kept)
    exact List.mem_singleton.mpr same.symm
  simpa using (nodup.subperm single).length_le

theorem different_pings_listed :
    ∃ state next list, ({} : ClientManager).tick "h" (.stable fun id => .ok id) state = .ok next ∧
      next.clientReplica[1]? = some list ∧
      ListsOnce ∅ state (state.replicaIterateByShardID 1) list := by
  obtain ⟨⟨state, next, trace⟩, ran, ⟨shard, visited, named⟩, assigned, spread, distinct⟩ :
      ∃ ticked ∈ pairTick 0 fun id => .ok id, (∃ shard ∈ ticked.1.shardIterateUpdatedAfter 0, shard.id = 1) ∧
        (∀ replica ∈ ticked.1.replicaIterate, pingOf "h" (.stable fun id => .ok id) ∅ ticked.1 replica =
          some (if replica.hostID = Fsm.exampleHost.id then 2 else 1)) ∧
        ((ticked.1.replicaIterateByShardID 1).map fun replica => uuidKey replica.hostID).Nodup ∧
        ((ticked.1.replicaIterateByShardID 1).map fun replica =>
          if replica.hostID = Fsm.exampleHost.id then (2 : ℤ) else 1).Nodup := by
    decide +kernel
  obtain ⟨-, ticked⟩ := pairTick_eq_some ran
  have untraced := tick_of_traced ticked
  rw [← named] at spread distinct
  obtain ⟨⟨list, found, lists⟩, -⟩ := (lists_complete_iff
    (fun hostID => if hostID = Fsm.exampleHost.id then 2 else 1) sound_empty untraced visited assigned spread).mpr
    distinct
  rw [named] at found lists
  exact ⟨state, next, list, untraced, found, lists⟩

end Durations

end ClientManager

end Zongzi
