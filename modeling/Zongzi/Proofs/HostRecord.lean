import Zongzi.Model.Start
import Zongzi.Proofs.Cluster
import Zongzi.Proofs.LedgerRefinement
import Zongzi.Proofs.References

/-! # The record of a started host

A host describes itself when its agent has started. An agent that adds the host to the prime shard has put a
nearly blank record for it before. That put was decided on an earlier read, or on none, and nothing makes it
arrive first: where it arrives later it overwrites the host's own record. The record stays as the host has put
it exactly in the runs where it never does.
-/

namespace Zongzi

open Std Machine

section Introduces

open Program

variable {α : Type}

/-- Among the host commands only puts, with a status that says who proposes them. -/
def Cmd.Introduces : Cmd → Prop
  | .host action record => action = .put ∧ (record.status = .new ∨ record.status = .active)
  | _ => True

def AgentOp.Introduces : AgentOp → Prop
  | .propose cmd => cmd.Introduces
  | _ => True

/-- The program proposes no host command but the puts of a start. -/
abbrev IntroducesOnly (program : AgentM α) : Prop := program.OnlyCalls AgentOp.Introduces

theorem introduces_propose {cmd : Cmd} {next : Except String Result → AgentM α} (introduces : cmd.Introduces)
    (rest : ∀ answer, IntroducesOnly (next answer)) : IntroducesOnly (primePropose cmd >>= next) :=
  .bind (.perform introduces) rest

theorem introduces_perform {op : AgentOp} {next : AgentRes op → AgentM α} (introduces : op.Introduces)
    (rest : ∀ answer, IntroducesOnly (next answer)) : IntroducesOnly (perform op >>= next) :=
  .bind (.perform introduces) rest

theorem introduces_read {next : Except String Snapshot → AgentM α}
    (rest : ∀ answer, IntroducesOnly (next answer)) : IntroducesOnly (readState >>= next) :=
  .bind (.perform trivial) rest

theorem introduces_map {β : Type} {program : AgentM α} (f : α → β) (only : IntroducesOnly program) :
    IntroducesOnly (f <$> program) :=
  .bind only fun _ => trivial

section Join

theorem primeAddHost_introduces (nhid : String) : IntroducesOnly (primeAddHost nhid) := by
  refine introduces_perform trivial fun answer => ?_
  cases answer with
  | error err => trivial
  | ok addr => exact introduces_propose ⟨rfl, .inl rfl⟩ fun answer => by cases answer <;> trivial

theorem primeAddReplica_introduces (nhid : String) (isNonVoting : Bool) :
    IntroducesOnly (primeAddReplica nhid isNonVoting) :=
  introduces_propose trivial fun answer => by cases answer <;> trivial

theorem joinShardReplica_introduces (hostID : String) (shardID replicaID : ℕ) (isNonVoting : Bool) :
    IntroducesOnly (joinShardReplica hostID shardID replicaID isNonVoting) := by
  refine introduces_perform trivial fun answer => ?_
  cases answer with
  | error err => trivial
  | ok membership =>
    dsimp only
    generalize (if isNonVoting then membership.nonVotings else membership.nodes) = joined
    split
    · trivial
    · exact introduces_perform trivial fun answer => by cases answer <;> trivial

theorem joinPrimeHost_introduces (hostID : String) : IntroducesOnly (joinPrimeHost hostID) := by
  refine introduces_read fun answer => ?_
  cases answer with
  | error err => exact primeAddHost_introduces hostID
  | ok snapshot =>
    dsimp only
    split
    · exact primeAddHost_introduces hostID
    · trivial

theorem joinPrimeRecord_introduces (hostID : String) (host : Host) (shardID : ℕ) (isNonVoting : Bool) :
    IntroducesOnly (joinPrimeRecord hostID host shardID isNonVoting) := by
  refine introduces_read fun answer => ?_
  cases answer with
  | error err => exact primeAddReplica_introduces hostID isNonVoting
  | ok snapshot =>
    dsimp only
    split
    · exact primeAddReplica_introduces hostID isNonVoting
    · trivial

theorem joinPrimeReplica_introduces (hostID : String) (shardID : ℕ) (isNonVoting : Bool) :
    IntroducesOnly (joinPrimeReplica hostID shardID isNonVoting) := by
  refine .bind (joinPrimeHost_introduces hostID) fun answer => ?_
  cases answer with
  | error err => trivial
  | ok host =>
    refine .bind (joinPrimeRecord_introduces hostID host shardID isNonVoting) fun answer => ?_
    cases answer with
    | error err => trivial
    | ok replicaID => exact joinShardReplica_introduces hostID shardID replicaID isNonVoting

end Join

section Init

theorem primeInitHosts_introduces (members : List (ℕ × String)) (toAdd : List String) :
    IntroducesOnly (primeInitHosts members toAdd) := by
  induction members generalizing toAdd with
  | nil => trivial
  | cons member members ih =>
    refine .bind (primeAddHost_introduces member.2) fun answer => ?_
    cases answer with
    | error err => trivial
    | ok host =>
      dsimp only
      split
      · exact ih _
      · trivial

theorem primeInitReplicas_introduces (toAdd : List String) : IntroducesOnly (primeInitReplicas toAdd) := by
  induction toAdd with
  | nil => trivial
  | cons nhid toAdd ih =>
    refine .bind (primeAddReplica_introduces nhid false) fun answer => ?_
    cases answer with
    | error err => trivial
    | ok id => exact ih

theorem rangeMap_introduces {κ β : Type} [Ord κ] [TransOrd κ] (entries : ExtTreeMap κ β) :
    IntroducesOnly (rangeMap entries) :=
  .bind (.perform trivial) fun _ => trivial

theorem primeInit_introduces (members : ExtTreeMap ℕ String) : IntroducesOnly (primeInit members) := by
  refine introduces_propose trivial fun answer => ?_
  cases answer with
  | error err => trivial
  | ok result =>
    refine .bind (rangeMap_introduces members) fun entries => ?_
    refine .bind (primeInitHosts_introduces entries _) fun answer => ?_
    cases answer with
    | error err => trivial
    | ok toAdd => exact primeInitReplicas_introduces toAdd

end Init

section Resolve

variable (peers : List String) (self : String)

theorem peerInfo_introduces (apiAddr : String) : IntroducesOnly (peerInfo self apiAddr) := by
  unfold peerInfo
  split
  · refine introduces_perform trivial fun hostID => ?_
    split
    · exact introduces_perform trivial fun _ => introduces_perform trivial fun _ => trivial
    · exact .perform trivial
  · exact .perform trivial

theorem pollPeers_introduces (poll : Poll) : IntroducesOnly (pollPeers self peers poll) := by
  induction peers generalizing poll with
  | nil => trivial
  | cons apiAddr peers ih =>
    refine .bind (peerInfo_introduces self apiAddr) fun answer => ?_
    cases answer with
    | error err => trivial
    | ok info => exact ih _

theorem assignReplicaIDs_introduces (uninitialized : ExtTreeMap String String) (position : ℕ)
    (members : ExtTreeMap ℕ String) :
    IntroducesOnly (assignReplicaIDs self uninitialized peers position members) := by
  induction peers generalizing position members with
  | nil => trivial
  | cons apiAddr peers ih =>
    unfold assignReplicaIDs
    dsimp only
    split
    · exact introduces_perform trivial fun _ => ih _ _
    · exact ih _ _

theorem adoptMembers_introduces (answered : List (ℕ × String)) (members : ExtTreeMap ℕ String) :
    IntroducesOnly (adoptMembers self answered members) := by
  induction answered generalizing members with
  | nil => trivial
  | cons member answered ih =>
    refine introduces_perform trivial fun hostID => ?_
    split
    · exact introduces_perform trivial fun _ => trivial
    · exact ih _

theorem queryMembers_introduces (uninitialized : ExtTreeMap String String) (members : ExtTreeMap ℕ String) :
    IntroducesOnly (queryMembers self uninitialized peers members) := by
  induction peers with
  | nil => trivial
  | cons apiAddr peers ih =>
    unfold queryMembers
    split
    · exact ih
    · split
      · exact ih
      · refine introduces_perform trivial fun answer => ?_
        cases answer with
        | error err => trivial
        | ok answered =>
          exact .bind (rangeMap_introduces answered) fun entries =>
            .bind (adoptMembers_introduces self entries members) fun _ => trivial

theorem resolveInitialized_introduces (uninitialized : ExtTreeMap String String) (members : ExtTreeMap ℕ String) :
    IntroducesOnly (resolveInitialized peers self uninitialized members) := by
  unfold resolveInitialized
  split
  · refine .bind (queryMembers_introduces peers self uninitialized members) fun answer => ?_
    obtain ⟨members, err⟩ := answer
    cases err with
    | some err => trivial
    | none =>
      refine introduces_perform trivial fun replicaID => ?_
      split <;> trivial
  · trivial

theorem resolveUninitialized_introduces (poll : Poll) : IntroducesOnly (resolveUninitialized peers self poll) := by
  refine .bind (assignReplicaIDs_introduces peers self poll.uninitialized 0 poll.members) fun members => ?_
  refine introduces_perform trivial fun replicaID => ?_
  split
  · trivial
  · exact resolveInitialized_introduces peers self poll.uninitialized members

theorem resolvePass_introduces : IntroducesOnly (resolvePass peers self) := by
  refine .bind (pollPeers_introduces peers self {}) fun answer => ?_
  obtain ⟨poll, err⟩ := answer
  cases err with
  | some err => trivial
  | none =>
    dsimp only
    split
    · trivial
    · split
      · exact resolveUninitialized_introduces peers self poll
      · exact resolveInitialized_introduces peers self poll.uninitialized poll.members

theorem resolvePrimeMembership_introduces (fuel : ℕ) : IntroducesOnly (resolvePrimeMembership peers self fuel) := by
  induction fuel with
  | zero => trivial
  | succ fuel ih =>
    refine .bind (resolvePass_introduces peers self) fun answer => ?_
    cases answer with
    | some resolution => trivial
    | none => exact ih

end Resolve

section Start

variable (peers : List String) (self : String)

theorem startPrimeReplica_introduces (members : ExtTreeMap ℕ String) (join : Bool) :
    IntroducesOnly (startPrimeReplica members join) :=
  introduces_perform trivial fun answer => by cases answer <;> trivial

theorem primeInitAwait_introduces (fuel : ℕ) : IntroducesOnly (primeInitAwait self fuel) := by
  induction fuel with
  | zero => trivial
  | succ fuel ih =>
    refine introduces_read fun answer => ?_
    cases answer with
    | error err => trivial
    | ok snapshot =>
      refine introduces_perform trivial fun hostID => ?_
      split
      · trivial
      · exact ih

theorem join_introduces (apiAddr hostID : String) (isNonVoting : Bool) :
    IntroducesOnly (join apiAddr hostID isNonVoting) := by
  refine introduces_perform trivial fun answer => ?_
  cases answer with
  | error err => trivial
  | ok status =>
    dsimp only
    split
    · exact joinPrimeReplica_introduces hostID ShardID isNonVoting
    · trivial

theorem joinPrimeShard_introduces (isNonVoting : Bool) (last : Except String ℕ) :
    IntroducesOnly (joinPrimeShard self isNonVoting peers last) := by
  induction peers generalizing last with
  | nil => trivial
  | cons apiAddr peers ih =>
    refine introduces_perform trivial fun hostID => ?_
    refine .bind (join_introduces apiAddr hostID isNonVoting) fun answer => ?_
    cases answer with
    | error err => exact ih _
    | ok replicaID =>
      dsimp only
      split
      · trivial
      · exact ih _

theorem startUntil_introduces (fuel : ℕ) : IntroducesOnly (startUntil fuel) := by
  induction fuel with
  | zero => trivial
  | succ fuel ih =>
    refine .bind (startPrimeReplica_introduces ∅ true) fun answer => ?_
    cases answer with
    | some err => exact ih
    | none => trivial

theorem joinUntil_introduces (fuel : ℕ) : IntroducesOnly (joinUntil peers self fuel) := by
  induction fuel with
  | zero => trivial
  | succ fuel ih =>
    refine .bind (joinPrimeShard_introduces peers self _ _) fun answer => ?_
    cases answer with
    | error err => exact ih
    | ok replicaID => exact introduces_perform trivial fun _ => startUntil_introduces fuel

theorem startPrime_introduces (hostID : String) (localReplicaID fuel : ℕ) :
    IntroducesOnly (startPrime peers self hostID localReplicaID fuel) := by
  have membership : IntroducesOnly (primeMembership peers self hostID localReplicaID fuel) := by
    refine introduces_perform trivial fun _ => introduces_perform trivial fun _ => ?_
    refine .bind (resolvePrimeMembership_introduces peers self fuel) fun answer => ?_
    cases answer with
    | none => trivial
    | some resolution => exact introduces_perform trivial fun _ => trivial
  refine .bind membership fun answer => ?_
  cases answer with
  | none => trivial
  | some resolution =>
    dsimp only
    cases resolution.err with
    | some err => trivial
    | none =>
      refine introduces_perform trivial fun replicaID => ?_
      split
      · exact introduces_perform trivial fun _ => joinUntil_introduces peers self fuel
      · split
        · split
          · refine introduces_perform trivial fun _ => ?_
            refine .bind (startPrimeReplica_introduces resolution.members false) fun answer => ?_
            cases answer with
            | some err => trivial
            | none => exact .bind (primeInit_introduces resolution.members) fun _ => trivial
          · refine introduces_perform trivial fun _ => ?_
            refine .bind (startPrimeReplica_introduces resolution.members false) fun answer => ?_
            cases answer with
            | some err => trivial
            | none => exact primeInitAwait_introduces self fuel
        · exact introduces_perform trivial fun _ =>
            .bind (startPrimeReplica_introduces ∅ false) fun _ => trivial

theorem updateHost_introduces (config : HostConfig) : IntroducesOnly (updateHost self config) := by
  refine introduces_perform trivial fun hostID => introduces_perform trivial fun answer => ?_
  cases answer with
  | error err => trivial
  | ok apiAddr =>
    refine introduces_perform trivial fun hostID => ?_
    exact introduces_propose ⟨rfl, .inr rfl⟩ fun answer => by cases answer <;> trivial

theorem updateReplica_introduces : IntroducesOnly (updateReplica self) :=
  introduces_perform trivial fun _ => introduces_propose trivial fun answer => by cases answer <;> trivial

theorem start_introduces (hostID : String) (localReplicaID fuel : ℕ) (config : HostConfig) :
    IntroducesOnly (start peers self hostID localReplicaID fuel config) := by
  refine .bind (startPrime_introduces peers self hostID localReplicaID fuel) fun startup => ?_
  cases startup with
  | started =>
    refine .bind (updateHost_introduces self config) fun err => ?_
    cases err with
    | some err => trivial
    | none =>
      refine .bind (updateReplica_introduces self) fun err => ?_
      cases err with
      | some err => trivial
      | none => exact introduces_perform trivial fun _ => trivial
  | running => trivial
  | failed err => trivial

end Start

theorem StartCall.introduces (call : StartCall) : IntroducesOnly call.program := by
  cases call with
  | joinPrimeReplica hostID shardID isNonVoting =>
    exact introduces_map _ (joinPrimeReplica_introduces hostID shardID isNonVoting)
  | primeInit members => exact introduces_map _ (primeInit_introduces members)
  | start peers self hostID localReplicaID fuel config =>
    exact introduces_map _ (start_introduces peers self hostID localReplicaID fuel config)

end Introduces

section Profile

variable {key : String} {entry : Entry}

/-- What a started host says about itself. -/
def Host.profile (host : Host) : HostStatus × String × Option (List String) × String :=
  (host.status, host.raftAddress, host.shardTypes, host.apiAddress)

/-- A host put writes what it says. -/
theorem profile_of_put {state next : State} {host : Host} {result : Result} (parsed : uuidKey host.id = some key)
    (cmd : entry.cmd = .host .put host) (updated : Fsm.update state entry = .ok (next, result)) :
    (next.hosts.id[key]?).map Host.profile = some host.profile := by
  obtain ⟨invalid, -⟩ | ⟨middle, applied, rfl, -⟩ := Fsm.update_cases updated
  · cases cmd.symm.trans invalid
  · rw [Fsm.apply, cmd] at applied
    obtain ⟨named, written, source, valid, same, -, merged, stored, -⟩ := Fsm.hostCmdPut_cases applied
    cases parsed.symm.trans valid
    obtain ⟨other, again, ledger⟩ := State.ledger_hostPut stored
    rw [same, parsed] at again
    cases again
    have here : middle.hosts.id[key]? = some written :=
      (congrArg (fun ledger => ledger.hosts key) ledger).trans (Function.update_self ..)
    change (middle.hosts.id[key]?).map Host.profile = _
    rw [here]
    obtain ⟨old, tags, changed, -, -, -, rfl⟩ | ⟨-, -, rfl⟩ := merged
    · rfl
    · rfl

theorem HostWrite.put_of_introduces {stored record : Option Host} (write : HostWrite entry key stored record)
    (introduces : entry.cmd.Introduces) :
    ∃ host, entry.cmd = .host .put host ∧ uuidKey host.id = some key := by
  cases write with
  | new cmd parsed => exact ⟨_, cmd, parsed⟩
  | put cmd parsed => exact ⟨_, cmd, parsed⟩
  | tags cmd parsed tagFn =>
    rw [cmd] at introduces
    obtain ⟨rfl, -⟩ := introduces
    cases tagFn
  | del cmd =>
    rw [cmd] at introduces
    cases introduces.1

/-- Every other command of a start keeps what the record says. -/
theorem Ledger.Step.profile_kept {ledger after : Ledger} (step : ledger.Step entry after)
    (introduces : entry.cmd.Introduces)
    (other : ∀ host, entry.cmd = .host .put host → uuidKey host.id ≠ some key) :
    (after.hosts key).map Host.profile = (ledger.hosts key).map Host.profile := by
  cases step with
  | idle => rfl
  | @host written record write =>
    obtain ⟨host, cmd, parsed⟩ := write.put_of_introduces introduces
    have different : key ≠ written := by
      rintro rfl
      exact other host cmd parsed
    exact congrArg _ (Function.update_of_ne different ..)
  | shardPost => rfl
  | shardLeader => rfl
  | shard => exact PartialTable.map_rewrite fun _ => rfl
  | replicaPost => exact PartialTable.map_rewrite fun _ => rfl
  | replica => exact PartialTable.map_rewrite fun _ => rfl

end Profile

/-- Agents that start, and what the host has last put about itself. -/
structure Introduction (ι : Type) where
  pool : Pool Cluster ι AgentOp AgentRes Unit
  own : Option Host := none

/-- The host put for this host that the step of a program applies. -/
def appliedPut (key : String) (program : AgentM Unit) (choice : Choice) : Option Host :=
  match program with
  | .call (.propose (.host .put host)) _ =>
    if uuidKey host.id = some key ∧ choice.applies then some host else none
  | _ => none

namespace Introduction

variable {ι : Type} [DecidableEq ι] {key : String} {before after : Introduction ι} {label : ι × Choice}

/-- One call is served. A put of the host itself says that it is active. -/
def Steps (key : String) (before : Introduction ι) (label : ι × Choice) (after : Introduction ι) : Prop :=
  before.pool.Steps Cluster.serve label after.pool ∧
    after.own = ((appliedPut key (before.pool.threads label.1) label.2).filter (·.status = .active)).or before.own

/-- The record says what the host has put. -/
def Described (key : String) (introduction : Introduction ι) : Prop :=
  ∀ host ∈ introduction.own, (introduction.pool.shared.registry.hosts.id[key]?).map Host.profile =
    some (.active, host.raftAddress, host.shardTypes, host.apiAddress)

/-- A put that adds the host finds that the host has not described itself yet. -/
def Early (key : String) (introduction : Introduction ι) (label : ι × Choice) : Prop :=
  ∀ host ∈ appliedPut key (introduction.pool.threads label.1) label.2, host.status = .new →
    introduction.own = none

theorem steps_determined : Determined (Steps (ι := ι) key) := by
  rintro before label ⟨left, _⟩ ⟨right, _⟩ ⟨moved, rfl⟩ ⟨again, rfl⟩
  cases Pool.steps_determined _ _ _ _ moved again
  rfl

theorem appliedPut_eq_some_iff {program : AgentM Unit} {choice : Choice} {host : Host} :
    appliedPut key program choice = some host ↔ ∃ continue_,
      program = .call (.propose (.host .put host)) continue_ ∧ uuidKey host.id = some key ∧ choice.applies := by
  unfold appliedPut
  split
  · next put continue_ =>
    split
    · next applies =>
      constructor
      · intro same
        cases same
        exact ⟨continue_, rfl, applies⟩
      · rintro ⟨_, same, -⟩
        cases same
        rfl
    · next applies =>
      constructor
      · nofun
      · rintro ⟨_, same, met⟩
        cases same
        exact absurd met applies
  · next other =>
    constructor
    · nofun
    · rintro ⟨continue_, rfl, -⟩
      exact absurd rfl (other host continue_)

theorem introducesOnly_path {labels : List (ι × Choice)} (path : Path (Steps key) before labels after)
    (only : ∀ i, IntroducesOnly (before.pool.threads i)) : ∀ i, IntroducesOnly (after.pool.threads i) :=
  path.invariant only fun _ _ _ _ only moved => Pool.onlyCalls_step moved.1 only

/-- Without a put for the host a step keeps what the record says. -/
theorem profile_step (only : ∀ i, IntroducesOnly (before.pool.threads i)) (moved : before.Steps key label after)
    (none : appliedPut key (before.pool.threads label.1) label.2 = none) :
    (after.pool.shared.registry.hosts.id[key]?).map Host.profile =
      (before.pool.shared.registry.hosts.id[key]?).map Host.profile := by
  obtain ⟨same, -⟩ | ⟨cmd, continue_, index, result, calling, applies, updated⟩ := Cluster.registry_step moved.1
  · rw [same]
  · have permitted := only label.1
    rw [calling] at permitted none
    refine (Fsm.update_ledger updated).profile_kept permitted.1 fun host put parsed => ?_
    change cmd = _ at put
    subst put
    have some := appliedPut_eq_some_iff.mpr ⟨continue_, rfl, parsed, applies⟩
    cases none.symm.trans some

/-- A put for the host that is applied is what the record says. -/
theorem profile_put {host : Host} (moved : before.Steps key label after)
    (put : appliedPut key (before.pool.threads label.1) label.2 = some host) :
    (after.pool.shared.registry.hosts.id[key]?).map Host.profile = some host.profile := by
  obtain ⟨continue_, calling, parsed, applies⟩ := appliedPut_eq_some_iff.mp put
  obtain ⟨-, skipped⟩ | ⟨cmd, other, index, result, again, -, updated⟩ := Cluster.registry_step moved.1
  · cases (skipped _ _ calling).symm.trans applies
  · cases calling.symm.trans again
    exact profile_of_put parsed rfl updated

/-- A step keeps the record as the host has put it exactly if it does not add the host once more. -/
theorem described_step_iff (only : ∀ i, IntroducesOnly (before.pool.threads i)) (described : before.Described key)
    (moved : before.Steps key label after) : after.Described key ↔ before.Early key label := by
  have owns := moved.2
  cases put : appliedPut key (before.pool.threads label.1) label.2 with
  | none =>
    refine iff_of_true (fun host own => ?_) fun host member => ?_
    · rw [put, Option.filter_none, Option.none_or] at owns
      rw [profile_step only moved put]
      exact described host (owns ▸ own)
    · cases put.symm.trans member
  | some host =>
    have written := profile_put moved put
    obtain ⟨continue_, calling, -, -⟩ := appliedPut_eq_some_iff.mp put
    have permitted := only label.1
    rw [calling] at permitted
    rw [put] at owns
    obtain new | active := permitted.1.2
    · rw [Option.filter_some_neg (by simp [new]), Option.none_or] at owns
      constructor
      · intro still other member status
        cases own : before.own with
        | none => rfl
        | some earlier =>
          have kept := still earlier (owns.trans own)
          rw [written, Host.profile, new] at kept
          cases kept
      · intro early earlier own
        have missing := early host put new
        cases (owns.trans missing).symm.trans own
    · rw [Option.filter_some_pos (by simp [active]), Option.some_or] at owns
      refine iff_of_true (fun other own => ?_) fun other member status => ?_
      · cases owns.symm.trans own
        rw [written, Host.profile, active]
      · cases put.symm.trans member
        cases active.symm.trans status

/-- While agents start, join and initialize, the record of a host stays as the host has last put it exactly if
every put that adds the host is applied before the first put of the host itself. -/
theorem started_host_described (cluster : Cluster) (calls : ι → StartCall) (key : String)
    {labels : List (ι × Choice)} {last : Introduction ι}
    (path : Path (Steps key) { pool := { shared := cluster, threads i := (calls i).program } } labels last) :
    Always (Steps key) { pool := { shared := cluster, threads i := (calls i).program } } labels (Described key) ↔
    AlwaysStep (Steps key) { pool := { shared := cluster, threads i := (calls i).program } } labels (Early key) := by
  refine always_iff steps_determined path nofun fun front event back before after split reached described moved => ?_
  exact described_step_iff (introducesOnly_path reached fun i => (calls i).introduces) described moved

section Runs

/-- The steps as a function. -/
def step (key : String) (before : Introduction ι) (label : ι × Choice) : Option (Introduction ι) :=
  (before.pool.step Cluster.serve label).map fun pool =>
    ⟨pool, ((appliedPut key (before.pool.threads label.1) label.2).filter (·.status = .active)).or before.own⟩

theorem steps_eq_step : Steps (ι := ι) key = fun before label after => before.step key label = some after := by
  funext before label after
  refine propext ⟨fun ⟨moved, owns⟩ => ?_, fun stepped => ?_⟩
  · unfold step
    rw [show before.pool.step Cluster.serve label = some after.pool from moved, Option.map_some, ← owns]
  · obtain ⟨pool, moved, rfl⟩ := Option.map_eq_some_iff.mp stepped
    exact ⟨moved, rfl⟩

def early (key : String) (introduction : Introduction ι) (label : ι × Choice) : Bool :=
  (appliedPut key (introduction.pool.threads label.1) label.2).all fun host =>
    host.status ≠ .new || introduction.own.isNone

omit [DecidableEq ι] in
theorem early_of_check (checked : early key before label) : before.Early key label := by
  intro host put new
  rw [early, Option.mem_def.mp put] at checked
  simpa [new] using checked

/-- An agent that handles a request to join, and the agent that has sent it. -/
def racingCalls : Bool → StartCall
  | false => .joinPrimeReplica Fsm.exampleHost.id ShardID true
  | true => .start ["p"] "h" Fsm.exampleHost.id 0 2 { raftAddress := "h:10801", shardTypes := {"kv"} }

/-- They run beside one peer that is ready. -/
def racing : Introduction Bool where
  pool := {
    shared := { registry := {}, agents := fun _ => { hostID := "p", replicaID := 1, status := .ready } }
    threads i := (racingCalls i).program }

/-- The request is read and not served in time. -/
def lateRequest : List (Bool × Choice) := [(false, .snapshot fun _ => []), (false, .meta_ "h:10800")]

/-- The agent asks again, joins, starts its replica and describes its host. -/
def startSteps : List (Bool × Choice) :=
  [.serve, .serve, .serve, .serve, .serve, .serve, .serve, .serve, .snapshot fun _ => [], .meta_ "h:10800", .applied 1,
    .snapshot fun _ => [], .applied 2, .membership ⟨∅, ∅, 0⟩, .serve, .serve, .serve, .serve, .meta_ "h:10800", .serve,
    .applied 3, .serve, .applied 4, .serve].map fun choice => (true, choice)

/-- The key of the host that joins. -/
def racingKey : String := (uuidKey Fsm.exampleHost.id).getD ""

private theorem startSteps_run : (∃ last ∈ startSteps.foldlM (step racingKey) racing, last.own.isSome) ∧
    checks (step racingKey) (early racingKey) racing startSteps = true := by
  decide +kernel

/-- When nobody else handles a request of the host, its record stays as the host has put it. -/
theorem undisturbed_host_described : ∃ last, Path (Steps racingKey) racing startSteps last ∧ last.own.isSome ∧
    Always (Steps racingKey) racing startSteps (Described racingKey) := by
  obtain ⟨last, ran, owns⟩ := startSteps_run.1
  have path : Path (Steps racingKey) racing startSteps last := by
    rw [steps_eq_step]
    exact Path.iff_foldlM.mpr ran
  have early : AlwaysStep (Steps racingKey) racing startSteps (Early racingKey) := by
    rw [steps_eq_step]
    exact .of_checks (fun _ _ => early_of_check) startSteps_run.2
  exact ⟨last, path, owns, (started_host_described racing.pool.shared racingCalls racingKey path).mpr early⟩

/-- Another agent reads before the host is added, and adds it when the host has started. -/
def racingSteps : List (Bool × Choice) := startSteps.take 7 ++ lateRequest ++ startSteps.drop 7 ++ [(false, .applied 5)]

/-- What the record says after the first steps. -/
def profileAfter (count : ℕ) : Option (HostStatus × String × Option (List String) × String) := do
  let last ← (racingSteps.take count).foldlM (step racingKey) racing
  (last.pool.shared.registry.hosts.id[racingKey]?).map Host.profile

/-- The late put overwrites the record of the started host. -/
theorem late_request_overwrites :
    profileAfter 26 = some (.active, "h:10801", some ["kv"], "h:10800") ∧
      profileAfter 27 = some (.new, "", none, "h:10800") := by
  decide +kernel

end Runs

end Introduction

end Zongzi
