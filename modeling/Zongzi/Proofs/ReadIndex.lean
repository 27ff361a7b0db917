import Zongzi.Machine.Loops
import Zongzi.Model.Requests

/-! # When a read index counts

`index` returns without an error when its last request for a read index has completed. It also does when the context
ends while it waits after a request that did not complete, because that attempt had no error. Everything that relies
on `index` then goes on without a read index. In all other runs a success stands for a request that completed.
-/

namespace Zongzi

open Machine Program

abbrev RequestCall : Type := Σ op, RequestRes op

/-- Any answer. -/
abbrev anyAnswer (op : RequestOp) (_ : RequestRes op) : Prop := True

/-- The answer to a request for a read index. -/
def RequestCall.indexed : RequestCall → Option (Except RequestErr (Option Bool))
  | ⟨.readIndex _ _, answer⟩ => some answer
  | _ => none

/-- A request for a read index that did not fail and did not complete. -/
def RequestCall.incomplete : RequestCall → Bool
  | ⟨.readIndex _ _, .ok (some true)⟩ => false
  | ⟨.readIndex _ _, .ok _⟩ => true
  | _ => false

/-- The context ends during a wait. -/
def RequestCall.cancelled : RequestCall → Bool
  | ⟨.wait _, true⟩ => true
  | _ => false

/-- The context does not end while a request waits after a read index that did not complete. -/
def Patient (calls : List RequestCall) : Prop :=
  calls.IsChain fun first second => ¬ (first.incomplete ∧ second.cancelled)

/-- The answer to the last request for a read index. -/
def lastIndexed (calls : List RequestCall) : Option (Except RequestErr (Option Bool)) :=
  (calls.filterMap RequestCall.indexed).getLast?

/-- A read index of the shard has completed. -/
def Indexed (shardID : ℕ) (calls : List RequestCall) : Prop :=
  ∃ site, (⟨.readIndex site shardID, .ok (some true)⟩ : RequestCall) ∈ calls

theorem patient_cons {first : RequestCall} {calls : List RequestCall} (complete : first.incomplete = false) :
    Patient (first :: calls) ↔ Patient calls := by
  cases calls with
  | nil => simp [Patient]
  | cons second calls => simp [Patient, complete]

theorem Patient.infix {first middle last : List RequestCall} (patient : Patient (first ++ middle ++ last)) :
    Patient middle :=
  List.IsChain.right_of_append (List.IsChain.left_of_append patient)

/-- One more attempt before a run that goes on. -/
theorem patient_attempt {site : Site} {shardID : ℕ} {answer : Except RequestErr (Option Bool)}
    {calls : List RequestCall} :
    Patient (⟨.readIndex site shardID, answer⟩ :: ⟨.wait site, false⟩ :: calls) ↔ Patient calls := by
  have waits : Patient (⟨.wait site, false⟩ :: calls) ↔ Patient calls := patient_cons rfl
  rw [← waits, Patient, List.isChain_cons_cons]
  simp [Patient, RequestCall.cancelled]

theorem lastIndexed_attempt {site : Site} {shardID : ℕ} {answer : Except RequestErr (Option Bool)} {flag : Bool}
    {calls : List RequestCall} :
    lastIndexed (⟨.readIndex site shardID, answer⟩ :: ⟨.wait site, flag⟩ :: calls) =
      some ((lastIndexed calls).getD answer) := by
  simp [lastIndexed, RequestCall.indexed, List.getLast?_cons]

theorem indexed_attempt {site : Site} {shardID : ℕ} {answer : Except RequestErr (Option Bool)} {flag : Bool}
    {calls : List RequestCall} (failed : answer ≠ .ok (some true)) :
    Indexed shardID (⟨.readIndex site shardID, answer⟩ :: ⟨.wait site, flag⟩ :: calls) ↔ Indexed shardID calls := by
  refine exists_congr fun other => ?_
  simp only [List.mem_cons, reduceCtorEq, Sigma.mk.injEq, false_and, false_or, or_iff_right_iff_imp]
  rintro ⟨same, completed⟩
  cases same
  exact absurd (eq_of_heq completed).symm failed

/-- What `index` comes to, and how that relates to its calls. -/
structure IndexOutcome (shardID : ℕ) (answer : Answer Unit) (calls : List RequestCall) : Prop where
  asked : answer.isSome → (lastIndexed calls).isSome
  indexed_iff : Indexed shardID calls ↔ lastIndexed calls = some (.ok (some true))
  patient_iff : (answer = some (.ok ()) → lastIndexed calls = some (.ok (some true))) ↔ Patient calls
  uncalled : (⟨.callback, ()⟩ : RequestCall) ∉ calls

/-- A failed attempt and a wait to its end change nothing. -/
theorem IndexOutcome.again {site : Site} {shardID : ℕ} {answer : Answer Unit} {calls : List RequestCall}
    {attempt : Except RequestErr (Option Bool)} (outcome : IndexOutcome shardID answer calls)
    (failed : attempt ≠ .ok (some true)) :
    IndexOutcome shardID answer (⟨.readIndex site shardID, attempt⟩ :: ⟨.wait site, false⟩ :: calls) where
  asked _ := by simp [lastIndexed_attempt]
  indexed_iff := by
    rw [indexed_attempt failed, outcome.indexed_iff, lastIndexed_attempt]
    cases lastIndexed calls with
    | none => simpa using failed
    | some last => simp
  patient_iff := by
    rw [patient_attempt, ← outcome.patient_iff, lastIndexed_attempt]
    refine imp_congr_right fun success => ?_
    obtain ⟨last, asked⟩ := Option.isSome_iff_exists.mp (outcome.asked (by simp [success]))
    rw [asked, Option.getD_some]
  uncalled := by simpa using outcome.uncalled

/-- A failed attempt and a wait that the context ends. -/
theorem indexOutcome_cancelled {site : Site} {shardID : ℕ} {attempt : Except RequestErr (Option Bool)}
    {answer : Answer Unit} (failed : attempt ≠ .ok (some true))
    (returned : answer = some (.ok ()) ↔ ∃ request, attempt = .ok request) :
    IndexOutcome shardID answer [⟨.readIndex site shardID, attempt⟩, ⟨.wait site, true⟩] where
  asked _ := by simp [lastIndexed_attempt]
  indexed_iff := by
    rw [indexed_attempt failed, lastIndexed_attempt]
    simpa [Indexed, lastIndexed] using failed
  patient_iff := by
    rw [returned, lastIndexed_attempt]
    cases attempt with
    | error err => simp [Patient, RequestCall.incomplete]
    | ok request =>
      match request with
      | some true => exact absurd rfl failed
      | some false => simp [Patient, RequestCall.incomplete, RequestCall.cancelled, lastIndexed]
      | none => simp [Patient, RequestCall.incomplete, RequestCall.cancelled, lastIndexed]
  uncalled := by simp

theorem index_records (site : Site) (shardID fuel : ℕ) :
    (index site shardID fuel).Records anyAnswer (IndexOutcome shardID) := by
  induction fuel with
  | zero => exact ⟨nofun, by simp [Indexed, lastIndexed], by simp [Patient], by simp⟩
  | succ fuel ih =>
    intro attempt _
    match attempt with
    | .ok (some true) =>
      refine ⟨fun _ => rfl, ?_, ?_, by simp⟩
      · exact iff_of_true ⟨site, List.mem_singleton_self _⟩ rfl
      · exact iff_of_true (fun _ => rfl) (List.isChain_singleton _)
    | .ok (some false) =>
      intro flag _
      cases flag with
      | true => exact indexOutcome_cancelled nofun (iff_of_true rfl ⟨_, rfl⟩)
      | false => exact ih.mono fun _ _ outcome => outcome.again nofun
    | .ok none =>
      intro flag _
      cases flag with
      | true => exact indexOutcome_cancelled nofun (iff_of_true rfl ⟨_, rfl⟩)
      | false => exact ih.mono fun _ _ outcome => outcome.again nofun
    | .error err =>
      intro flag _
      cases flag with
      | true => exact indexOutcome_cancelled nofun (iff_of_false nofun nofun)
      | false => exact ih.mono fun _ _ outcome => outcome.again nofun

theorem agentState_records (fuel : ℕ) : (agentState fuel).Records anyAnswer fun _ calls =>
    ((⟨.callback, ()⟩ : RequestCall) ∈ calls → Indexed ShardID calls) ↔ Patient calls := by
  refine (index_records .own ShardID fuel).bind fun answer calls outcome => ?_
  have same := outcome.patient_iff
  rw [← outcome.indexed_iff] at same
  match answer with
  | some (.ok _) =>
    intro _ _
    have extended : Patient (calls ++ [⟨.callback, ()⟩]) ↔ Patient calls := by
      refine ⟨List.IsChain.left_of_append, fun patient => ?_⟩
      exact patient.append (List.isChain_singleton _) (by simp [RequestCall.cancelled])
    change (_ ∈ calls ++ [⟨.callback, ()⟩] → Indexed ShardID (calls ++ [⟨.callback, ()⟩])) ↔ Patient (calls ++ _)
    rw [extended, ← same]
    simp [Indexed]
  | some (.error err) =>
    change (_ ∈ calls ++ [] → Indexed ShardID (calls ++ [])) ↔ Patient (calls ++ [])
    rw [List.append_nil, ← same]
    exact iff_of_true (fun called => absurd called outcome.uncalled) nofun
  | none =>
    change (_ ∈ calls ++ [] → Indexed ShardID (calls ++ [])) ↔ Patient (calls ++ [])
    rw [List.append_nil, ← same]
    exact iff_of_true (fun called => absurd called outcome.uncalled) nofun

/-- In every run, a success of `index` stands for a last request that completed, a callback has been run only after a
read index of the prime shard, and an answer of the server without an error only after one of the shard it was asked
for, exactly if the context does not end while the run waits after a request that did not complete. -/
theorem reads_linearize (site : Site) (shardID fuel : ℕ) :
    ((index site shardID fuel).Records anyAnswer fun answer calls =>
      (answer = some (.ok ()) → lastIndexed calls = some (.ok (some true))) ↔ Patient calls) ∧
    ((agentState fuel).Records anyAnswer fun _ calls =>
      ((⟨.callback, ()⟩ : RequestCall) ∈ calls → Indexed ShardID calls) ↔ Patient calls) ∧
    (grpcIndex site shardID fuel).Records anyAnswer fun answer calls =>
      (answer = some (.ok ()) → Indexed shardID calls) ↔ Patient calls := by
  refine ⟨?_, agentState_records fuel, ?_⟩
  · exact (index_records site shardID fuel).mono fun _ _ outcome => outcome.patient_iff
  · refine (index_records site shardID fuel).mono fun _ _ outcome => ?_
    rw [outcome.indexed_iff]
    exact outcome.patient_iff

section Skipped

/-- Answer the calls of a program from a list. -/
def answerFrom : Serve Unit RequestOp RequestRes RequestCall := fun _ op call =>
  if same : call.1 = op then some (same ▸ call.2, ()) else none

/-- A request that does not complete, and a context that ends. -/
def skippedRead : List RequestCall := [⟨.readIndex .own ShardID, .ok (some false)⟩, ⟨.wait .own, true⟩]

/-- The callback is run although no read index has completed. -/
theorem callback_without_index :
    (exec answerFrom (index .own ShardID 1) () skippedRead).map Prod.fst = some (some (.ok ())) ∧
    (exec answerFrom (agentState 1) () (skippedRead ++ [⟨.callback, ()⟩])).map Prod.fst = some (some (.ok ())) ∧
    (exec answerFrom (grpcIndex .own ShardID 1) () skippedRead).map Prod.fst = some (some (.ok ())) :=
  ⟨rfl, rfl, rfl⟩

end Skipped

end Zongzi
