import Zongzi.Machine.Program
import Zongzi.Model.State

/-! # The default shard controller

`reconcile` compares the replicas of one shard with the placement its tags ask for and creates or
deletes replicas through its controls. It decides on a snapshot: what it creates and deletes is not
visible to it before the next snapshot. Every loop over a Go map asks for an order first, so the
model leaves map iteration order open.

The tag index is not part of `State`. A snapshot carries its own answers to `HostIterateByTag`.
-/

namespace Zongzi

open Std Machine

/-- A read transaction of the registry. -/
structure Snapshot where
  state : State
  hostIterateByTag : String → List Host

/-- What a controller can do: visit a map, and the two calls of its controls. -/
inductive ControlOp where
  | order (count : ℕ)
  | create (hostID : String) (shardID : ℕ) (isNonVoting : Bool)
  | delete (replicaID : ℕ)
deriving DecidableEq

abbrev ControlRes : ControlOp → Type
  | .order count => Program.Order count
  | .create .. => Except String ℕ
  | .delete _ => Except String Unit

/-- A controller's run, which ends with an error or without one. -/
abbrev Reconciliation : Type → Type := Program ControlOp ControlRes

abbrev Controller : Type := Snapshot → Shard → Reconciliation (Option String)

/-- The entries of a map in the order a range loop visits them. -/
def rangeOver {κ β : Type} [Ord κ] [TransOrd κ] (entries : ExtTreeMap κ β) :
    Reconciliation (List (κ × β)) :=
  Program.visit (fun count => Program.perform (ControlOp.order count)) entries

section Tags

/-- The rest of a text after a given start. -/
def after? (start text : String) : Option String :=
  if start.toList.isPrefixOf text.toList then
    some (String.ofList (text.toList.drop start.toList.length))
  else none

/-- Cut a list of characters at every separator. -/
def splitChars (separator : Char) : List Char → List (List Char)
  | [] => [[]]
  | char :: rest =>
    if char = separator then [] :: splitChars separator rest
    else match splitChars separator rest with
      | [] => [[char]]
      | part :: parts => (char :: part) :: parts

/-- Split a text at every separator; there is always a first part. -/
def split (separator : Char) (text : String) : List String :=
  (splitChars separator text.toList).map String.ofList

/-- A decimal number with an optional sign, within 64 bits. -/
def atoi (text : String) : Option ℤ :=
  let (negative, digits) : Bool × List Char := match text.toList with
    | '-' :: digits => (true, digits)
    | '+' :: digits => (false, digits)
    | digits => (false, digits)
  if digits = [] ∨ ¬ digits.all Char.isDigit then none
  else
    let magnitude : ℤ := digits.foldl (fun (value : ℤ) digit => value * 10 + (digit.toNat - '0'.toNat)) 0
    let value := if negative then -magnitude else magnitude
    if -2 ^ 63 ≤ value ∧ value < 2 ^ 63 then some value else none

/-- A tag without a value, or without a key, is a key as a whole. -/
def parseTag (tag : String) : String × String :=
  if (tag.toList.idxOf '=') < 1 then (tag, "") else splitTag tag

def matchTagFilter (src : Tags) (tags : List String) : Bool :=
  tags.all fun tag =>
    tag = "" || (src.bind (·[(parseTag tag).1]?)) = some (parseTag tag).2

end Tags

section Reconcile

/-- A Go map from names to counts, whose missing entries read as zero. -/
abbrev Counts : Type := ExtTreeMap String ℤ

def Counts.add (counts : Counts) (name : String) (amount : ℤ) : Counts :=
  counts.insert name (counts.getD name 0 + amount)

/-- Add to one count of one group. -/
def addTo (counts : ExtTreeMap String Counts) (group name : String) (amount : ℤ) :
    ExtTreeMap String Counts :=
  counts.insert group ((counts.getD group ∅).add name amount)

/-- What the tags of a shard ask for. -/
structure Demand where
  desired : Counts := ∅
  filters : ExtTreeMap String (List String) := ∅
  vary : ExtTreeMap String Bool := ∅

/-- A group's size and the tags its hosts must have. A size that is no number is skipped. -/
def Demand.group (demand : Demand) (name value : String) : Demand :=
  match split ';' value with
  | [] => demand
  | size :: filter =>
    match atoi size with
    | none => demand
    | some count => { demand with
        desired := demand.desired.insert name count
        filters := demand.filters.insert name filter }

/-- One tag of a cover group adds the hosts the tag index returns for it. -/
def Demand.cover (demand : Demand) (hostIterateByTag : String → List Host) (tag : String) : Demand :=
  let (key, value) := parseTag tag
  let covered (host : Host) : Bool :=
    value = "" || (host.tags.bind (·[key]?)).getD "" = value
  { demand with
    desired := (hostIterateByTag key).foldl
      (fun desired host => if covered host then Counts.add desired "cover" 1 else desired) demand.desired
    filters := demand.filters.insert "cover" (demand.filters.getD "cover" [] ++ [tag]) }

def Demand.addTag (demand : Demand) (hostIterateByTag : String → List Host) (tagKey tagValue : String) :
    Demand :=
  match after? "placement:" tagKey with
  | none => demand
  | some tagKey =>
    if tagKey = "vary" then { demand with vary := demand.vary.insert tagValue true }
    else if tagKey = "member" then demand.group "member" tagValue
    else match after? "replica:" tagKey with
      | some group => if group = "" ∨ group = "member" then demand else demand.group group tagValue
      | none =>
        if tagKey = "cover" then
          (split ';' tagValue).foldl (fun demand tag => demand.cover hostIterateByTag tag) demand
        else demand

/-- Resolve desired state from shard tags. -/
def resolveDesired (snapshot : Snapshot) (shard : Shard) : Reconciliation Demand := do
  let tags ← rangeOver (shard.tags.getD ∅)
  return tags.foldl (fun demand (tagKey, tagValue) =>
    demand.addTag snapshot.hostIterateByTag tagKey tagValue) {}

/-- The replicas of the shard, counted by the groups they match. -/
structure Tally where
  found : Counts := ∅
  occupiedHosts : ExtTreeMap String Bool := ∅
  undesired : List ℕ := []
  varyCount : ExtTreeMap String Counts := ∅

/-- The record of a host, or the zero record. -/
def State.hostOrZero (state : State) (id : String) : Host :=
  match state.host id with
  | .ok (some host) => host
  | _ => {}

/-- Match one replica's host against every group. A host without one of the vary tags matches no
group, but the vary tags visited before are counted. -/
def tallyReplica (state : State) (demand : Demand) (tally : Tally) (replica : Replica) :
    Reconciliation Tally := do
  let host := state.hostOrZero replica.hostID
  let mut found := tally.found
  let mut varyCount := tally.varyCount
  let mut groups : List String := []
  for (group, _) in ← rangeOver demand.desired do
    if matchTagFilter host.tags (demand.filters.getD group []) then
      let mut varies := true
      for (tag, _) in ← rangeOver demand.vary do
        varyCount := varyCount.insert group (varyCount.getD group ∅)
        match host.tags.bind (·[tag]?) with
        | none =>
          varies := false
          break
        | some value => varyCount := addTo varyCount group (tag ++ "=" ++ value) 1
      if varies then
        groups := groups ++ [group]
        found := found.add group 1
  if groups = [] then
    return { tally with found, varyCount, undesired := tally.undesired ++ [replica.id] }
  else
    return { tally with found, varyCount, occupiedHosts := tally.occupiedHosts.insert replica.hostID true }

/-- The groups to process, the member group first, with the replicas each has too many or misses. -/
structure Plan where
  groups : List String := []
  excess : Counts := ∅
  missing : Counts := ∅

def planGroups (demand : Demand) (tally : Tally) : Reconciliation Plan := do
  let mut plan : Plan := {}
  for (group, count) in ← rangeOver demand.desired do
    let found := tally.found.getD group 0
    if found > count then
      plan := { plan with excess := plan.excess.insert group (found - count) }
    if found < count then
      plan := { plan with missing := plan.missing.insert group (count - found) }
    if group = "member" then
      plan := { plan with groups := group :: plan.groups }
    else
      plan := { plan with groups := plan.groups ++ [group] }
  return plan

/-- Some group's replicas are spread unevenly over the values of its vary tags. -/
def requiresRebalance (tally : Tally) : Reconciliation Bool := do
  let mut required := false
  for (_, tags) in ← rangeOver tally.varyCount do
    let mut min : ℤ := 0
    let mut max : ℤ := 0
    for (_, count) in ← rangeOver tags do
      if min = 0 || count < min then
        min := count
      if max = 0 || count > max then
        max := count
      if min - max < -1 || min - max > 1 then
        required := true
  return required

/-- The hosts each group can still be placed on. -/
structure Candidates where
  matches_ : ExtTreeMap String (List Host) := ∅
  varyMatch : ExtTreeMap String Counts := ∅

/-- Find matching hosts for each group. -/
def findMatches (state : State) (demand : Demand) (tally : Tally) : Reconciliation Candidates := do
  let mut candidates : Candidates := {}
  for host in state.hostIterate do
    if tally.occupiedHosts.contains host.id then
      continue
    for (group, count) in ← rangeOver demand.desired do
      if tally.found.getD group 0 = count then
        continue
      if matchTagFilter host.tags (demand.filters.getD group []) then
        candidates := { candidates with
          matches_ := candidates.matches_.insert group (candidates.matches_.getD group [] ++ [host]) }
        for (tag, _) in ← rangeOver demand.vary do
          let value := (host.tags.bind (·[tag]?)).getD ""
          candidates := { candidates with
            varyMatch := addTo candidates.varyMatch group (tag ++ "=" ++ value) 1 }
  return candidates

/-- What changes while missing replicas are added. -/
structure Placing where
  matches_ : ExtTreeMap String (List Host)
  varyMatch : ExtTreeMap String Counts
  varyCount : ExtTreeMap String Counts
  occupiedHosts : ExtTreeMap String Bool

/-- The vary tag values a new replica of a group must have, or `none` when there are too few. A
member group gives up on a tag as soon as a value already has a member, and goes on without it. -/
def chooseVaryTags (placing : Placing) (group : String) : Reconciliation (Option (List String)) := do
  let counts := placing.varyCount.getD group ∅
  let mut varyTagValues : ExtTreeMap String String := ∅
  let mut varyTagCounts : Counts := ∅
  for (tag, replicaCount) in ← rangeOver counts do
    if (placing.varyMatch.getD group ∅).getD tag 0 = 0 then
      continue
    let (key, value) := parseTag tag
    if varyTagCounts.getD key 0 = 0 || varyTagCounts.getD key 0 < replicaCount then
      varyTagValues := varyTagValues.insert key value
      varyTagCounts := varyTagCounts.insert key replicaCount
  if varyTagValues.size < counts.size then
    return none
  let mut varyTags : List String := []
  for (tagKey, replicaCount) in ← rangeOver varyTagCounts do
    if replicaCount > 0 && group = "member" then
      break
    varyTags := varyTags ++ [tagKey ++ "=" ++ varyTagValues.getD tagKey ""]
  return some varyTags

/-- Create one replica on the first free matching host. `none` means there was none, and an error is
that of the controls. -/
def placeReplica (shard : Shard) (placing : Placing) (group : String) (varyTags : List String) :
    Reconciliation (Except String (Option Placing)) := do
  let hosts := placing.matches_.getD group []
  for (host, position) in hosts.zipIdx do
    if placing.occupiedHosts.contains host.id then
      continue
    if varyTags = [] || matchTagFilter host.tags varyTags then
      match ← Program.perform (ControlOp.create host.id shard.id (group != "member")) with
      | .error err => return .error err
      | .ok _ =>
        return .ok (some {
          matches_ := placing.matches_.insert group (hosts.eraseIdx position)
          varyMatch := varyTags.foldl
            (fun counts varyTag => addTo counts group (parseTag varyTag).1 (-1)) placing.varyMatch
          varyCount := varyTags.foldl
            (fun counts varyTag => addTo counts group varyTag 1) placing.varyCount
          occupiedHosts := placing.occupiedHosts.insert host.id true })
  return .ok none

/-- Add missing replicas. A group that runs out of hosts or of vary values is left as it is: its
error is only logged. -/
def addMissing (shard : Shard) (plan : Plan) (start : Placing) : Reconciliation (Option String) := do
  let mut placing := start
  for group in plan.groups do
    for _ in List.range (plan.missing.getD group 0).toNat do
      if placing.matches_.getD group [] = [] then
        break
      match ← chooseVaryTags placing group with
      | none => break
      | some varyTags =>
        match ← placeReplica shard placing group varyTags with
        | .error err => return some err
        | .ok none => break
        | .ok (some next) => placing := next
  return none

/-- Reconcile one shard. An undesired replica is deleted alone; replicas are only added when there
is none, and replicas in excess stay. -/
def reconcile : Controller := fun snapshot shard => do
  let demand ← resolveDesired snapshot shard
  let tally ← (snapshot.state.replicaIterateByShardID shard.id).foldlM
    (tallyReplica snapshot.state demand) {}
  let plan ← planGroups demand tally
  let rebalance ← requiresRebalance tally
  if plan.missing.isEmpty && plan.excess.isEmpty && !rebalance && tally.undesired.isEmpty then
    return none
  match tally.undesired with
  | replicaID :: _ =>
    match ← Program.perform (ControlOp.delete replicaID) with
    | .error err => return some err
    | .ok _ => return none
  | [] =>
    let candidates ← findMatches snapshot.state demand tally
    addMissing shard plan {
      matches_ := candidates.matches_
      varyMatch := candidates.varyMatch
      varyCount := tally.varyCount
      occupiedHosts := tally.occupiedHosts }

end Reconcile

end Zongzi
