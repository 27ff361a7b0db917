import Zongzi.Model.ShardController

/-! # The name of a cluster

A cluster has a name of base 36 digits. `NewAgent` rejects every other text and takes the value of the name for the
deployment that keeps the cluster apart from others.
-/

namespace Zongzi

section Base36

/-- What `strconv` answers to a text that is no number of 64 bits. -/
inductive NumError where
  | malformed
  | tooLarge
deriving DecidableEq

/-- The value of a digit, in either case. -/
def digitValue (char : Char) : Option ℕ :=
  if char.isDigit then some (char.toNat - '0'.toNat)
  else if char.isLower then some (char.toNat - 'a'.toNat + 10)
  else if char.isUpper then some (char.toNat - 'A'.toNat + 10)
  else none

def digitChar (digit : ℕ) : Char :=
  if digit < 10 then Char.ofNat ('0'.toNat + digit) else Char.ofNat ('a'.toNat + (digit - 10))

/-- Read one more digit of a number of 64 bits. -/
def parseDigit (value : ℕ) (char : Char) : Except NumError ℕ :=
  match digitValue char with
  | none => .error .malformed
  | some digit => if value * 36 + digit < 2 ^ 64 then .ok (value * 36 + digit) else .error .tooLarge

/-- `strconv.ParseUint` in base 36. -/
def base36Decode (name : String) : Except NumError ℕ :=
  if name = "" then .error .malformed else name.toList.foldlM parseDigit 0

/-- A text that is no number is a panic. -/
def mustBase36Decode (name : String) : Except NumError ℕ := base36Decode name

/-- `strconv.FormatUint` in base 36. -/
def base36Encode (id : ℕ) : String :=
  if id = 0 then "0" else String.ofList ((Nat.digits 36 id).reverse.map digitChar)

end Base36

section Agent

def ErrClusterNameInvalid : String := "Invalid cluster name (base36 maxlen 12)"

/-- One to twelve lowercase letters and digits. -/
def ClusterNameRegex (name : String) : Bool :=
  1 ≤ name.toList.length && name.toList.length ≤ 12 && name.toList.all fun char => char.isLower || char.isDigit

/-- The part of an agent that its name and its peers decide. -/
structure AgentConfig where
  clusterName : String
  peers : List String
  deploymentID : ℕ

/-- A peer without a port has the port of the advertised address. -/
def withPort (advertiseAddress addr : String) : String :=
  match split ':' advertiseAddress with
  | _ :: port :: _ => if addr.toList.contains ':' then addr else addr ++ ":" ++ port
  | _ => addr

/-- An agent or the error of `NewAgent`. Its panic is an error of `strconv`. -/
def newAgent (clusterName : String) (peers : List String) (advertiseAddress : String) :
    Except NumError (Except String AgentConfig) :=
  if ClusterNameRegex clusterName then do
    let deploymentID ← mustBase36Decode clusterName
    return .ok {
      clusterName
      peers := (peers.mergeSort fun one other => one ≤ other).map (withPort advertiseAddress)
      deploymentID }
  else return .error (ErrClusterNameInvalid ++ ": (" ++ clusterName ++ ")")

end Agent

end Zongzi
