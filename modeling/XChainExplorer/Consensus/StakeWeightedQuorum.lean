import XChainExplorer.Lib.JsNumber
import Mathlib.Data.List.AList
import Mathlib.Data.List.Dedup

/-! # Quorums

    The activation heights of the flag days a quorum is judged by, and the two quorum predicates: a
    count of signers, and from the flag day on the stake of their sources. Weights are decimal texts,
    and their sums are exact. -/

namespace Consensus

open JsNumber

/-! ### Flag days -/

inductive Network where
  | mainnet
  | testnet
  | regtest
  deriving DecidableEq

def RETRACTION_SIGNING_ACTIVATION : Network → ℕ
  | .mainnet => 963000
  | .testnet | .regtest => 0

def STAKE_WEIGHTED_QUORUM_ACTIVATION : Network → ℕ
  | .mainnet => 961000
  | .testnet | .regtest => 0

/-- A gate is active from its height on, and never on a network that is not wired. -/
def activeAt (table : Network → ℕ) (network : Option Network) (height : ℚ) : Bool :=
  network.any fun n => (table n : ℚ) ≤ height

/-! ### Stake -/

/-- One row of a capability snapshot, as the quorum reads it. A field that is missing is `none`. -/
structure Validator where
  pubkey : String
  source : Option String
  weight : Option String
  deriving DecidableEq

/-- The rows of a snapshot, and whether the query that read them stopped at its cap. -/
structure Snapshot where
  validators : List Validator
  truncated : Bool := false

/-- Digits with at most one point among them or behind them. -/
def unsignedWeight (cs : List Char) : Option ℚ :=
  let whole := cs.takeWhile Char.isDigit
  match cs.dropWhile Char.isDigit with
  | [] => if whole = [] then none else some (Nat.ofDigitChars 10 whole 0)
  | '.' :: ds =>
    if ds.all Char.isDigit ∧ ¬ (whole = [] ∧ ds = []) then
      some (Nat.ofDigitChars 10 (whole ++ ds) 0 / 10 ^ ds.length)
    else none
  | _ => none

/-- The exact value of a weight, `none` where the text is not a decimal number. -/
def bcnum (weight : String) : Option ℚ :=
  match trim weight.toList with
  | '+' :: ds => unsignedWeight ds
  | '-' :: ds => (unsignedWeight ds).map fun q => -q
  | ds => unsignedWeight ds

/-- The weight of each source and the source of each public key. -/
structure StakeIndex where
  weightBySource : AList fun _ : String => ℚ
  pubkeyToSource : AList fun _ : String => String

/-- The source of a row, unless it is missing or blank. -/
def Validator.namedSource (v : Validator) : Option String :=
  v.source.filter fun src => trim src.toList ≠ []

/-- One more row among the weights. The first weight of a source stands, and one that is no number
    refuses the whole snapshot, as a blank source does. -/
def indexWeight (weightBySource : AList fun _ : String => ℚ) (v : Validator) :
    Option (AList fun _ : String => ℚ) :=
  v.namedSource.bind fun src =>
    if src ∈ weightBySource then some weightBySource
    else (v.weight.bind bcnum).map fun w => weightBySource.insert src w

/-- One validator into the index: its weight, and its source, which is the last one of its key. -/
def indexValidator (index : StakeIndex) (v : Validator) : Option StakeIndex :=
  (indexWeight index.weightBySource v).bind fun weightBySource =>
    v.namedSource.map fun src =>
      { weightBySource, pubkeyToSource := index.pubkeyToSource.insert v.pubkey.toLower src }

def indexStakeSources (validators : List Validator) : Option StakeIndex :=
  validators.foldlM indexValidator ⟨∅, ∅⟩

/-- The total stake, `none` where a weight is negative or nothing is staked. -/
def sumStakeWeights (weightBySource : AList fun _ : String => ℚ) : Option ℚ :=
  let weights := weightBySource.entries.map (·.2)
  if weights.any (· < 0) ∨ weights.sum ≤ 0 then none else some weights.sum

/-- The stake of the distinct sources the signers sign for. -/
def sumSignerStake (index : StakeIndex) (signerPubkeys : List String) : ℚ :=
  let sources := (signerPubkeys.filterMap fun pk => index.pubkeyToSource.lookup pk.toLower).dedup
  (sources.map fun src => (index.weightBySource.lookup src).getD 0).sum

/-- More than two thirds of the stake of the snapshot has signed. -/
def meetsStakeThreshold (snapshot : Snapshot) (signerPubkeys : List String) : Bool :=
  if snapshot.truncated then false
  else match indexStakeSources snapshot.validators with
    | none => false
    | some index => match sumStakeWeights index.weightBySource with
      | none => false
      | some total => total * 2 < sumSignerStake index signerPubkeys * 3

/-- The stake of the distinct sources, `none` where the snapshot cannot be summed. -/
def totalStake (snapshot : Snapshot) : Option ℚ :=
  if snapshot.truncated then none
  else (snapshot.validators.foldlM indexWeight ∅).bind fun weightBySource =>
    let weights := weightBySource.entries.map (·.2)
    if weights.any (· < 0) then none else some weights.sum

/-- The count a quorum of `n` validators needs below the flag day. -/
def countQuorum (n : ℕ) : ℕ := if n ≤ 1 then 1 else max (2 * ((n - 1) / 3) + 1) ((n + 2) / 2)

/-- Whichever of the two predicates is in force for a snapshot. -/
def meetsQuorum (network : Option Network) (snapshotBlock : ℚ) (validators : List Validator)
    (signerPubkeys : List String) : Bool :=
  if activeAt STAKE_WEIGHTED_QUORUM_ACTIVATION network snapshotBlock then
    meetsStakeThreshold { validators } signerPubkeys
  else countQuorum validators.length ≤ signerPubkeys.length

end Consensus
