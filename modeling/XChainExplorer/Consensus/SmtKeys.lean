import XChainExplorer.Consensus.BlockLeaves
import XChainExplorer.Lib.JsNumber

/-! # Keys and amounts of the state trees

    A key is the hash of joined fields behind the tag of its domain. An amount is hashed as a text of
    18 fractional digits, and amounts are summed as integers of that scale. -/

namespace Merkle

/-! ### Keys -/

/-- The key of some fields under a domain. -/
def smtKey (domainTag : String) (fields : List String) : Except String Bytes32 :=
  (joinFields (domainTag :: fields)).map fun joined => ⟨Sha256.sha256 joined, Sha256.length_sha256 joined⟩

/-- The key of a balance. -/
def balanceKey (chain network address tick : String) : Except String Bytes32 :=
  smtKey "XCHAIN_BAL" [chain, network, address, tick]

/-- The key of a locked balance. -/
def escrowKey (chain network address tick : String) : Except String Bytes32 :=
  smtKey "XCHAIN_ESC" [chain, network, address, tick]

/-- The key of a stake. -/
def stakeKey (pubkey capability : String) : Except String Bytes32 :=
  smtKey "XCHAIN_STK" [pubkey, capability]

/-- The key of a value in a contract's state. -/
def contractStateKey (chain network contractIndex stateKey : String) : Except String Bytes32 :=
  smtKey "XCHAIN_CST" [chain, network, contractIndex, stateKey]

/-- What stands for a key where the total is asked. -/
def STAKE_TOTAL_PUBKEY : String := "__total__"

/-! ### Amounts -/

/-- The digits before and behind the point, where the text is one of an amount. -/
def amountParts (s : List Char) : Option (List Char × List Char) :=
  let intPart := s.takeWhile Char.isDigit
  if intPart = [] then none
  else
    match s.dropWhile Char.isDigit with
    | [] => some (intPart, [])
    | '.' :: fracPart =>
      if fracPart.all Char.isDigit ∧ 1 ≤ fracPart.length ∧ fracPart.length ≤ 18 then some (intPart, fracPart)
      else none
    | _ => none

/-- Leading zeros are taken off, but for the last digit. -/
def stripZeros (digits : List Char) : List Char :=
  if digits.dropWhile (· = '0') = [] then digits.drop (digits.length - 1) else digits.dropWhile (· = '0')

/-- The amount's digits on both sides of its point. An `input` that is no text is `none`. -/
def canonicalParts (input : Option String) : Except String (List Char × List Char) :=
  match input with
  | none => .error "merkle: amount must be a string, got object"
  | some text =>
    match amountParts (JsNumber.trim text.toList) with
    | none => .error ("merkle: non-canonical amount \"" ++ text ++ "\"")
    | some (intPart, fracPart) => .ok (stripZeros intPart, (fracPart ++ List.replicate 18 '0').take 18)

/-- An amount as it is hashed: eighteen places. -/
def canonicalAmount (input : Option String) : Except String String :=
  (canonicalParts input).map fun parts => String.ofList (parts.1 ++ '.' :: parts.2)

/-- The sum of amounts, in the text of one. -/
def sumCanonicalAmounts (amounts : List String) : Except String String := do
  let parts ← amounts.mapM fun a => canonicalParts (some a)
  let acc := (parts.map fun p =>
    Nat.ofDigitChars 10 p.1 0 * 1000000000000000000 + Nat.ofDigitChars 10 p.2 0).sum
  let s := Nat.toDigits 10 acc
  let frac := if s.length > 18 then s.drop (s.length - 18) else List.replicate (18 - s.length) '0' ++ s
  let intp := if s.length > 18 then s.take (s.length - 18) else ['0']
  return String.ofList (stripZeros intp ++ '.' :: frac)

example : sumCanonicalAmounts ["001.5", "2", "0.000000000000000001"] = .ok "3.500000000000000001" := by
  decide +kernel

end Merkle
