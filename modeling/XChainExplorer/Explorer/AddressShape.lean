import XChainExplorer.Lib.Hex
import XChainExplorer.Lib.Sha256
import XChainExplorer.Lib.ShiftRegister

/-! # The shape of an address

    `canonicalCoinAddress` answers whether a text is an address of one coin and network, and with which
    spelling. A text is the list of its UTF-16 units, as the source indexes it. -/

namespace AddressShape

/-- A string of bytes. -/
abbrev Bytes := List UInt8

/-- A text of JavaScript: UTF-16 code units. -/
abbrev JsString := List UInt16

/-- The code unit of a character. -/
def unit (c : Char) : UInt16 := c.toNat.toUInt16

/-- The code units of a text. -/
def units (s : String) : JsString := s.toList.map unit

/-! ### Letter case -/

/-- U+212A, the one unit past ASCII whose lower case is a letter of ASCII. It is its own upper case. -/
def kelvinSign : UInt16 := 0x212a

/-- A unit that a case map takes to or from ASCII. -/
def Plain (u : UInt16) : Prop := u < 128 ∨ u = kelvinSign

instance : DecidablePred Plain := fun u => inferInstanceAs (Decidable (u < 128 ∨ u = kelvinSign))

/-- The lower case of such a unit. -/
def lowerUnit (u : UInt16) : UInt16 :=
  if unit 'A' ≤ u ∧ u ≤ unit 'Z' then u + 32 else if u = kelvinSign then unit 'k' else u

/-- The upper case of an ASCII unit. -/
def upperUnit (u : UInt16) : UInt16 := if unit 'a' ≤ u ∧ u ≤ unit 'z' then u - 32 else u

/-- The two case mappings of a text, as far as they decide an address. Past `Plain` a text may be mapped
    unit by unit or not; what matters is that it never comes out in ASCII alone. -/
structure CaseMap where
  toLowerCase : JsString → JsString
  toUpperCase : JsString → JsString
  lower_plain : ∀ s, (∀ u ∈ s, Plain u) → toLowerCase s = s.map lowerUnit
  upper_plain : ∀ s, (∀ u ∈ s, Plain u) → toUpperCase s = s.map upperUnit
  lower_other : ∀ s, (∃ u ∈ s, ¬ Plain u) → ∃ u ∈ toLowerCase s, 128 ≤ u

/-! ### Coins and networks -/

/-- The coins. -/
inductive Coin where
  | BTC | LTC | DOGE
  deriving DecidableEq

/-- The networks. -/
inductive Network where
  | mainnet | testnet | regtest
  deriving DecidableEq

/-- The code of a coin. -/
def Coin.tick : Coin → JsString
  | BTC => units "BTC"
  | LTC => units "LTC"
  | DOGE => units "DOGE"

/-- `Object.keys(config.COIN_NETWORKS)`. -/
def COIN_NETWORKS : List Coin := [.BTC, .LTC, .DOGE]

/-- `Object.keys(config.COIN_PREFIXES)`. -/
def COIN_PREFIXES : List Network := [.mainnet, .testnet, .regtest]

/-- What stands before it on a test network. -/
def Network.prefixes : Network → JsString
  | mainnet => []
  | testnet => units "T"
  | regtest => units "R"

/-- The version bytes of a coin's network and its human-readable part. -/
structure Params where
  p2pkh : UInt8
  p2sh : UInt8
  hrp : Option JsString
  deriving DecidableEq

/-- `getCoinConfig(tick, network).net`. -/
def coinNet : Coin → Network → Params
  | .BTC, .mainnet => ⟨0x00, 0x05, some (units "bc")⟩
  | .BTC, .testnet => ⟨0x6f, 0xc4, some (units "tb")⟩
  | .BTC, .regtest => ⟨0x6f, 0xc4, some (units "bcrt")⟩
  | .LTC, .mainnet => ⟨0x30, 0x32, some (units "ltc")⟩
  | .LTC, .testnet => ⟨0x6f, 0xc4, some (units "tltc")⟩
  | .LTC, .regtest => ⟨0x6f, 0xc4, some (units "rltc")⟩
  | .DOGE, .mainnet => ⟨0x1e, 0x16, none⟩
  | .DOGE, .testnet => ⟨0x71, 0xc4, none⟩
  | .DOGE, .regtest => ⟨0x6f, 0xc4, none⟩

/-- Every network with every coin, in the order of the two loops. -/
def coinCodes : List (Network × Coin) := COIN_PREFIXES.flatMap fun network => COIN_NETWORKS.map fun tick => (network, tick)

/-- The loops do not stop at a match, so the last one stays. -/
def addressParams (code : JsString) : Option Params :=
  coinCodes.foldl (fun params c => if c.1.prefixes ++ c.2.tick = code then some (coinNet c.2 c.1) else params) none

/-! ### Base58 -/

/-- The digits of base 58. -/
def BASE58_ALPHABET : JsString := units "123456789ABCDEFGHJKLMNPQRSTUVWXYZabcdefghijkmnopqrstuvwxyz"

/-- The place of every unit in an alphabet; nothing where one is not in it. -/
def indices (alphabet s : JsString) : Option (List ℕ) := s.mapM fun u => alphabet.idxOf? u

/-- A hex text of even length. -/
def padHex (hex : List Char) : List Char := if hex.length % 2 = 1 then '0' :: hex else hex

/-- The bytes of a base-58 text of plausible length, each leading `1` a zero byte. -/
def base58Decode (str : JsString) : Option Bytes :=
  if str.length < 26 ∨ 48 < str.length then none
  else match indices BASE58_ALPHABET str with
    | none => none
    | some values =>
      let num := values.foldl (fun num value => num * 58 + value) 0
      let bytes := if num ≠ 0 then Hex.decodeChars (padHex (Nat.toDigits 16 num)) else []
      let leading := (str.takeWhile (· = unit '1')).length
      some (List.replicate leading 0 ++ bytes)

/-- The last four bytes are the double hash of those before. -/
def base58ChecksumHolds (bytes : Bytes) : Bool :=
  let body := bytes.take (bytes.length - 4)
  let checksum := bytes.drop (bytes.length - 4)
  checksum = (Sha256.sha256 (Sha256.sha256 body)).take 4

/-! ### Bech32 -/

/-- The digits of bech32. -/
def BECH32_CHARSET : JsString := units "qpzry9x8gf2tvdw0s3jn54khce6mua7l"

/-- The generator of its checksum. -/
def BECH32_GEN : List ℕ := [0x3b6a57b2, 0x26508e6d, 0x1ea119fa, 0x3d4233dd, 0x2a1462b3]

/-- The generators of the bits set in `top` taken into `chk`. -/
def mixIn (top chk : ℕ) : ℕ :=
  (List.range 5).foldl (fun chk i => if (top >>> i) &&& 1 ≠ 0 then chk ^^^ BECH32_GEN.getD i 0 else chk) chk

/-- One value into the checksum. -/
def polymodStep (chk value : ℕ) : ℕ := mixIn (chk >>> 25) (((chk &&& 0x1ffffff) <<< 5) ^^^ value)

/-- The values that stand for the human-readable part. -/
def expandHrp (hrp : JsString) : List ℕ :=
  hrp.map (fun u => u.toNat >>> 5) ++ [0] ++ hrp.map (fun u => u.toNat &&& 31)

/-- The checksum of a part and its data. -/
def bech32Polymod (hrp : JsString) (data : List ℕ) : ℕ := (expandHrp hrp ++ data).foldl polymodStep 1

/-- The bech32 constant for version 0, the bech32m one for the others. -/
def bech32Const (version : ℕ) : ℕ := if version = 0 then 1 else 0x2bc830a3

/-- The checks of `bech32Decode` on the data words. Fewer than seven hold no program, whose length
    then comes out as 0 here and below 0 in the source. -/
def witnessHolds (hrp : JsString) (data : List ℕ) : Bool :=
  let version := data.headD 0
  let programBits := (data.length - 7) * 5
  let programLen := programBits / 8
  version ≤ 16 && bech32Polymod hrp data = bech32Const version &&
    !(5 ≤ programBits % 8 || programLen < 2 || 40 < programLen) &&
    !(version = 0 && programLen ≠ 20 && programLen ≠ 32)

/-- The last position of a unit. -/
def lastIndexOf (u : UInt16) (s : JsString) : Option ℕ := (s.reverse.idxOf? u).map fun i => s.length - 1 - i

/-- The human-readable part of a bech32 address that is well formed. -/
def bech32Decode (C : CaseMap) (address : JsString) : Option JsString :=
  if address ≠ C.toLowerCase address ∧ address ≠ C.toUpperCase address then none
  else
    let str := C.toLowerCase address
    if str.length < 8 ∨ 90 < str.length then none
    else match lastIndexOf (unit '1') str with
      | none => none
      | some pos =>
        if pos < 1 ∨ str.length < pos + 7 then none
        else match indices BECH32_CHARSET (str.drop (pos + 1)) with
          | none => none
          | some data => if witnessHolds (str.take pos) data then some (str.take pos) else none

/-! ### Words of an alphabet -/

/-- The units at the given places of an alphabet. -/
def spelled (alphabet : JsString) (places : List ℕ) : JsString := places.map fun d => alphabet.getD d 0

theorem idxOf?_iff {alphabet : JsString} (halphabet : alphabet.Nodup) {u : UInt16} {d : ℕ} :
    alphabet.idxOf? u = some d ↔ d < alphabet.length ∧ alphabet.getD d 0 = u := by
  rw [List.idxOf?_eq_some_iff]
  constructor
  · rintro ⟨hd, hu, -⟩
    exact ⟨hd, by rw [List.getD_eq_getElem _ _ hd, hu]⟩
  · rintro ⟨hd, hu⟩
    rw [List.getD_eq_getElem _ _ hd] at hu
    refine ⟨hd, hu, fun j hj h => ?_⟩
    rw [← hu] at h
    exact absurd (halphabet.getElem_inj_iff.mp h) (by omega)

/-- A text is read at the places it is spelled with. -/
theorem indices_eq_some_iff {alphabet : JsString} (halphabet : alphabet.Nodup) {s : JsString} {places : List ℕ} :
    indices alphabet s = some places ↔ (∀ d ∈ places, d < alphabet.length) ∧ s = spelled alphabet places := by
  induction s generalizing places with
  | nil => cases places <;> simp [indices, spelled]
  | cons u s ih =>
    have hcons : indices alphabet (u :: s) =
        (alphabet.idxOf? u).bind fun d => (indices alphabet s).bind fun ds => some (d :: ds) := by
      rw [indices, List.mapM_cons]
      rfl
    rw [hcons, Option.bind_eq_some_iff]
    constructor
    · rintro ⟨d, hd, h⟩
      obtain ⟨ds, hds, hplaces⟩ := Option.bind_eq_some_iff.mp h
      obtain ⟨hlt, hu⟩ := (idxOf?_iff halphabet).mp hd
      obtain ⟨hall, hs⟩ := ih.mp hds
      rw [← Option.some.inj hplaces]
      exact ⟨List.forall_mem_cons.mpr ⟨hlt, hall⟩, by rw [spelled, List.map_cons, hu, ← spelled, ← hs]⟩
    · rintro ⟨hall, hs⟩
      cases places with
      | nil => simp [spelled] at hs
      | cons d ds =>
        rw [spelled, List.map_cons, ← spelled, List.cons.injEq] at hs
        refine ⟨d, (idxOf?_iff halphabet).mpr ⟨hall d List.mem_cons_self, hs.1.symm⟩, ?_⟩
        rw [ih.mpr ⟨fun e he => hall e (List.mem_cons_of_mem d he), hs.2⟩]
        rfl

theorem length_spelled (alphabet : JsString) (places : List ℕ) : (spelled alphabet places).length = places.length :=
  List.length_map _

theorem spelled_inj {alphabet : JsString} (halphabet : alphabet.Nodup) {l m : List ℕ}
    (hl : ∀ d ∈ l, d < alphabet.length) (hm : ∀ d ∈ m, d < alphabet.length)
    (h : spelled alphabet l = spelled alphabet m) : l = m := by
  have hplaces := (indices_eq_some_iff halphabet).mpr ⟨hl, rfl⟩
  rw [h, (indices_eq_some_iff halphabet).mpr ⟨hm, rfl⟩] at hplaces
  exact (Option.some.inj hplaces).symm

/-! ### canonicalCoinAddress -/

/-- `[A-Z]`. -/
def isUpper (u : UInt16) : Bool := unit 'A' ≤ u && u ≤ unit 'Z'

/-- `[0-9]`. -/
def isDigit (u : UInt16) : Bool := unit '0' ≤ u && u ≤ unit '9'

/-- `0|[1-9][0-9]*`. -/
def canonicalDecimal (s : JsString) : Bool :=
  s = [unit '0'] || (s ≠ [] && s.head? ≠ some (unit '0') && s.all isDigit)

/-- `/^C:([A-Z]+):(0|[1-9][0-9]*)$/`: the two groups. -/
def contractMatch : JsString → Option (JsString × JsString)
  | c :: colon :: rest =>
    let chain := rest.takeWhile isUpper
    match rest.dropWhile isUpper with
    | colon' :: index =>
      if c = unit 'C' ∧ colon = unit ':' ∧ chain ≠ [] ∧ colon' = unit ':' ∧ canonicalDecimal index then
        some (chain, index)
      else none
    | [] => none
  | _ => none

/-- The number decimal digits stand for. -/
def decimalValue (s : JsString) : ℕ := Positional.value 10 (s.map fun u => u.toNat - (unit '0').toNat)

/-- What `canonicalCoinAddress` returns: `null`, `false` or a spelling. -/
inductive Verdict where
  | unknown
  | malformed
  | canonical (spelling : JsString)
  deriving DecidableEq

/-- `Number` keeps an index below `2 ^ 53` as it is and rounds a greater one to a number that is not
    a safe integer either. -/
def contractVerdict (str chain index : JsString) : Verdict :=
  if chain ∈ COIN_NETWORKS.map Coin.tick ∧ decimalValue index < 2 ^ 53 then .canonical str else .malformed

/-- An address in base 58, by its length, checksum and version. -/
def base58Verdict (params : Params) (str : JsString) : Verdict :=
  match base58Decode str with
  | none => .malformed
  | some bytes =>
    if bytes.length ≠ 25 ∨ base58ChecksumHolds bytes = false then .malformed
    else if bytes.head? = some params.p2pkh ∨ bytes.head? = some params.p2sh then .canonical str else .malformed

/-- A contract, else bech32, else base 58. -/
def addressVerdict (C : CaseMap) (params : Params) (str : JsString) : Verdict :=
  match contractMatch str with
  | some (chain, index) => contractVerdict str chain index
  | none => match bech32Decode C str with
    | some hrp => if params.hrp = some hrp then .canonical (C.toLowerCase str) else .malformed
    | none => base58Verdict params str

/-- The canonical spelling of an address on a coin. -/
def canonicalCoinAddress (C : CaseMap) (code address : JsString) : Verdict :=
  match addressParams (C.toUpperCase code) with
  | none => .unknown
  | some params => addressVerdict C params address

end AddressShape
