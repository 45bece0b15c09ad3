import XChainExplorer.Explorer.Base58Spelling
import XChainExplorer.Explorer.Bech32Spelling
import XChainExplorer.Explorer.CustodySpelling

/-! # One spelling for one script

    What an address of a network is by the standards, which output script a text pays, and where
    `canonicalCoinAddress` accepts just the addresses, with one spelling for each script. -/

namespace AddressShape
open Positional

/-! ### Witness programs -/

/-- The bits of a program in groups of five, the last one filled up with zeros. -/
def toWords (program : Bytes) : List ℕ :=
  let n := (8 * program.length + 4) / 5
  fixed 32 n (value 256 (program.map UInt8.toNat) * 2 ^ (5 * n - 8 * program.length))

/-- The whole bytes in the bits of data words. -/
def programOf (words : List ℕ) : Bytes :=
  (fixed 256 (5 * words.length / 8) (value 32 words / 2 ^ (5 * words.length % 8))).map UInt8.ofNat

/-- The bits of data words behind their last whole byte. -/
def padding (words : List ℕ) : ℕ := value 32 words % 2 ^ (5 * words.length % 8)

@[simp] theorem length_programOf (words : List ℕ) : (programOf words).length = 5 * words.length / 8 := by
  rw [programOf, List.length_map, length_fixed]

theorem length_toWords (program : Bytes) : (toWords program).length = (8 * program.length + 4) / 5 :=
  length_fixed _ _

theorem toWords_lt (program : Bytes) : ∀ d ∈ toWords program, d < 32 := fixed_lt (by norm_num) _ _

/-- The number of the program that words carry. -/
theorem value_programOf {words : List ℕ} (hwords : ∀ d ∈ words, d < 32) :
    value 256 ((programOf words).map UInt8.toNat) = value 32 words / 2 ^ (5 * words.length % 8) := by
  rw [programOf, map_toNat_ofNat (fixed_lt (by norm_num) _ _), value_fixed]
  have hlt : value 32 words < 2 ^ (5 * words.length) := by
    rw [pow_mul]
    exact value_lt hwords
  rw [Nat.div_lt_iff_lt_mul (by positivity)]
  calc value 32 words < 2 ^ (5 * words.length) := hlt
    _ = 2 ^ (8 * (5 * words.length / 8) + 5 * words.length % 8) := by rw [Nat.div_add_mod]
    _ = 256 ^ (5 * words.length / 8) * 2 ^ (5 * words.length % 8) := by rw [pow_add, pow_mul]; norm_num

/-- Words are their program and their padding. -/
theorem value_words {words : List ℕ} (hwords : ∀ d ∈ words, d < 32) :
    value 32 words = value 256 ((programOf words).map UInt8.toNat) * 2 ^ (5 * words.length % 8) + padding words := by
  rw [value_programOf hwords, padding, Nat.div_add_mod']

theorem words_inj {version : ℕ} {l m : List ℕ} (hl : ∀ d ∈ l, d < 32) (hm : ∀ d ∈ m, d < 32)
    (hfl : Fits version l.length) (hfm : Fits version m.length) (hprogram : programOf l = programOf m)
    (hpadding : padding l = padding m) : l = m := by
  have hlen : l.length = m.length := by
    have h := congrArg List.length hprogram
    rw [length_programOf, length_programOf] at h
    have hpl := hfl.padding
    have hpm := hfm.padding
    omega
  refine value_inj hl hm hlen ?_
  rw [value_words hl, value_words hm, hprogram, hpadding, hlen]

theorem toWords_bits (program : Bytes) :
    5 * (toWords program).length / 8 = program.length ∧
      5 * (toWords program).length % 8 = 5 * (toWords program).length - 8 * program.length ∧
      5 * (toWords program).length % 8 < 5 := by
  have hlow : 8 * program.length ≤ 5 * (toWords program).length := by rw [length_toWords]; omega
  have hhigh : 5 * (toWords program).length ≤ 8 * program.length + 4 := by rw [length_toWords]; omega
  generalize 5 * (toWords program).length = bits at hlow hhigh ⊢
  omega

theorem value_toWords (program : Bytes) :
    value 32 (toWords program) =
      value 256 (program.map UInt8.toNat) * 2 ^ (5 * (toWords program).length % 8) := by
  obtain ⟨-, hmod, -⟩ := toWords_bits program
  rw [hmod, length_toWords, toWords]
  refine value_fixed ?_
  have hlt := value_lt (toNat_lt program)
  rw [List.length_map] at hlt
  have hpow : 256 ^ program.length * 2 ^ (5 * ((8 * program.length + 4) / 5) - 8 * program.length) =
      32 ^ ((8 * program.length + 4) / 5) := by
    rw [show (256 : ℕ) = 2 ^ 8 by norm_num, show (32 : ℕ) = 2 ^ 5 by norm_num, ← pow_mul, ← pow_mul, ← pow_add]
    congr 1
    omega
  calc value 256 (program.map UInt8.toNat) * 2 ^ (5 * ((8 * program.length + 4) / 5) - 8 * program.length)
      < 256 ^ program.length * 2 ^ (5 * ((8 * program.length + 4) / 5) - 8 * program.length) :=
        Nat.mul_lt_mul_of_pos_right hlt (by positivity)
    _ = 32 ^ ((8 * program.length + 4) / 5) := hpow

theorem padding_toWords (program : Bytes) : padding (toWords program) = 0 := by
  rw [padding, value_toWords, Nat.mul_mod_left]

theorem programOf_toWords (program : Bytes) : programOf (toWords program) = program := by
  obtain ⟨hdiv, -, -⟩ := toWords_bits program
  have hbytes : fixed 256 program.length (value 256 (program.map UInt8.toNat)) = program.map UInt8.toNat := by
    have h := fixed_value (toNat_lt program)
    rwa [List.length_map] at h
  rw [programOf, value_toWords, Nat.mul_div_cancel _ (by positivity), hdiv, hbytes, map_ofNat_toNat]

/-- Words without padding bits set are those of the program they carry. -/
theorem eq_toWords {version : ℕ} {words : List ℕ} (hwords : ∀ d ∈ words, d < 32) (hfits : Fits version words.length)
    (hpadding : padding words = 0) : words = toWords (programOf words) := by
  have hlen : (toWords (programOf words)).length = words.length := by
    rw [length_toWords, length_programOf]
    have := hfits.padding
    omega
  refine words_inj hwords (toWords_lt _) hfits (hlen ▸ hfits) ?_ ?_
  · rw [programOf_toWords]
  · rw [hpadding, padding_toWords]

/-! ### Addresses by the standards -/

structure IsWitness (version : ℕ) (program : Bytes) : Prop where
  version_le : version ≤ 16
  two_le : 2 ≤ program.length
  le_forty : program.length ≤ 40
  zero : version = 0 → program.length = 20 ∨ program.length = 32

def segwit (hrp : JsString) (version : ℕ) (program : Bytes) : JsString := bech32 hrp version (toWords program)

/-- A segwit address of the network, in lower or in upper case. -/
def IsSegwit (params : Params) (s : JsString) : Prop :=
  ∃ hrp version program, params.hrp = some hrp ∧ IsWitness version program ∧
    (s = segwit hrp version program ∨ s = (segwit hrp version program).map upperUnit)

def Valid (params : Params) (s : JsString) : Prop := IsCustody s ∨ IsBase58Check params s ∨ IsSegwit params s

def witnessScript (version : ℕ) (program : Bytes) : Bytes :=
  UInt8.ofNat (if version = 0 then 0 else 0x50 + version) :: UInt8.ofNat program.length :: program

/-- The output script a text pays: that of the hash it spells, or of the witness program that its data
    words carry, whatever bits are left over. -/
inductive Pays (C : CaseMap) (params : Params) (s : JsString) : Bytes → Prop
  | pubKeyHash {hash : Bytes} : hash.length = 20 → s = base58check params.p2pkh hash →
      Pays C params s (0x76 :: 0xa9 :: 0x14 :: hash ++ [0x88, 0xac])
  | scriptHash {hash : Bytes} : hash.length = 20 → s = base58check params.p2sh hash →
      Pays C params s (0xa9 :: 0x14 :: hash ++ [0x87])
  | witness {hrp : JsString} {version : ℕ} {words : List ℕ} : params.hrp = some hrp → Reads C s hrp version words →
      Pays C params s (witnessScript version (programOf words))

/-! ### Letter case -/

/-- A unit of ASCII that is not a capital letter. -/
def Lowered (u : UInt16) : Prop := u < 128 ∧ ¬ (unit 'A' ≤ u ∧ u ≤ unit 'Z')

instance : DecidablePred Lowered := fun _ => inferInstanceAs (Decidable (_ ∧ _))

theorem Lowered.lower {u : UInt16} (hu : Lowered u) : lowerUnit u = u :=
  forall_ascii (P := fun u => Lowered u → lowerUnit u = u) (by decide) hu.1 hu

theorem Lowered.upper {u : UInt16} (hu : Lowered u) :
    upperUnit u < 128 ∧ lowerUnit (upperUnit u) = u ∧ upperUnit (upperUnit u) = upperUnit u :=
  forall_ascii (P := fun u => Lowered u →
    upperUnit u < 128 ∧ lowerUnit (upperUnit u) = u ∧ upperUnit (upperUnit u) = upperUnit u) (by decide) hu.1 hu

theorem upper_lower {u : UInt16} (hu : u < 128) : upperUnit (lowerUnit u) = upperUnit u :=
  forall_ascii (P := fun u => upperUnit (lowerUnit u) = upperUnit u) (by decide) hu

theorem kelvin_not_ascii : ¬ kelvinSign < 128 := by decide

theorem lowered_charset {d : ℕ} (hd : d < 32) : Lowered (BECH32_CHARSET.getD d 0) := by
  have hall : ∀ d < 32, Lowered (BECH32_CHARSET.getD d 0) := by decide
  exact hall d hd

/-- What the human-readable parts of the networks are. -/
structure NetHrp (hrp : JsString) : Prop where
  ne_nil : hrp ≠ []
  length_le : hrp.length ≤ 4
  lowered : ∀ u ∈ hrp, Lowered u
  head_ne : hrp.head? ≠ some (unit 'c')

theorem netHrp_of_coinNet {coin : Coin} {network : Network} {hrp : JsString} (h : (coinNet coin network).hrp = some hrp) :
    NetHrp hrp := by
  cases coin <;> cases network <;> simp only [coinNet, Option.some.injEq, reduceCtorEq] at h <;> subst h <;>
    exact ⟨by decide, by decide, List.all_iff_forall_prop.mp (by decide), by decide⟩

/-- The params of a code are those of a network of a coin. -/
theorem exists_coinNet {code : JsString} {params : Params} (hcode : addressParams code = some params) :
    ∃ coin network, params = coinNet coin network := by
  have hfold : ∀ (l : List (Network × Coin)) (start : Option Params), l.foldl (fun params c =>
      if c.1.prefixes ++ c.2.tick = code then some (coinNet c.2 c.1) else params) start = some params →
      start = some params ∨ ∃ coin network, params = coinNet coin network := by
    intro l
    induction l with
    | nil => exact fun start hstart => .inl hstart
    | cons c l ih =>
      intro start hstart
      rcases ih _ hstart with hnext | hnext
      · dsimp only at hnext
        split_ifs at hnext
        · exact .inr ⟨c.2, c.1, (Option.some.inj hnext).symm⟩
        · exact .inl hnext
      · exact .inr hnext
  rcases hfold coinCodes none hcode with hnone | hparams
  · simp at hnone
  · exact hparams

theorem netHrp {code hrp : JsString} {params : Params} (hcode : addressParams code = some params)
    (h : params.hrp = some hrp) : NetHrp hrp := by
  obtain ⟨coin, network, rfl⟩ := exists_coinNet hcode
  exact netHrp_of_coinNet h

theorem lowered_bech32 {hrp : JsString} (hhrp : ∀ u ∈ hrp, Lowered u) {version : ℕ} {words : List ℕ}
    (hversion : version ≤ 16) (hwords : ∀ d ∈ words, d < 32) : ∀ u ∈ bech32 hrp version words, Lowered u := by
  intro u hu
  rw [bech32, List.mem_append, List.mem_cons, spelled, List.mem_map] at hu
  rcases hu with hu | rfl | ⟨d, hd, rfl⟩
  · exact hhrp u hu
  · decide
  · refine lowered_charset ?_
    rw [List.cons_append, List.mem_cons, List.mem_append] at hd
    rcases hd with rfl | hd | hd
    · omega
    · exact hwords d hd
    · exact createChecksum_lt _ _ _ d hd

theorem map_lower {l : JsString} (hl : ∀ u ∈ l, Lowered u) : l.map lowerUnit = l := by
  conv_rhs => rw [← List.map_id l]
  exact List.map_congr_left fun u hu => (hl u hu).lower

theorem toLowerCase_lowered {C : CaseMap} {l : JsString} (hl : ∀ u ∈ l, Lowered u) : C.toLowerCase l = l := by
  rw [C.lower_plain l fun u hu => .inl (hl u hu).1, map_lower hl]

/-- Both mappings on the capital letters of a text in lower case. -/
theorem case_upper {C : CaseMap} {l : JsString} (hl : ∀ u ∈ l, Lowered u) :
    C.toLowerCase (l.map upperUnit) = l ∧ C.toUpperCase (l.map upperUnit) = l.map upperUnit := by
  have hplain : ∀ u ∈ l.map upperUnit, Plain u := by
    intro u hu
    obtain ⟨v, hv, rfl⟩ := List.mem_map.mp hu
    exact .inl (hl v hv).upper.1
  rw [C.lower_plain _ hplain, C.upper_plain _ hplain, List.map_map, List.map_map]
  refine ⟨?_, List.map_congr_left fun u hu => (hl u hu).upper.2.2⟩
  conv_rhs => rw [← List.map_id l]
  exact List.map_congr_left fun u hu => (hl u hu).upper.2.1

/-! ### Readings under the network's own part -/

section Readings
variable {C : CaseMap} {params : Params} {s hrp : JsString} {version : ℕ} {words : List ℕ}

theorem Reads.lowered (h : Reads C s hrp version words) (hhrp : NetHrp hrp) : ∀ u ∈ C.toLowerCase s, Lowered u := by
  rw [h.spelling]
  exact lowered_bech32 hhrp.lowered h.version_le h.words_lt

/-- Only units of ASCII and the Kelvin sign come out as such a spelling. -/
theorem Reads.plain (h : Reads C s hrp version words) (hhrp : NetHrp hrp) : ∀ u ∈ s, Plain u := by
  by_contra hother
  push Not at hother
  obtain ⟨u, hu, hbig⟩ := C.lower_other s hother
  exact absurd (h.lowered hhrp u hu).1 (UInt16.not_lt.mpr hbig)

theorem spelled_append_inj {a b : JsString} {l m : List ℕ} (hl : ∀ d ∈ l, d < 32) (hm : ∀ d ∈ m, d < 32)
    (h : a ++ unit '1' :: spelled BECH32_CHARSET l = b ++ unit '1' :: spelled BECH32_CHARSET m) : a = b ∧ l = m := by
  have hlast := lastIndexOf_append (a := a) (one_notMem_spelled hl)
  rw [h, lastIndexOf_append (one_notMem_spelled hm)] at hlast
  obtain ⟨hab, hrest⟩ := List.append_inj h (Option.some.inj hlast).symm
  refine ⟨hab, spelled_inj charset_nodup ?_ ?_ (List.cons.inj hrest).2⟩ <;> rwa [length_charset]

/-- A spelling is that of one part, version and list of words. -/
theorem bech32_inj {hrp' : JsString} {version' : ℕ} {words' : List ℕ} (hversion : version ≤ 16) (hversion' : version' ≤ 16)
    (hwords : ∀ d ∈ words, d < 32) (hwords' : ∀ d ∈ words', d < 32)
    (h : bech32 hrp version words = bech32 hrp' version' words') : hrp = hrp' ∧ version = version' ∧ words = words' := by
  have hplaces {hrp : JsString} {version : ℕ} {words : List ℕ} (hversion : version ≤ 16) (hwords : ∀ d ∈ words, d < 32) :
      ∀ d ∈ version :: words ++ createChecksum hrp version words, d < 32 := by
    rw [List.cons_append, List.forall_mem_cons]
    refine ⟨by omega, fun d hd => ?_⟩
    exact (List.mem_append.mp hd).elim (hwords d) (createChecksum_lt hrp version words d)
  obtain ⟨hhrp, hall⟩ := spelled_append_inj (hplaces hversion hwords) (hplaces hversion' hwords') h
  rw [List.cons_append, List.cons_append, List.cons.injEq] at hall
  have hlen := congrArg List.length hall.2
  rw [List.length_append, List.length_append, length_createChecksum, length_createChecksum] at hlen
  exact ⟨hhrp, hall.1, (List.append_inj hall.2 (by omega)).1⟩

theorem Reads.unique {hrp' : JsString} {version' : ℕ} {words' : List ℕ} (h : Reads C s hrp version words)
    (h' : Reads C s hrp' version' words') : hrp = hrp' ∧ version = version' ∧ words = words' :=
  bech32_inj h.version_le h'.version_le h.words_lt h'.words_lt (h.spelling.symm.trans h'.spelling)

/-- The spelling in lower case is read as the text is. -/
theorem Reads.lower (h : Reads C s hrp version words) (hhrp : NetHrp hrp) :
    Reads C (C.toLowerCase s) hrp version words := by
  have hlower := toLowerCase_lowered (C := C) (h.lowered hhrp)
  exact ⟨.inl hlower.symm, hlower.trans h.spelling, by rw [hlower]; exact h.length_le, h.hrp_ne, h.version_le, h.words_lt,
    h.fits⟩

theorem IsWitness.fits {program : Bytes} (h : IsWitness version program) : Fits version (toWords program).length := by
  obtain ⟨hdiv, -, hpadding⟩ := toWords_bits program
  exact ⟨hpadding, hdiv ▸ h.two_le, hdiv ▸ h.le_forty, fun hversion => hdiv ▸ h.zero hversion⟩

/-- A segwit address is read as its version and the words of its program, and is ASCII. -/
theorem IsSegwit.reads (h : IsSegwit params s) (hnet : ∀ hrp, params.hrp = some hrp → NetHrp hrp) :
    (∃ hrp version program, params.hrp = some hrp ∧ Reads C s hrp version (toWords program)) ∧ kelvinSign ∉ s := by
  obtain ⟨hrp, version, program, hhrp, hwitness, hs⟩ := h
  have hlowered := lowered_bech32 (hnet hrp hhrp).lowered hwitness.version_le (toWords_lt program)
  have hlen : (segwit hrp version program).length ≤ 90 := by
    have hshort := (hnet hrp hhrp).length_le
    have hprogram := hwitness.le_forty
    rw [segwit, bech32, List.length_append, List.length_cons, length_spelled, List.length_append, List.length_cons,
      length_createChecksum, length_toWords]
    omega
  have hascii : kelvinSign ∉ s := by
    intro hmem
    rcases hs with rfl | rfl
    · exact kelvin_not_ascii (hlowered _ hmem).1
    · obtain ⟨u, hu, hkelvin⟩ := List.mem_map.mp hmem
      exact kelvin_not_ascii (hkelvin ▸ (hlowered u hu).upper.1)
  refine ⟨⟨hrp, version, program, hhrp, ?_⟩, hascii⟩
  rcases hs with hs | hs
  · have hlower : C.toLowerCase s = segwit hrp version program := by rw [hs]; exact toLowerCase_lowered hlowered
    exact ⟨.inl (by rw [hlower, hs]), hlower, by rwa [hlower], (hnet hrp hhrp).ne_nil, hwitness.version_le,
      toWords_lt program, hwitness.fits⟩
  · obtain ⟨hlower, hupper⟩ := case_upper (C := C) hlowered
    rw [← segwit, ← hs] at hlower hupper
    exact ⟨.inr hupper.symm, hlower, by rwa [hlower], (hnet hrp hhrp).ne_nil, hwitness.version_le,
      toWords_lt program, hwitness.fits⟩

/-- A reading without the Kelvin sign and without padding bits set is a segwit address. -/
theorem Reads.isSegwit (h : Reads C s hrp version words) (hparams : params.hrp = some hrp) (hhrp : NetHrp hrp)
    (hascii : kelvinSign ∉ s) (hpadding : padding words = 0) : IsSegwit params s := by
  have hwitness : IsWitness version (programOf words) := by
    refine ⟨h.version_le, ?_, ?_, ?_⟩ <;> rw [length_programOf]
    exacts [h.fits.two_le, h.fits.le_forty, h.fits.zero]
  have hspelling : C.toLowerCase s = segwit hrp version (programOf words) := by
    rw [h.spelling, segwit, ← eq_toWords h.words_lt h.fits hpadding]
  refine ⟨hrp, version, programOf words, hparams, hwitness, ?_⟩
  rcases h.one_case with hlower | hupper
  · exact .inl (hlower.trans hspelling)
  · right
    have hplain := h.plain hhrp
    rw [← hspelling, C.lower_plain s hplain, List.map_map]
    conv_lhs => rw [hupper, C.upper_plain s hplain]
    refine List.map_congr_left fun u hu => (upper_lower ?_).symm
    refine (hplain u hu).resolve_right fun hkelvin => hascii ?_
    rwa [← hkelvin]

end Readings

/-! ### The verdict -/

theorem colon_notMem_base58 (bytes : Bytes) : unit ':' ∉ base58 bytes := by
  have hall : ∀ d < 58, BASE58_ALPHABET.getD d 0 ≠ unit ':' := by decide
  rw [base58, spelled, List.mem_map]
  rintro ⟨d, hd, h⟩
  exact hall d (recode_lt (by norm_num) _ d hd) h

theorem witnessScript_inj {version version' : ℕ} {program program' : Bytes} (hversion : version ≤ 16)
    (hversion' : version' ≤ 16) (h : witnessScript version program = witnessScript version' program') :
    version = version' ∧ program = program' := by
  have hpush : ∀ v ≤ 16, ∀ v' ≤ 16, UInt8.ofNat (if v = 0 then 0 else 0x50 + v) =
      UInt8.ofNat (if v' = 0 then 0 else 0x50 + v') → v = v' := by decide
  rw [witnessScript, witnessScript, List.cons.injEq, List.cons.injEq] at h
  exact ⟨hpush version hversion version' hversion' h.1, h.2.2⟩

theorem witnessScript_head {version : ℕ} (hversion : version ≤ 16) (program : Bytes) :
    (witnessScript version program).head? ≠ some 0x76 ∧ (witnessScript version program).head? ≠ some 0xa9 := by
  have hpush : ∀ v ≤ 16, UInt8.ofNat (if v = 0 then 0 else 0x50 + v) ≠ 0x76 ∧
      UInt8.ofNat (if v = 0 then 0 else 0x50 + v) ≠ 0xa9 := by decide
  simpa [witnessScript] using hpush version hversion

section Verdict
variable {C : CaseMap} {params : Params} {s : JsString}

/-- A text of the form of a custody address has no reading under the network's part. -/
theorem Reads.contractMatch_eq_none {hrp : JsString} {version : ℕ} {words : List ℕ} (h : Reads C s hrp version words)
    (hhrp : NetHrp hrp) : contractMatch s = none := by
  cases hmatch : contractMatch s with
  | none => rfl
  | some groups =>
    obtain ⟨chain, index⟩ := groups
    obtain ⟨hs, -, -⟩ := contractMatch_eq_some hmatch
    have hspelling := h.spelling
    rw [C.lower_plain s (h.plain hhrp), hs, bech32] at hspelling
    have hhead := congrArg List.head? hspelling
    rw [List.head?_append_of_ne_nil _ hhrp.ne_nil] at hhead
    exact absurd hhead.symm hhrp.head_ne

theorem not_isBase58Check_of_match {groups : JsString × JsString} (h : contractMatch s = some groups) :
    ¬ IsBase58Check params s := by
  rintro ⟨version, hash, -, -, hs⟩
  obtain ⟨chain, index⟩ := groups
  obtain ⟨hmatch, -, -⟩ := contractMatch_eq_some h
  refine colon_notMem_base58 (version :: hash ++ checksumOf (version :: hash)) ?_
  rw [← base58check, ← hs, hmatch]
  simp [units]

/-- What an accepted text is, and with which spelling. -/
theorem accepted_cases {t : JsString} (h : addressVerdict C params s = .canonical t) :
    (IsCustody s ∧ t = s) ∨
    (∃ hrp version words, params.hrp = some hrp ∧ Reads C s hrp version words ∧ t = C.toLowerCase s) ∨
    (IsBase58Check params s ∧ t = s) := by
  cases hmatch : contractMatch s with
  | some groups =>
    simp only [addressVerdict, hmatch] at h
    exact .inl ((contractVerdict_iff hmatch).mp h)
  | none =>
    cases hdecode : bech32Decode C s with
    | some hrp =>
      simp only [addressVerdict, hmatch, hdecode] at h
      split_ifs at h with hparams
      obtain ⟨version, words, hreads⟩ := reads_of_bech32Decode hdecode
      exact .inr (.inl ⟨hrp, version, words, hparams, hreads, (Verdict.canonical.inj h).symm⟩)
    | none =>
      simp only [addressVerdict, hmatch, hdecode] at h
      exact .inr (.inr (isBase58Check_of_verdict h))

/-- A text is accepted just where it is an address. -/
def RightlyAccepted (C : CaseMap) (params : Params) (s : JsString) : Prop :=
  (∃ t, addressVerdict C params s = .canonical t) ↔ Valid params s

/-- One text, as far as it decides whether it is rightly accepted. Where it is read under the network's
    own part, it is ASCII with no padding bit set, or a Base58Check address as well; where under another
    part, it is no Base58Check address. -/
structure Clean (C : CaseMap) (params : Params) (s : JsString) : Prop where
  own : ∀ hrp version words, Reads C s hrp version words → params.hrp = some hrp →
    (kelvinSign ∉ s ∧ padding words = 0) ∨ IsBase58Check params s
  other : ∀ hrp version words, Reads C s hrp version words → params.hrp ≠ some hrp → ¬ IsBase58Check params s

/-- Accepted texts with different spellings never pay one script. -/
def Apart (C : CaseMap) (params : Params) (s s' : JsString) : Prop :=
  ∀ t t', addressVerdict C params s = .canonical t → addressVerdict C params s' = .canonical t' → t ≠ t' →
    ∀ script, Pays C params s script → ¬ Pays C params s' script

/-- Two texts read as one witness program have the same padding bits. -/
def SamePadding (C : CaseMap) (params : Params) (s s' : JsString) : Prop :=
  ∀ hrp version words words', params.hrp = some hrp → Reads C s hrp version words → Reads C s' hrp version words' →
    programOf words = programOf words' → padding words = padding words'

theorem valid_iff_of_no_match (hmatch : contractMatch s = none) :
    Valid params s ↔ IsBase58Check params s ∨ IsSegwit params s := by
  have hcustody : ¬ IsCustody s := by
    rintro ⟨coin, n, -, rfl⟩
    rw [contractMatch_append (tick_upper coin).1 (tick_upper coin).2 (canonicalDecimal_decimal n)] at hmatch
    simp at hmatch
  simp only [Valid, hcustody, false_or]

variable (hnet : ∀ hrp, params.hrp = some hrp → NetHrp hrp)
include hnet

theorem addressVerdict_of_reads {hrp : JsString} {version : ℕ} {words : List ℕ} (h : Reads C s hrp version words)
    (hparams : params.hrp = some hrp) : addressVerdict C params s = .canonical (C.toLowerCase s) := by
  simp only [addressVerdict, h.contractMatch_eq_none (hnet hrp hparams), bech32Decode_of_reads h, hparams, if_true]

/-- An accepted spelling is accepted, and is its own. -/
theorem addressVerdict_idem {t : JsString} (h : addressVerdict C params s = .canonical t) :
    addressVerdict C params t = .canonical t := by
  rcases accepted_cases h with ⟨-, rfl⟩ | ⟨hrp, version, words, hparams, hreads, rfl⟩ | ⟨-, rfl⟩
  · exact h
  · have hlower := hreads.lower (hnet hrp hparams)
    have hsame := toLowerCase_lowered (C := C) (hreads.lowered (hnet hrp hparams))
    rw [addressVerdict_of_reads hnet hlower hparams, hsame]
  · exact h

/-- A text of the form of a custody address is nothing else. -/
theorem rightlyAccepted_of_match {groups : JsString × JsString} (hmatch : contractMatch s = some groups) :
    RightlyAccepted C params s ∧ Clean C params s := by
  have hcheck : ¬ IsBase58Check params s := not_isBase58Check_of_match hmatch
  have hown {hrp : JsString} {version : ℕ} {words : List ℕ} (hreads : Reads C s hrp version words) :
      params.hrp ≠ some hrp := by
    intro hparams
    rw [hreads.contractMatch_eq_none (hnet hrp hparams)] at hmatch
    simp at hmatch
  have hsegwit : ¬ IsSegwit params s := by
    intro h
    obtain ⟨⟨hrp, version, program, hparams, hreads⟩, -⟩ := h.reads (C := C) hnet
    exact hown hreads hparams
  have haccept : (∃ t, addressVerdict C params s = .canonical t) ↔ IsCustody s := by
    simp only [addressVerdict, hmatch, contractVerdict_iff hmatch, exists_and_left, exists_eq, and_true]
  constructor
  · simp only [RightlyAccepted, haccept, Valid, hcheck, hsegwit, or_false]
  · exact ⟨fun _ _ _ hreads hparams => absurd hparams (hown hreads), fun _ _ _ _ _ => hcheck⟩

/-- A text read under the network's part is accepted. -/
theorem rightlyAccepted_iff_of_own {hrp : JsString} {version : ℕ} {words : List ℕ} (hreads : Reads C s hrp version words)
    (hparams : params.hrp = some hrp) : RightlyAccepted C params s ↔ Clean C params s := by
  have hvalid : Valid params s ↔ _ := valid_iff_of_no_match (hreads.contractMatch_eq_none (hnet hrp hparams))
  have hsegwit : IsSegwit params s ↔ kelvinSign ∉ s ∧ padding words = 0 := by
    constructor
    · intro h
      obtain ⟨⟨hrp', version', program, -, hreads'⟩, hascii⟩ := h.reads (C := C) hnet
      obtain ⟨-, -, rfl⟩ := hreads.unique hreads'
      exact ⟨hascii, padding_toWords program⟩
    · exact fun h => hreads.isSegwit hparams (hnet hrp hparams) h.1 h.2
  have haccept : ∃ t, addressVerdict C params s = .canonical t :=
    ⟨_, addressVerdict_of_reads hnet hreads hparams⟩
  simp only [RightlyAccepted, haccept, true_iff, hvalid, hsegwit]
  constructor
  · intro h
    refine ⟨fun hrp' version' words' hreads' _ => ?_, fun hrp' version' words' hreads' hne => ?_⟩
    · obtain ⟨-, -, rfl⟩ := hreads.unique hreads'
      exact h.symm
    · obtain ⟨rfl, -, -⟩ := hreads.unique hreads'
      exact absurd hparams hne
  · exact fun h => (h.own hrp version words hreads hparams).symm

/-- A text read under another part is refused. -/
theorem rightlyAccepted_iff_of_other {hrp : JsString} {version : ℕ} {words : List ℕ} (hmatch : contractMatch s = none)
    (hreads : Reads C s hrp version words) (hparams : params.hrp ≠ some hrp) :
    RightlyAccepted C params s ↔ Clean C params s := by
  have hsegwit : ¬ IsSegwit params s := by
    intro h
    obtain ⟨⟨hrp', version', program, hparams', hreads'⟩, -⟩ := h.reads (C := C) hnet
    obtain ⟨rfl, -, -⟩ := hreads.unique hreads'
    exact hparams hparams'
  have hrefuse : ¬ ∃ t, addressVerdict C params s = .canonical t := by
    rintro ⟨t, h⟩
    simp [addressVerdict, hmatch, bech32Decode_of_reads hreads, hparams] at h
  simp only [RightlyAccepted, hrefuse, false_iff, valid_iff_of_no_match hmatch, hsegwit, or_false]
  constructor
  · intro h
    refine ⟨fun hrp' version' words' hreads' hparams' => ?_, fun _ _ _ _ _ => h⟩
    obtain ⟨rfl, -, -⟩ := hreads.unique hreads'
    exact absurd hparams' hparams
  · exact fun h => h.other hrp version words hreads hparams

/-- A text with no reading is left to Base58. -/
theorem rightlyAccepted_of_no_reading (hmatch : contractMatch s = none)
    (hread : ¬ ∃ hrp version words, Reads C s hrp version words) : RightlyAccepted C params s ∧ Clean C params s := by
  have hsegwit : ¬ IsSegwit params s := by
    intro h
    obtain ⟨⟨hrp, version, program, -, hreads⟩, -⟩ := h.reads (C := C) hnet
    exact hread ⟨hrp, version, _, hreads⟩
  have hdecode : bech32Decode C s = none := by
    cases hdecode : bech32Decode C s with
    | none => rfl
    | some hrp =>
      obtain ⟨version, words, hreads⟩ := reads_of_bech32Decode hdecode
      exact absurd ⟨hrp, version, words, hreads⟩ hread
  have haccept : (∃ t, addressVerdict C params s = .canonical t) ↔ IsBase58Check params s := by
    simp only [addressVerdict, hmatch, hdecode]
    exact ⟨fun ⟨t, h⟩ => (isBase58Check_of_verdict h).1, fun h => ⟨s, base58Verdict_of_isBase58Check h⟩⟩
  constructor
  · simp only [RightlyAccepted, haccept, valid_iff_of_no_match hmatch, hsegwit, or_false]
  · exact ⟨fun hrp version words hreads => absurd ⟨hrp, version, words, hreads⟩ hread,
      fun hrp version words hreads => absurd ⟨hrp, version, words, hreads⟩ hread⟩

theorem rightlyAccepted_iff : RightlyAccepted C params s ↔ Clean C params s := by
  cases hmatch : contractMatch s with
  | some groups =>
    have h := rightlyAccepted_of_match (C := C) hnet hmatch
    exact iff_of_true h.1 h.2
  | none =>
    by_cases hread : ∃ hrp version words, Reads C s hrp version words
    · obtain ⟨hrp, version, words, hreads⟩ := hread
      by_cases hparams : params.hrp = some hrp
      · exact rightlyAccepted_iff_of_own hnet hreads hparams
      · exact rightlyAccepted_iff_of_other hnet hmatch hreads hparams
    · have h := rightlyAccepted_of_no_reading hnet hmatch hread
      exact iff_of_true h.1 h.2

theorem apart_iff {s' : JsString} : Apart C params s s' ↔ SamePadding C params s s' := by
  constructor
  · intro h hrp version words words' hparams hreads hreads' hprogram
    have hpays : Pays C params s' (witnessScript version (programOf words)) := hprogram ▸ .witness hparams hreads'
    by_contra hpadding
    refine h _ _ (addressVerdict_of_reads hnet hreads hparams) (addressVerdict_of_reads hnet hreads' hparams) ?_ _
      (.witness hparams hreads) hpays
    rw [hreads.spelling, hreads'.spelling]
    intro hsame
    obtain ⟨-, -, rfl⟩ := bech32_inj hreads.version_le hreads'.version_le hreads.words_lt hreads'.words_lt hsame
    exact hpadding rfl
  · intro h t t' ht ht' hne script hpays hpays'
    have hfunctional : s ≠ s' := by
      rintro rfl
      exact hne (Verdict.canonical.inj (ht.symm.trans ht'))
    cases hpays with
    | pubKeyHash hhash hs =>
      generalize hscript : (0x76 :: 0xa9 :: 0x14 :: _ ++ [0x88, 0xac] : Bytes) = script at hpays'
      cases hpays' with
      | pubKeyHash hhash' hs' =>
        simp only [List.cons_append, List.cons.injEq, true_and, List.append_cancel_right_eq] at hscript
        exact hfunctional (by rw [hs, hs', hscript])
      | scriptHash hhash' hs' => simp at hscript
      | witness hparams' hreads' =>
        exact (witnessScript_head hreads'.version_le _).1 (by rw [← hscript]; rfl)
    | scriptHash hhash hs =>
      generalize hscript : (0xa9 :: 0x14 :: _ ++ [0x87] : Bytes) = script at hpays'
      cases hpays' with
      | pubKeyHash hhash' hs' => simp at hscript
      | scriptHash hhash' hs' =>
        simp only [List.cons_append, List.cons.injEq, true_and, List.append_cancel_right_eq] at hscript
        exact hfunctional (by rw [hs, hs', hscript])
      | witness hparams' hreads' =>
        exact (witnessScript_head hreads'.version_le _).2 (by rw [← hscript]; rfl)
    | witness hparams hreads =>
      generalize hscript : witnessScript _ _ = script at hpays'
      cases hpays' with
      | pubKeyHash hhash' hs' => exact (witnessScript_head hreads.version_le _).1 (by rw [hscript]; rfl)
      | scriptHash hhash' hs' => exact (witnessScript_head hreads.version_le _).2 (by rw [hscript]; rfl)
      | witness hparams' hreads' =>
        obtain ⟨rfl, hprogram⟩ := witnessScript_inj hreads.version_le hreads'.version_le hscript
        obtain rfl := Option.some.inj (hparams.symm.trans hparams')
        have hwords := words_inj hreads.words_lt hreads'.words_lt hreads.fits hreads'.fits hprogram
          (h _ _ _ _ hparams hreads hreads' hprogram)
        rw [addressVerdict_of_reads hnet hreads hparams, hreads.spelling, Verdict.canonical.injEq] at ht
        rw [addressVerdict_of_reads hnet hreads' hparams, hreads'.spelling, Verdict.canonical.injEq] at ht'
        exact hne (by rw [← ht, ← ht', hwords])

end Verdict

/-! ### canonicalCoinAddress -/

/-- What is asked of the verdicts on two texts, for the coin code of a path: each is accepted just where it is
    an address of the network, an accepted spelling is its own, and two spellings do not pay one script. -/
structure OneSpelling (C : CaseMap) (code s s' : JsString) : Prop where
  accepts : ∀ x ∈ [s, s'], (∃ t, canonicalCoinAddress C code x = .canonical t) ↔
    ∃ params, addressParams (C.toUpperCase code) = some params ∧ Valid params x
  idem : ∀ x ∈ [s, s'], ∀ t, canonicalCoinAddress C code x = .canonical t → canonicalCoinAddress C code t = .canonical t
  apart : ∀ t t', canonicalCoinAddress C code s = .canonical t → canonicalCoinAddress C code s' = .canonical t' → t ≠ t' →
    ∀ params, addressParams (C.toUpperCase code) = some params →
      ∀ script, Pays C params s script → ¬ Pays C params s' script

theorem oneSpelling_of_unknown {C : CaseMap} {code s s' : JsString} (hcode : addressParams (C.toUpperCase code) = none) :
    OneSpelling C code s s' := by
  have hunknown : ∀ x, canonicalCoinAddress C code x = .unknown := by simp [canonicalCoinAddress, hcode]
  exact ⟨by simp [hunknown, hcode], by simp [hunknown], by simp [hunknown]⟩

/-- Each coin code has one spelling for each script just where neither text is read with a padding bit
    set or a Kelvin sign, or under another network's part while a Base58Check address of this one,
    and where they do not differ in padding bits alone. -/
theorem one_spelling_iff (C : CaseMap) (code s s' : JsString) :
    OneSpelling C code s s' ↔ ∀ params, addressParams (C.toUpperCase code) = some params →
      Clean C params s ∧ Clean C params s' ∧ SamePadding C params s s' := by
  cases hcode : addressParams (C.toUpperCase code) with
  | none => exact iff_of_true (oneSpelling_of_unknown hcode) (by simp)
  | some params =>
    have hnet : ∀ hrp, params.hrp = some hrp → NetHrp hrp := fun hrp => netHrp hcode
    have hverdict : ∀ x, canonicalCoinAddress C code x = addressVerdict C params x := by
      simp [canonicalCoinAddress, hcode]
    have hgoal : OneSpelling C code s s' ↔
        RightlyAccepted C params s ∧ RightlyAccepted C params s' ∧ Apart C params s s' := by
      constructor
      · intro h
        have haccepts := h.accepts
        have hapart := h.apart
        simp only [hverdict, hcode, Option.some.injEq, exists_eq_left', forall_eq', List.forall_mem_cons] at haccepts hapart
        exact ⟨haccepts.1, haccepts.2.1, hapart⟩
      · rintro ⟨hs, hs', hapart⟩
        refine ⟨?_, ?_, ?_⟩ <;> simp only [hverdict, hcode, Option.some.injEq, exists_eq_left', forall_eq']
        · simpa using ⟨hs, hs'⟩
        · exact fun x _ t h => addressVerdict_idem hnet h
        · exact hapart
    rw [hgoal, rightlyAccepted_iff hnet, rightlyAccepted_iff hnet, apart_iff hnet]
    simp

/-- The case mappings unit by unit, as they are on ASCII. -/
def asciiCase : CaseMap where
  toLowerCase s := s.map lowerUnit
  toUpperCase s := s.map upperUnit
  lower_plain _ _ := rfl
  upper_plain _ _ := rfl
  lower_other := by
    rintro s ⟨u, hu, hplain⟩
    rw [Plain, not_or] at hplain
    have hbig : 128 ≤ u := UInt16.not_lt.mp hplain.1
    have hcapital : ¬ (unit 'A' ≤ u ∧ u ≤ unit 'Z') :=
      fun h => hplain.1 (UInt16.lt_of_le_of_lt h.2 (by decide))
    refine ⟨lowerUnit u, List.mem_map_of_mem hu, ?_⟩
    rwa [lowerUnit, if_neg hcapital, if_neg hplain.2]

theorem reads_strict : Reads asciiCase (units "bc1pf6tqmzk9av") (units "bc") 1 [9, 26, 11, 0] :=
  ⟨.inl (by decide +kernel), by decide +kernel, by decide +kernel, by decide, by decide, by decide,
    ⟨by decide, by decide, by decide, by decide⟩⟩

theorem reads_padded : Reads asciiCase (units "bc1pf6tpx5zsq7") (units "bc") 1 [9, 26, 11, 1] :=
  ⟨.inl (by decide +kernel), by decide +kernel, by decide +kernel, by decide, by decide, by decide,
    ⟨by decide, by decide, by decide, by decide⟩⟩

/-- A padding bit set, and the checksum for it: not an address, yet accepted beside the address that
    pays the same script. -/
theorem padded_accepted :
    ¬ OneSpelling asciiCase (units "BTC") (units "bc1pf6tpx5zsq7") (units "bc1pf6tqmzk9av") ∧
    ∃ script, Pays asciiCase (coinNet .BTC .mainnet) (units "bc1pf6tpx5zsq7") script ∧
      Pays asciiCase (coinNet .BTC .mainnet) (units "bc1pf6tqmzk9av") script := by
  have hprogram : programOf [9, 26, 11, 1] = programOf [9, 26, 11, 0] := by decide +kernel
  have hpadded : Pays asciiCase (coinNet .BTC .mainnet) (units "bc1pf6tpx5zsq7")
      (witnessScript 1 (programOf [9, 26, 11, 0])) := hprogram ▸ .witness rfl reads_padded
  have hstrict : Pays asciiCase (coinNet .BTC .mainnet) (units "bc1pf6tqmzk9av")
      (witnessScript 1 (programOf [9, 26, 11, 0])) := .witness rfl reads_strict
  refine ⟨fun h => ?_, _, hpadded, hstrict⟩
  have hcode : addressParams (asciiCase.toUpperCase (units "BTC")) = some (coinNet .BTC .mainnet) := by decide +kernel
  have hnet : ∀ hrp, (coinNet .BTC .mainnet).hrp = some hrp → NetHrp hrp := fun hrp => netHrp hcode
  have haccepted {x : JsString} {words : List ℕ} (hreads : Reads asciiCase x (units "bc") 1 words) :
      canonicalCoinAddress asciiCase (units "BTC") x = .canonical (asciiCase.toLowerCase x) := by
    simp only [canonicalCoinAddress, hcode]
    exact addressVerdict_of_reads hnet hreads rfl
  exact h.apart _ _ (haccepted reads_padded) (haccepted reads_strict) (by decide +kernel) _ hcode _ hpadded hstrict

end AddressShape
