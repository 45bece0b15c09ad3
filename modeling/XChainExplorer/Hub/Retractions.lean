import XChainExplorer.Consensus.StakeWeightedQuorum
import XChainExplorer.Hub.RowUpserts
import Mathlib.Algebra.Order.Floor.Semiring

/-! # Retractions

    A retraction names a range of action indexes of one source chain and a generation fence, and
    deletes the mirrored rows within both. On the tables of the quorum class it must be fenced and,
    from the flag day on, co-signed over its canonical string. The string and the bounds are derived
    from the same fields in two ways. -/

namespace HubDbSync

open JsNumber Consensus

/-- A signature and whose it is. -/
structure RetractionSignature where
  pubkey : String
  sig : String
  deriving DecidableEq

/-- A retraction as the hub sends it. -/
structure RetractionEvent where
  table : MirrorTable
  source_chain : String
  from_action_index : Field
  to_action_index : Field
  retraction_generation : Field
  snapshot_block : Field
  retraction_signatures : List RetractionSignature
  deriving DecidableEq

/-- The tables whose deletions change a consensus decision. -/
def QUORUM_CLASS_TABLES : List MirrorTable := [.cross_chain_matches, .cross_chain_calls, .bridge_transfers]

/-- The name of a table. -/
def MirrorTable.name : MirrorTable → String
  | .price_snapshots => "price_snapshots"
  | .oracle_prices => "oracle_prices"
  | .cross_chain_matches => "cross_chain_matches"
  | .cross_chain_calls => "cross_chain_calls"
  | .capability_snapshots => "capability_snapshots"
  | .bridge_transfers => "bridge_transfers"
  | .policy_snapshots => "policy_snapshots"
  | .list_snapshots => "list_snapshots"
  | .remote_token_snapshots => "remote_token_snapshots"
  | .state_checkpoints => "state_checkpoints"
  | .anchor_reward_attestations => "anchor_reward_attestations"
  | .attestation_responses => "attestation_responses"

/-! ### The canonical string -/

/-- A field that may be missing, and then leaves its place in the string empty. -/
def optionalField (f : Field) : String := if f.given then f.toString else ""

/-- The text that the validators sign. -/
def canonicalRetraction (event : RetractionEvent) : String :=
  "XRETRACTV1|" ++ event.table.name ++ "|" ++ event.source_chain ++ "|" ++
    event.from_action_index.toString ++ "|" ++ optionalField event.to_action_index ++ "|" ++
    optionalField event.retraction_generation ++ "|" ++ event.snapshot_block.toString

/-! ### The range -/

/-- The bounds of one deletion. A bound or a generation that is missing or no number is `none`. -/
structure RetractionRange where
  lower : ℚ
  upper : Option ℚ
  gen : Option ℚ
  deriving DecidableEq

/-- `Number(field)` of a field that is given. -/
def givenNumber (f : Field) : Option ℚ := if f.given then f.toNumber else none

/-- The range of a retraction, if it has a lower end. -/
def parseRetractionRange (event : RetractionEvent) : Option RetractionRange :=
  event.from_action_index.toNumber.map fun lower =>
    { lower
      upper := givenNumber event.to_action_index
      gen := givenNumber event.retraction_generation }

/-- The generation fence: rows above it stay. -/
def RetractionRange.fence (range : RetractionRange) : Option ℚ := range.gen.filter (0 ≤ ·)

/-- It carries a generation. -/
def RetractionRange.fenced (range : RetractionRange) : Bool := range.fence.isSome

/-- An action index lies in it. -/
def RetractionRange.contains (range : RetractionRange) (index : ℕ) : Bool :=
  range.lower ≤ index && range.upper.all fun upper => (index : ℚ) ≤ upper

/-- The `WHERE` of a deletion, on the index and the generation it reads. -/
def RetractionRange.covers (range : RetractionRange) (index : ℕ) (generation : ℤ) : Bool :=
  range.contains index && range.fence.all fun gen => (generation : ℚ) ≤ gen

/-! ### The deletions -/

/-- A match goes when either leg on the chain was rolled back, each leg by its own fence column. -/
def retractMatchLegs (chain : String) (range : RetractionRange) (row : MirrorRow) : Bool :=
  row .a_chain = chain && range.covers (row .a_action_index) (row .a_push_generation) ||
    row .b_chain = chain && range.covers (row .b_action_index) (row .b_push_generation)

/-- The calls that a retraction takes back. -/
def retractCalls (chain : String) (range : RetractionRange) (row : MirrorRow) : Bool :=
  row .source_chain = chain && range.covers (row .source_action_index) (row .push_generation)

/-- The index column of a table that retracts by one column. -/
def RETRACTION_COLUMNS : MirrorTable → Option (MirrorRow → ℕ)
  | .price_snapshots => some fun row => row .source_action_index
  | .oracle_prices => some fun row => row .action_index
  | .bridge_transfers => some fun row => row .src_action_index
  | _ => none

/-- The column that names the chain. -/
def RETRACTION_CHAIN_COLUMNS : MirrorTable → MirrorRow → String
  | .bridge_transfers => fun row => row .src_chain
  | _ => fun row => row .source_chain

/-- The rows of a table that a retraction takes back. -/
def retractByColumn (table : MirrorTable) (chain : String) (range : RetractionRange)
    (row : MirrorRow) : Bool :=
  (RETRACTION_COLUMNS table).any fun column =>
    RETRACTION_CHAIN_COLUMNS table row = chain && range.covers (column row) (row .push_generation)

/-- The rows the deletion of a table removes. -/
def retracts (table : MirrorTable) (chain : String) (range : RetractionRange) (row : MirrorRow) :
    Bool :=
  match table with
  | .cross_chain_matches => retractMatchLegs chain range row
  | .cross_chain_calls => retractCalls chain range row
  | _ => retractByColumn table chain range row

/-! ### Accepting a retraction -/

/-- One validator of the `cross_chain` set at a block. -/
structure CapabilitySnapshot where
  snapshot_block : ℕ
  signing_pubkey : String
  amount : Option String
  source : Option String
  deriving DecidableEq

/-- The row as the retraction's quorum reads it: an amount that is missing counts as zero. -/
def CapabilitySnapshot.retractionValidator (r : CapabilitySnapshot) : Validator where
  pubkey := r.signing_pubkey.toLower
  source := some (r.source.getD "")
  weight := some (r.amount.getD "0")

/-- What a retraction meets at the mirror: its own chain and generation (`none` inside is a reading
    that failed), its network, the validator sets (`none` where the table cannot be read), and the
    rows. -/
structure RetractionMirror where
  coin : Option String
  getOwnRollbackGeneration : Option (Option ℚ)
  network : Option Network
  capability_snapshots : Option (List CapabilitySnapshot)
  rows : MirrorTable → List MirrorRow

/-- Ed25519 on a payload, a signature and a public key. -/
abbrev Ed25519 := String → String → String → Bool

/-- So many lower case hexadecimal digits. -/
def isHex (n : ℕ) (s : String) : Bool :=
  s.toList.length = n && s.toList.all fun c => c.isDigit || ('a' ≤ c && c ≤ 'f')

/-- A signature that is well formed and valid. -/
def verifyEd25519 (ed25519 : Ed25519) (payload sig pubkey : String) : Bool :=
  isHex 64 pubkey && isHex 128 sig && ed25519 payload sig pubkey

/-- The signers of the snapshot that a signature verifies for, each of them once. A key is taken for
    seen only when one of its signatures has verified. -/
def validSigners (ed25519 : Ed25519) (canonical : String) (snapPubkeys : List String)
    (sigs : List RetractionSignature) : List String :=
  sigs.foldl (fun seen s =>
    let pk := s.pubkey.toLower
    if pk ≠ "" ∧ pk ∉ seen ∧ pk ∈ snapPubkeys ∧
        verifyEd25519 ed25519 canonical s.sig.toLower pk then seen ++ [pk] else seen) []

namespace RetractionMirror

/-- The retraction is of the node's own chain. -/
def ownChain (mirror : RetractionMirror) (event : RetractionEvent) : Bool :=
  mirror.coin.any (fun coin => coin ≠ "" && event.source_chain = coin) &&
    mirror.getOwnRollbackGeneration.isSome

/-- The quorum class and the own chain take no unfenced deletion, and the own chain none at or above
    its own generation. -/
def acceptRetractionFences (mirror : RetractionMirror) (event : RetractionEvent)
    (range : RetractionRange) : Bool :=
  let own := mirror.ownChain event
  if (event.table ∈ QUORUM_CLASS_TABLES || own) && !range.fenced then false
  else if own then
    match range.fence, mirror.getOwnRollbackGeneration.join with
    | some gen, some own => gen < own
    | _, _ => false
  else true

/-- The signatures of a retraction reach the quorum. -/
def verifyRetractionSignatures (ed25519 : Ed25519) (mirror : RetractionMirror)
    (event : RetractionEvent) : Bool :=
  match event.snapshot_block.toNumber with
  | none => false
  | some sb =>
    let rows := (mirror.capability_snapshots.getD []).filter fun r => (r.snapshot_block : ℚ) = sb
    let validators := rows.map (·.retractionValidator)
    let signers := validSigners ed25519 (canonicalRetraction event) (validators.map (·.pubkey))
      event.retraction_signatures
    0 ≤ sb && activeAt RETRACTION_SIGNING_ACTIVATION mirror.network sb &&
      !event.retraction_signatures.isEmpty && !rows.isEmpty &&
      meetsQuorum mirror.network sb validators signers

/-- From the flag day on, which the mirror's own highest validator set tells, a deletion must carry
    its co-signatures. -/
def acceptRetractionSignatures (ed25519 : Ed25519) (mirror : RetractionMirror)
    (event : RetractionEvent) : Bool :=
  match ((mirror.capability_snapshots.getD []).map (·.snapshot_block)).max? with
  | none => true
  | some gateBlock =>
    !activeAt RETRACTION_SIGNING_ACTIVATION mirror.network gateBlock ||
      mirror.verifyRetractionSignatures ed25519 event

/-- A retraction that is accepted takes its rows back. -/
def applyRetraction (ed25519 : Ed25519) (mirror : RetractionMirror) (event : RetractionEvent) :
    RetractionMirror :=
  match parseRetractionRange event with
  | none => mirror
  | some range =>
    if mirror.acceptRetractionFences event range &&
        (event.table ∉ QUORUM_CLASS_TABLES || mirror.network.isNone ||
          mirror.acceptRetractionSignatures ed25519 event) then
      let kept := (mirror.rows event.table).filter fun row =>
        !retracts event.table event.source_chain range row
      { mirror with rows := Function.update mirror.rows event.table kept }
    else mirror

end RetractionMirror

/-! ### What the canonical string determines -/

/-- Every bound of the event is absent, null, empty, a numeric text or a number. -/
structure RetractionEvent.Numeric (event : RetractionEvent) : Prop where
  lower : event.from_action_index.Numeric
  upper : event.to_action_index.Numeric
  gen : event.retraction_generation.Numeric
  block : event.snapshot_block.Numeric

/-- Where the last piece of each text holds no separator, the pieces are the same. -/
theorem append_separator_inj {α : Type*} {sep : α} {a b f g : List α} (hf : sep ∉ f)
    (hg : sep ∉ g) (h : a ++ sep :: f = b ++ sep :: g) : a = b ∧ f = g := by
  rcases List.append_eq_append_iff.mp h with ⟨t, rfl, ht⟩ | ⟨t, rfl, ht⟩
  · cases t with
    | nil => simpa using ht
    | cons c t =>
      have hmem : f = t ++ sep :: g := (List.cons_eq_cons.mp ht).2
      exact absurd (hmem ▸ by simp) hf
  · cases t with
    | nil => simpa [eq_comm] using ht
    | cons c t =>
      have hmem : g = t ++ sep :: f := (List.cons_eq_cons.mp ht).2
      exact absurd (hmem ▸ by simp) hg

theorem separator_notMem_toString {f : Field} (hf : f.Numeric) : '|' ∉ f.toString.toList := by
  intro hmem
  by_cases hgiven : f.given = true
  · have hnumeric := isNumericChar_of_ofText (Field.text_numeric hf hgiven) '|' hmem
    revert hnumeric
    decide
  · cases f with
    | absent => revert hmem; decide
    | null => revert hmem; decide
    | text s => simp [Field.given] at hgiven
    | number n => simp [Field.given] at hgiven

theorem separator_notMem_optionalField {f : Field} (hf : f.Numeric) :
    '|' ∉ (optionalField f).toList := by
  unfold optionalField
  split_ifs
  · exact separator_notMem_toString hf
  · simp

/-- The text of a numeric field decides its number. -/
theorem toNumber_congr {f g : Field} (hf : f.Numeric) (hg : g.Numeric)
    (h : f.toString = g.toString) : f.toNumber = g.toNumber := by
  have hmissing {f g : Field} (hf : ¬ f.given = true) (hg : g.Numeric)
      (h : f.toString = g.toString) : f = g := by
    have hnone : ofText f.toString.toList = none := by
      cases f with
      | absent => decide
      | null => decide
      | text s => simp [Field.given] at hf
      | number n => simp [Field.given] at hf
    have hg' : ¬ g.given = true := fun hgiven => by
      have hsome := Field.text_numeric hg hgiven
      rw [← h, hnone] at hsome
      cases hsome
    cases f <;> cases g <;> simp_all [Field.given, Field.toString]
  by_cases hfg : f.given = true
  · by_cases hgg : g.given = true
    · rw [Field.toNumber_eq_ofText hfg, Field.toNumber_eq_ofText hgg, h]
    · rw [hmissing hgg hf h.symm]
  · rw [hmissing hfg hg h]

/-- Where both fields are given or neither is, the text decides the bound. -/
theorem givenNumber_congr {f g : Field} (hf : f.Numeric) (hg : g.Numeric)
    (hgiven : f.given = g.given) (h : optionalField f = optionalField g) :
    givenNumber f = givenNumber g := by
  unfold givenNumber
  unfold optionalField at h
  rw [hgiven] at h ⊢
  split_ifs at h ⊢
  · exact toNumber_congr hf hg h
  · rfl

/-- A field that is given and leaves its place in the string empty is the empty text, and counts as
    zero. -/
theorem givenNumber_of_empty {f : Field} (hf : f.given) (h : optionalField f = "") :
    givenNumber f = some 0 := by
  unfold optionalField at h
  rw [if_pos hf] at h
  rw [givenNumber, if_pos hf, Field.toNumber_eq_ofText hf, h]
  decide

theorem separator_notMem_name (T : MirrorTable) : '|' ∉ T.name.toList := by
  cases T <;> decide

theorem name_injective : Function.Injective MirrorTable.name := by
  have hfind : ∀ T : MirrorTable, MIRRORED_TABLES.find? (fun U => U.name = T.name) = some T := by
    intro T
    cases T <;> decide
  intro S T h
  have hS := hfind S
  rw [h, hfind T] at hS
  exact (Option.some.inj hS).symm

theorem canonicalRetraction_toList (event : RetractionEvent) :
    (canonicalRetraction event).toList =
      "XRETRACTV1|".toList ++ (event.table.name.toList ++ '|' :: event.source_chain.toList) ++
        '|' :: event.from_action_index.toString.toList ++
        '|' :: (optionalField event.to_action_index).toList ++
        '|' :: (optionalField event.retraction_generation).toList ++
        '|' :: event.snapshot_block.toString.toList := by
  have hbar : "|".toList = ['|'] := rfl
  unfold canonicalRetraction
  simp only [String.toList_append, hbar, List.append_assoc, List.cons_append, List.nil_append]

/-- Equal canonical strings name the same table, chain and texts of every bound. -/
theorem canonicalRetraction_inj {A B : RetractionEvent} (hA : A.Numeric) (hB : B.Numeric)
    (h : canonicalRetraction A = canonicalRetraction B) :
    A.table = B.table ∧ A.source_chain = B.source_chain ∧
      A.from_action_index.toString = B.from_action_index.toString ∧
      optionalField A.to_action_index = optionalField B.to_action_index ∧
      optionalField A.retraction_generation = optionalField B.retraction_generation ∧
      A.snapshot_block.toString = B.snapshot_block.toString := by
  have hlist := congrArg String.toList h
  rw [canonicalRetraction_toList, canonicalRetraction_toList] at hlist
  -- the four bounds hold no separator, so they come off from the right
  obtain ⟨hlist, hblock⟩ := append_separator_inj (separator_notMem_toString hA.block)
    (separator_notMem_toString hB.block) hlist
  obtain ⟨hlist, hgen⟩ := append_separator_inj (separator_notMem_optionalField hA.gen)
    (separator_notMem_optionalField hB.gen) hlist
  obtain ⟨hlist, hupper⟩ := append_separator_inj (separator_notMem_optionalField hA.upper)
    (separator_notMem_optionalField hB.upper) hlist
  obtain ⟨hlist, hlower⟩ := append_separator_inj (separator_notMem_toString hA.lower)
    (separator_notMem_toString hB.lower) hlist
  have hreverse := congrArg List.reverse (List.append_cancel_left hlist)
  simp only [List.reverse_append, List.reverse_cons, List.append_assoc,
    List.singleton_append] at hreverse
  -- and the name of the table comes off from the left
  obtain ⟨hchain, hname⟩ := append_separator_inj
    (mt List.mem_reverse.mp (separator_notMem_name A.table))
    (mt List.mem_reverse.mp (separator_notMem_name B.table)) hreverse
  exact ⟨name_injective (String.toList_injective (List.reverse_injective hname)),
    String.toList_injective (List.reverse_injective hchain), String.toList_injective hlower,
    String.toList_injective hupper, String.toList_injective hgen, String.toList_injective hblock⟩

/-! ### When the string binds the deletion -/

/-- Some action index lies in the range: the first one above the lower bound does. -/
def RetractionRange.holdsIndex (range : RetractionRange) : Bool :=
  range.contains ⌈range.lower⌉₊

/-- What makes two events with one canonical string delete alike: neither names a range, or both
    carry a generation or neither does, and then both an upper bound or neither where a generation
    fences them, or the only one with a generation names a range without an action index. -/
def BindsDeletion (A B : RetractionEvent) : Prop :=
  match parseRetractionRange A, parseRetractionRange B with
  | some a, some b =>
    if A.retraction_generation.given = B.retraction_generation.given then
      A.to_action_index.given = B.to_action_index.given ∨ a.fenced = false
    else (if A.retraction_generation.given then a else b).holdsIndex = false
  | _, _ => True

/-- No fence is below generation 0. -/
theorem covers_zero (range : RetractionRange) (index : ℕ) :
    range.covers index 0 = range.contains index := by
  have hfence : (range.fence.all fun gen => ((0 : ℤ) : ℚ) ≤ gen) = true := by
    unfold RetractionRange.fence
    cases range.gen with
    | none => rfl
    | some gen => by_cases hgen : 0 ≤ gen <;> simp [Option.filter, hgen]
  rw [RetractionRange.covers, hfence, Bool.and_true]

/-- A range that ends at index 0 and one without an end do not hold the same indexes. -/
theorem exists_contains_ne {a b : RetractionRange} (ha : a.upper = some 0) (hb : b.upper = none) :
    ∃ index, a.contains index = false ∧ b.contains index = true := by
  refine ⟨max 1 ⌈b.lower⌉₊, ?_, ?_⟩
  · have hpos : ¬ ((max 1 ⌈b.lower⌉₊ : ℕ) : ℚ) ≤ 0 := by
      rw [not_le]
      exact_mod_cast lt_of_lt_of_le one_pos (le_max_left 1 _)
    simp only [RetractionRange.contains, ha, Option.all_some, hpos, decide_false, Bool.and_false]
  · have hle : b.lower ≤ ((max 1 ⌈b.lower⌉₊ : ℕ) : ℚ) :=
      (Nat.le_ceil _).trans (by exact_mod_cast le_max_right 1 _)
    simp only [RetractionRange.contains, hb, Option.all_none, Bool.and_true, hle, decide_true]

theorem contains_holdsIndex {range : RetractionRange} {index : ℕ} (h : range.contains index) :
    range.holdsIndex := by
  simp only [RetractionRange.contains, Bool.and_eq_true, decide_eq_true_eq] at h
  simp only [RetractionRange.holdsIndex, RetractionRange.contains, Bool.and_eq_true,
    decide_eq_true_eq]
  refine ⟨Nat.le_ceil _, ?_⟩
  have hle : ⌈range.lower⌉₊ ≤ index := Nat.ceil_le.mpr h.1
  cases hupper : range.upper with
  | none => rfl
  | some upper =>
    have hindex : (index : ℚ) ≤ upper := by simpa [hupper] using h.2
    have : ((⌈range.lower⌉₊ : ℕ) : ℚ) ≤ index := by exact_mod_cast hle
    simpa using this.trans hindex

section effect
variable {ed25519 : Ed25519} {mirror : RetractionMirror} {A B : RetractionEvent}

/-- A deletion of the quorum class that is not fenced leaves the mirror as it is. -/
theorem applyRetraction_of_unfenced (hA : A.table ∈ QUORUM_CLASS_TABLES)
    {range : RetractionRange} (hrange : parseRetractionRange A = some range)
    (hfence : range.fenced = false) : mirror.applyRetraction ed25519 A = mirror := by
  simp [RetractionMirror.applyRetraction, hrange, RetractionMirror.acceptRetractionFences, hA,
    hfence]

/-- One table, chain and range, and one verdict on the signatures: the same deletion. -/
theorem applyRetraction_congr (htable : A.table = B.table)
    (hchain : A.source_chain = B.source_chain)
    (hrange : parseRetractionRange A = parseRetractionRange B)
    (haccept : mirror.acceptRetractionSignatures ed25519 A =
      mirror.acceptRetractionSignatures ed25519 B) :
    mirror.applyRetraction ed25519 A = mirror.applyRetraction ed25519 B := by
  have hfences : ∀ range,
      mirror.acceptRetractionFences A range = mirror.acceptRetractionFences B range := by
    intro range
    have hown : mirror.ownChain A = mirror.ownChain B := by
      unfold RetractionMirror.ownChain
      rw [hchain]
    unfold RetractionMirror.acceptRetractionFences
    rw [hown, htable]
  unfold RetractionMirror.applyRetraction
  rw [hrange]
  cases parseRetractionRange B with
  | none => rfl
  | some range => simp only [hfences, htable, hchain, haccept]

/-- A range without an action index deletes nothing. -/
theorem retracts_of_not_holdsIndex {range : RetractionRange} (h : range.holdsIndex = false)
    (T : MirrorTable) (chain : String) (row : MirrorRow) : retracts T chain range row = false := by
  have hcovers : ∀ index generation, range.covers index generation = false := by
    intro index generation
    have hcontains : range.contains index = false := by
      by_contra hne
      rw [contains_holdsIndex (by simpa using hne)] at h
      cases h
    simp [RetractionRange.covers, hcontains]
  unfold retracts retractMatchLegs retractCalls retractByColumn
  cases T <;> simp [hcovers, RETRACTION_COLUMNS]

theorem applyRetraction_of_not_holdsIndex {range : RetractionRange}
    (hrange : parseRetractionRange A = some range) (h : range.holdsIndex = false) :
    mirror.applyRetraction ed25519 A = mirror := by
  simp [RetractionMirror.applyRetraction, hrange, retracts_of_not_holdsIndex h]

/-! ### A mirror that tells two ranges apart -/

/-- A row of `chain` with one index and generation 0 in every column a retraction reads. -/
def rowAt (chain : String) (index : ℕ) : MirrorRow
  | .a_chain | .b_chain | .source_chain | .src_chain => chain
  | .a_action_index | .b_action_index | .source_action_index | .src_action_index
  | .action_index => index
  | c => defaultRow c

/-- A mirror that holds only that row in every table, with no chain of its own, no network and no
    validator set. -/
def mirrorWith (row : MirrorRow) : RetractionMirror :=
  { coin := none
    getOwnRollbackGeneration := none
    network := none
    capability_snapshots := none
    rows := fun _ => [row] }

theorem retracts_rowAt {T : MirrorTable} (hT : T ∈ QUORUM_CLASS_TABLES) (chain : String)
    (range : RetractionRange) (index : ℕ) :
    retracts T chain range (rowAt chain index) = range.covers index 0 := by
  simp only [QUORUM_CLASS_TABLES, List.mem_cons, List.not_mem_nil, or_false] at hT
  rcases hT with rfl | rfl | rfl
  · simp [retracts, retractMatchLegs, rowAt, defaultRow]
  · simp [retracts, retractCalls, rowAt, defaultRow]
  · simp [retracts, retractByColumn, RETRACTION_COLUMNS, RETRACTION_CHAIN_COLUMNS, rowAt,
      defaultRow]

/-- A fenced deletion of the quorum class takes the row exactly when its range covers it. -/
theorem rows_applyRetraction_mirrorWith (hA : A.table ∈ QUORUM_CLASS_TABLES)
    {range : RetractionRange} (hrange : parseRetractionRange A = some range)
    (hfence : range.fenced) (index : ℕ) :
    ((mirrorWith (rowAt A.source_chain index)).applyRetraction ed25519 A).rows A.table =
      if range.covers index 0 then [] else [rowAt A.source_chain index] := by
  have haccept : (mirrorWith (rowAt A.source_chain index)).acceptRetractionFences A range := by
    simp [RetractionMirror.acceptRetractionFences, hfence, RetractionMirror.ownChain, mirrorWith]
  have hrows : ∀ T, (mirrorWith (rowAt A.source_chain index)).rows T =
      [rowAt A.source_chain index] := fun _ => rfl
  have hnetwork : (mirrorWith (rowAt A.source_chain index)).network.isNone := rfl
  simp only [RetractionMirror.applyRetraction, hrange, haccept, hnetwork, hrows, Bool.or_true,
    Bool.true_or, Bool.and_true, if_true, Function.update_self, List.filter_cons, List.filter_nil,
    retracts_rowAt hA]
  cases range.covers index 0 <;> rfl

/-- One canonical string and one set of signatures: one verdict. -/
theorem acceptRetractionSignatures_congr (hA : A.Numeric) (hB : B.Numeric)
    (hcanonical : canonicalRetraction A = canonicalRetraction B)
    (hsigs : A.retraction_signatures = B.retraction_signatures) :
    mirror.acceptRetractionSignatures ed25519 A = mirror.acceptRetractionSignatures ed25519 B := by
  have hblock := (canonicalRetraction_inj hA hB hcanonical).2.2.2.2.2
  have hverify : mirror.verifyRetractionSignatures ed25519 A =
      mirror.verifyRetractionSignatures ed25519 B := by
    unfold RetractionMirror.verifyRetractionSignatures
    rw [hcanonical, hsigs, toNumber_congr hA.block hB.block hblock]
  unfold RetractionMirror.acceptRetractionSignatures
  rw [hverify]

/-- Where two mirrors that verify both or refuse both end alike, whatever they hold. -/
def SameDeletion (ed25519 : Ed25519) (A B : RetractionEvent) : Prop :=
  ∀ mirror : RetractionMirror,
    mirror.acceptRetractionSignatures ed25519 A = mirror.acceptRetractionSignatures ed25519 B →
      mirror.applyRetraction ed25519 A = mirror.applyRetraction ed25519 B

theorem SameDeletion.symm (h : SameDeletion ed25519 A B) : SameDeletion ed25519 B A :=
  fun mirror haccept => (h mirror haccept.symm).symm

section quorum
variable (hA : A.table ∈ QUORUM_CLASS_TABLES) (htable : A.table = B.table)
  (hchain : A.source_chain = B.source_chain) {a b : RetractionRange}
  (ha : parseRetractionRange A = some a) (hb : parseRetractionRange B = some b)

include hA htable hchain ha hb

/-- Two fenced ranges that do not cover the same indexes of generation 0 delete differently. -/
theorem covers_of_sameDeletion (hafence : a.fenced) (hbfence : b.fenced)
    (h : SameDeletion ed25519 A B) (index : ℕ) : a.covers index 0 = b.covers index 0 := by
  have hrows := congrArg (·.rows A.table) (h (mirrorWith (rowAt A.source_chain index)) rfl)
  have hB : B.table ∈ QUORUM_CLASS_TABLES := htable ▸ hA
  simp only [rows_applyRetraction_mirrorWith hA ha hafence index] at hrows
  rw [htable, hchain, rows_applyRetraction_mirrorWith hB hb hbfence index] at hrows
  cases hac : a.covers index 0 <;> cases hbc : b.covers index 0 <;> simp_all

omit hchain in
/-- A fenced deletion and one that is refused agree only where the range holds no index. -/
theorem sameDeletion_iff_of_unfenced (hafence : a.fenced) (hbfence : b.fenced = false) :
    SameDeletion ed25519 A B ↔ a.holdsIndex = false := by
  have hB : B.table ∈ QUORUM_CLASS_TABLES := htable ▸ hA
  constructor
  · intro h
    have hrows := congrArg (·.rows A.table)
      (h (mirrorWith (rowAt A.source_chain ⌈a.lower⌉₊)) rfl)
    simp only [rows_applyRetraction_mirrorWith hA ha hafence,
      applyRetraction_of_unfenced hB hb hbfence] at hrows
    by_contra hne
    rw [covers_zero, if_pos (by simpa [RetractionRange.holdsIndex] using hne)] at hrows
    simp [mirrorWith] at hrows
  · intro h mirror _
    rw [applyRetraction_of_not_holdsIndex ha h, applyRetraction_of_unfenced hB hb hbfence]

end quorum

/-- Where only one of the two events gives an upper bound, and an empty one, no fenced deletions of
    theirs agree. -/
theorem unfenced_of_sameDeletion (hA : A.table ∈ QUORUM_CLASS_TABLES) (htable : A.table = B.table)
    (hchain : A.source_chain = B.source_chain) {a b : RetractionRange}
    (ha : parseRetractionRange A = some a) (hb : parseRetractionRange B = some b)
    (haupper : a.upper = some 0) (hbupper : b.upper = none) (hfenced : a.fenced = b.fenced)
    (h : SameDeletion ed25519 A B) : a.fenced = false := by
  by_contra hfence
  have hafence : a.fenced = true := by simpa using hfence
  obtain ⟨index, hcontains, hcontains'⟩ := exists_contains_ne haupper hbupper
  have hcovers := covers_of_sameDeletion hA htable hchain ha hb hafence (hfenced ▸ hafence) h index
  rw [covers_zero, covers_zero, hcontains, hcontains'] at hcovers
  cases hcovers

theorem parseRetractionRange_eq_some {range : RetractionRange}
    (h : parseRetractionRange A = some range) :
    A.from_action_index.toNumber = some range.lower ∧
      range.upper = givenNumber A.to_action_index ∧
      range.gen = givenNumber A.retraction_generation := by
  obtain ⟨lower, hlower, rfl⟩ := Option.map_eq_some_iff.mp h
  exact ⟨hlower, rfl, rfl⟩

/-- Where only one of two fields with the same text is given, it is the empty text. -/
theorem givenNumber_of_given_ne {f g : Field} (htext : optionalField f = optionalField g)
    (hf : f.given) (hg : ¬ g.given = true) : givenNumber f = some 0 ∧ givenNumber g = none := by
  refine ⟨givenNumber_of_empty hf ?_, if_neg hg⟩
  rw [htext, optionalField, if_neg hg]

/-- Both events carry a generation or neither does. -/
theorem sameDeletion_iff_of_gen_given (hA : A.table ∈ QUORUM_CLASS_TABLES) (hAnum : A.Numeric)
    (hBnum : B.Numeric) (hcanonical : canonicalRetraction A = canonicalRetraction B)
    {a b : RetractionRange} (ha : parseRetractionRange A = some a)
    (hb : parseRetractionRange B = some b)
    (hgiven : A.retraction_generation.given = B.retraction_generation.given) :
    SameDeletion ed25519 A B ↔
      A.to_action_index.given = B.to_action_index.given ∨ a.fenced = false := by
  obtain ⟨htable, hchain, hlower, hupper, hgen, -⟩ := canonicalRetraction_inj hAnum hBnum hcanonical
  obtain ⟨halower, haupper, hagen⟩ := parseRetractionRange_eq_some ha
  obtain ⟨hblower, hbupper, hbgen⟩ := parseRetractionRange_eq_some hb
  have hB : B.table ∈ QUORUM_CLASS_TABLES := htable ▸ hA
  have hgen' : a.gen = b.gen := by
    rw [hagen, hbgen, givenNumber_congr hAnum.gen hBnum.gen hgiven hgen]
  have hfenced : a.fenced = b.fenced := by
    rw [RetractionRange.fenced, RetractionRange.fence, hgen']
    rfl
  constructor
  · intro h
    by_cases hto : A.to_action_index.given = B.to_action_index.given
    · exact .inl hto
    right
    by_cases hgivenA : A.to_action_index.given = true
    · have hgivenB : ¬ B.to_action_index.given = true := fun hgivenB => hto (by rw [hgivenA, hgivenB])
      obtain ⟨hzero, hnone⟩ := givenNumber_of_given_ne hupper hgivenA hgivenB
      exact unfenced_of_sameDeletion hA htable hchain ha hb (haupper.trans hzero)
        (hbupper.trans hnone) hfenced h
    · have hgivenB : B.to_action_index.given = true := by
        by_contra hne
        exact hto (by rw [Bool.eq_false_iff.mpr hgivenA, Bool.eq_false_iff.mpr hne])
      obtain ⟨hzero, hnone⟩ := givenNumber_of_given_ne hupper.symm hgivenB hgivenA
      exact hfenced.trans (unfenced_of_sameDeletion hB htable.symm hchain.symm hb ha
        (hbupper.trans hzero) (haupper.trans hnone) hfenced.symm h.symm)
  · rintro (hto | hfence) mirror haccept
    · have hlower' : a.lower = b.lower := by
        rw [← Option.some_inj, ← halower, ← hblower, toNumber_congr hAnum.lower hBnum.lower hlower]
      have hupper' : a.upper = b.upper := by
        rw [haupper, hbupper, givenNumber_congr hAnum.upper hBnum.upper hto hupper]
      have hab : a = b := by
        cases a
        cases b
        simp_all only
      exact applyRetraction_congr htable hchain (ha.trans (hab ▸ hb.symm)) haccept
    · rw [applyRetraction_of_unfenced hA ha hfence,
        applyRetraction_of_unfenced hB hb (hfenced ▸ hfence)]

/-- Only the first of the two events carries a generation. -/
theorem sameDeletion_iff_of_gen_missing (hA : A.table ∈ QUORUM_CLASS_TABLES) (hAnum : A.Numeric)
    (hBnum : B.Numeric) (hcanonical : canonicalRetraction A = canonicalRetraction B)
    {a b : RetractionRange} (ha : parseRetractionRange A = some a)
    (hb : parseRetractionRange B = some b) (hgivenA : A.retraction_generation.given)
    (hgivenB : ¬ B.retraction_generation.given = true) :
    SameDeletion ed25519 A B ↔ a.holdsIndex = false := by
  obtain ⟨htable, -, -, -, hgen, -⟩ := canonicalRetraction_inj hAnum hBnum hcanonical
  obtain ⟨hzero, hnone⟩ := givenNumber_of_given_ne hgen hgivenA hgivenB
  have hafence : a.fenced = true := by
    simp [RetractionRange.fenced, RetractionRange.fence, (parseRetractionRange_eq_some ha).2.2, hzero,
      Option.filter]
  have hbfence : b.fenced = false := by
    simp [RetractionRange.fenced, RetractionRange.fence, (parseRetractionRange_eq_some hb).2.2, hnone]
  exact sameDeletion_iff_of_unfenced hA htable ha hb hafence hbfence

/-- The canonical string binds the deletion exactly where no bound turns on a field that one event
    gives as an empty text and the other leaves out. -/
theorem canonical_binds_deletion (ed25519 : Ed25519) {A B : RetractionEvent}
    (hA : A.table ∈ QUORUM_CLASS_TABLES) (hAnum : A.Numeric) (hBnum : B.Numeric)
    (hcanonical : canonicalRetraction A = canonicalRetraction B) :
    SameDeletion ed25519 A B ↔ BindsDeletion A B := by
  obtain ⟨htable, -, hlower, -, -, -⟩ := canonicalRetraction_inj hAnum hBnum hcanonical
  have hnumber := toNumber_congr hAnum.lower hBnum.lower hlower
  have hcomm : SameDeletion ed25519 A B ↔ SameDeletion ed25519 B A :=
    ⟨SameDeletion.symm, SameDeletion.symm⟩
  unfold BindsDeletion
  split
  case h_1 a b ha hb =>
    split_ifs with hgiven hgivenA
    · exact sameDeletion_iff_of_gen_given hA hAnum hBnum hcanonical ha hb hgiven
    · exact sameDeletion_iff_of_gen_missing hA hAnum hBnum hcanonical ha hb hgivenA
        fun hgivenB => hgiven (hgivenA.trans hgivenB.symm)
    · have hgivenB : B.retraction_generation.given = true := by
        by_contra hne
        exact hgiven (by rw [Bool.eq_false_iff.mpr hgivenA, Bool.eq_false_iff.mpr hne])
      exact hcomm.trans (sameDeletion_iff_of_gen_missing (htable ▸ hA) hBnum hAnum hcanonical.symm hb
        ha hgivenB hgivenA)
  case h_2 hnone =>
    -- one of the two names no range, and so does the other
    have hparse : parseRetractionRange A = none ∧ parseRetractionRange B = none := by
      unfold parseRetractionRange at hnone ⊢
      rw [← hnumber] at hnone ⊢
      cases hfrom : A.from_action_index.toNumber with
      | none => exact ⟨rfl, rfl⟩
      | some lower => exact (hnone _ _ (by rw [hfrom]; rfl) (by rw [hfrom]; rfl)).elim
    simp only [iff_true]
    intro mirror _
    simp [RetractionMirror.applyRetraction, hparse.1, hparse.2]

end effect

/-- A fenced retraction of the calls a chain requested from index 5 on. -/
def callRetraction (upper : Field) : RetractionEvent :=
  { table := .cross_chain_calls
    source_chain := "BTC"
    from_action_index := .number ⟨5, by decide⟩
    to_action_index := upper
    retraction_generation := .number ⟨3, by decide⟩
    snapshot_block := .number ⟨970000, by decide⟩
    retraction_signatures := [] }

theorem callRetraction_numeric {upper : Field} (hupper : upper.Numeric) :
    (callRetraction upper).Numeric :=
  { lower := trivial
    upper := hupper
    gen := trivial
    block := trivial }

theorem canonical_binds_deletion_null :
    SameDeletion (fun _ _ _ => false) (callRetraction .absent) (callRetraction .null) ↔
      BindsDeletion (callRetraction .absent) (callRetraction .null) :=
  canonical_binds_deletion _ (by decide) (callRetraction_numeric (by decide))
    (callRetraction_numeric (by decide)) (by decide)

/-- An empty upper bound leaves no mark in the canonical string and ends the range at index 0. -/
theorem not_canonical_binds_deletion :
    ¬ ∀ (ed25519 : Ed25519) (A B : RetractionEvent), A.table ∈ QUORUM_CLASS_TABLES → A.Numeric →
      B.Numeric → canonicalRetraction A = canonicalRetraction B → SameDeletion ed25519 A B := by
  intro hclaim
  have h := hclaim (fun _ _ _ => false) (callRetraction .absent) (callRetraction (.text ""))
    (by decide) (callRetraction_numeric (by decide)) (callRetraction_numeric (by decide)) (by decide)
  have hrows := congrArg (fun m : RetractionMirror => (m.rows .cross_chain_calls).length)
    (h (mirrorWith (rowAt "BTC" 7)) rfl)
  revert hrows
  decide +kernel

end HubDbSync
