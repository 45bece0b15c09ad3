import XChainExplorer.Explorer.Proofs
import XChainExplorer.Consensus.StakeQuorum

/-! # The two quorum verifiers

    A retraction at the mirror and a checkpoint at the explorer are tallied over the same rows by two
    pieces of code. They count the same signers. The totals agree where no source's first amount is
    missing, which only the mirror reads as zero; the counts agree where the rows of a key do not
    raise the quorum, since only the mirror counts rows and not keys. -/

namespace CheckpointProofs

open Consensus HubDbSync JsNumber Quorum

/-- What one verifier counts: the signers, the stake of the snapshot where it can be summed, the
    count a quorum needs, and its verdict. -/
structure Tally where
  signers : List String
  total : Option ℚ
  quorum : ℕ
  verdict : Bool

/-- The stake that two thirds are taken of. -/
def snapshotTotal (validators : List Validator) : Option ℚ :=
  (indexStakeSources validators).bind fun index => sumStakeWeights index.weightBySource

/-- One verdict over one set of signers, by one total or one count. -/
structure Agree (weighted : Bool) (a b : Tally) : Prop where
  verdict : a.verdict = b.verdict
  signers : a.signers = b.signers
  bar : if weighted then a.total = b.total else a.quorum = b.quorum

/-- The tally of `verifyRetractionSignatures`. -/
def retractionTally (ed25519 : Ed25519) (weighted : Bool) (rows : List CapabilitySnapshot)
    (canonical : String) (sigs : List RetractionSignature) : Tally :=
  let validators := rows.map (·.retractionValidator)
  let signers := validSigners ed25519 canonical (validators.map (·.pubkey)) sigs
  { signers
    total := snapshotTotal validators
    quorum := countQuorum validators.length
    verdict := !sigs.isEmpty && !rows.isEmpty &&
      if weighted then meetsStakeThreshold { validators } signers
      else countQuorum validators.length ≤ signers.length }

/-- The tally of `checkpointVerifyResult`. -/
def checkpointTally (ed25519 : Ed25519) (weighted : Bool) (rows : List CapabilitySnapshot)
    (canonical : String) (sigs : List RetractionSignature) : Tally :=
  let keys := qualified rows
  let signers := countCheckpointSignatures ed25519 canonical keys sigs
  { signers
    total := snapshotTotal (checkpointValidatorSet rows)
    quorum := countQuorum keys.length
    verdict := !keys.isEmpty &&
      if weighted then meetsStakeThreshold { validators := checkpointValidatorSet rows } signers
      else countQuorum keys.length ≤ signers.length }

theorem verifyRetractionSignatures_eq (ed25519 : Ed25519) (mirror : RetractionMirror)
    (event : RetractionEvent) {sb : ℚ} (hsb : event.snapshot_block.toNumber = some sb) :
    mirror.verifyRetractionSignatures ed25519 event =
      (0 ≤ sb && activeAt RETRACTION_SIGNING_ACTIVATION mirror.network sb &&
        (retractionTally ed25519 (activeAt STAKE_WEIGHTED_QUORUM_ACTIVATION mirror.network sb)
          ((mirror.capability_snapshots.getD []).filter fun r => (r.snapshot_block : ℚ) = sb)
          (canonicalRetraction event) event.retraction_signatures).verdict) := by
  simp only [RetractionMirror.verifyRetractionSignatures, hsb, retractionTally, meetsQuorum]
  split_ifs <;> simp only [Bool.and_assoc]

theorem verified_eq (ed25519 : Ed25519) (cp : Checkpoint) (canonical : String)
    (rows : List CapabilitySnapshot) :
    (checkpointVerifyResult ed25519 cp canonical rows).verified =
      (!commitmentMissing cp && !supersedeBelowGate cp &&
        (checkpointTally ed25519 (isStakeWeightedQuorumActive cp.snapshot_block cp.network) rows
          canonical (cp.validator_signatures.getD [])).verdict) := by
  simp only [checkpointVerifyResult, checkpointTally, Bool.and_assoc]

/-! ### The signers -/

theorem toLower_toLower (s : String) : s.toLower.toLower = s.toLower := by
  have hchar (c : Char) : c.toLower.toLower = c.toLower := by
    by_cases hupper : c.val ≥ 'A'.val ∧ c.val ≤ 'Z'.val
    · -- a letter of the lower case is none of the upper
      have hval : c.toLower.val.toNat = c.val.toNat + 32 := by
        have hle : c.val.toNat ≤ 90 := UInt32.le_iff_toNat_le.mp hupper.2
        have hlower : c.toLower.val.toNat = (c.val.toNat + 32) % 2 ^ 32 :=
          congrArg (fun d : Char => d.val.toNat) (dif_pos hupper)
        omega
      have hge : 65 ≤ c.val.toNat := UInt32.le_iff_toNat_le.mp hupper.1
      refine dif_neg fun h => ?_
      have hle : c.toLower.val.toNat ≤ 90 := UInt32.le_iff_toNat_le.mp h.2
      omega
    · have hsame : c.toLower = c := dif_neg hupper
      rw [hsame, hsame]
  apply String.toList_injective
  rw [toList_toLower, toList_toLower, List.map_map]
  exact List.map_congr_left fun c _ => hchar c

section rows
variable {rows : List CapabilitySnapshot} {ed25519 : Ed25519} {canonical : String}
  {sigs : List RetractionSignature}

theorem mem_qualified {key : String} :
    key ∈ qualified rows ↔ key ∈ (rows.map (·.retractionValidator)).map (·.pubkey) := by
  rw [qualified, List.mem_dedup, List.map_map]
  rfl

/-- Over one canonical string the two verifiers count the same signers. -/
theorem signers_eq (ed25519 : Ed25519) (rows : List CapabilitySnapshot)
    (sigs : List RetractionSignature) (hcanonical : canonical ≠ "") :
    validSigners ed25519 canonical ((rows.map (·.retractionValidator)).map (·.pubkey)) sigs =
      countCheckpointSignatures ed25519 canonical (qualified rows) sigs := by
  have hverify (sig key : String) : verifyEd25519 ed25519 canonical sig.toLower key.toLower =
      ed25519Verify ed25519 canonical sig key.toLower := by
    rw [ed25519Verify, verifyEd25519, toLower_toLower, decide_eq_true hcanonical, Bool.true_and]
  simp only [validSigners, countCheckpointSignatures, mem_qualified, hverify]

theorem isEmpty_qualified : (qualified rows).isEmpty = rows.isEmpty := by
  cases rows with
  | nil => rfl
  | cons r rows =>
    rw [List.isEmpty_cons, List.isEmpty_eq_false_iff]
    exact List.ne_nil_of_mem (List.mem_dedup.mpr List.mem_cons_self)

/-! ### The stake -/

/-- The first row of each source gives an amount. -/
def AmountsGiven (rows : List CapabilitySnapshot) : Prop :=
  ∀ src r, (rows.find? fun r => (checkpointValidator r).namedSource = some src) = some r →
    r.amount.isSome

theorem namedSource_eq (r : CapabilitySnapshot) :
    r.retractionValidator.namedSource = (checkpointValidator r).namedSource := rfl

theorem firstWeight_checkpoint (src : String) : firstWeight (checkpointValidatorSet rows) src =
    (rows.find? fun r => (checkpointValidator r).namedSource = some src).bind fun r =>
      r.amount.bind bcnum := by
  rw [firstWeight, checkpointValidatorSet, List.find?_map, Option.bind_map]
  rfl

theorem firstWeight_retraction (src : String) :
    firstWeight (rows.map (·.retractionValidator)) src =
      (rows.find? fun r => (checkpointValidator r).namedSource = some src).bind fun r =>
        bcnum (r.amount.getD "0") := by
  rw [firstWeight, List.find?_map, Option.bind_map]
  rfl

theorem sources_eq :
    sources (rows.map (·.retractionValidator)) = sources (checkpointValidatorSet rows) := by
  rw [sources, sources, checkpointValidatorSet, List.filterMap_map, List.filterMap_map]
  rfl

theorem lastSource_eq (key : String) :
    lastSource (rows.map (·.retractionValidator)) key = lastSource (checkpointValidatorSet rows) key := by
  rw [lastSource, lastSource, checkpointValidatorSet, ← List.map_reverse, ← List.map_reverse,
    List.find?_map, List.find?_map, Option.bind_map, Option.bind_map]
  rfl

theorem AmountsGiven.firstWeight_eq (h : AmountsGiven rows) (src : String) :
    firstWeight (rows.map (·.retractionValidator)) src =
      firstWeight (checkpointValidatorSet rows) src := by
  rw [firstWeight_checkpoint, firstWeight_retraction]
  refine Option.bind_congr fun r hr => ?_
  obtain ⟨amount, hamount⟩ := Option.isSome_iff_exists.mp (h src r hr)
  rw [hamount]
  rfl

theorem AmountsGiven.weightOf_eq (h : AmountsGiven rows) :
    weightOf (rows.map (·.retractionValidator)) = weightOf (checkpointValidatorSet rows) := by
  funext src
  rw [weightOf, h.firstWeight_eq, weightOf]

/-- Where every first amount is there, both snapshots can be weighed or neither can. -/
theorem AmountsGiven.weighable_iff (h : AmountsGiven rows) :
    Weighable (rows.map (·.retractionValidator)) ↔ Weighable (checkpointValidatorSet rows) := by
  have hnamed : (∀ v ∈ rows.map (·.retractionValidator), v.namedSource.isSome) ↔
      ∀ v ∈ checkpointValidatorSet rows, v.namedSource.isSome := by
    simp only [checkpointValidatorSet, List.forall_mem_map, namedSource_eq]
  constructor
  · rintro ⟨⟨hsome, hweighed⟩, hnonneg, hstaked⟩
    simp only [sources_eq, h.firstWeight_eq, h.weightOf_eq] at hweighed hnonneg hstaked
    exact ⟨⟨hnamed.mp hsome, hweighed⟩, hnonneg, hstaked⟩
  · rintro ⟨⟨hsome, hweighed⟩, hnonneg, hstaked⟩
    simp only [← sources_eq, ← h.firstWeight_eq, ← h.weightOf_eq] at hweighed hnonneg hstaked
    exact ⟨⟨hnamed.mpr hsome, hweighed⟩, hnonneg, hstaked⟩

/-- A snapshot whose missing amounts stay missing is weighed only where there are none. -/
theorem amountsGiven_of_weighable (h : Weighable (checkpointValidatorSet rows)) :
    AmountsGiven rows := by
  intro src r hr
  have hsrc : src ∈ sources (checkpointValidatorSet rows) := by
    have hfound := List.find?_some hr
    exact mem_sources.mpr ⟨checkpointValidator r,
      List.mem_map_of_mem (List.mem_of_find?_eq_some hr), of_decide_eq_true hfound⟩
  have hweighed := h.sourced.weighed src hsrc
  rw [firstWeight_checkpoint, hr, Option.bind_some] at hweighed
  cases hamount : r.amount with
  | none =>
    rw [hamount] at hweighed
    cases hweighed
  | some amount => rfl

theorem snapshotTotal_eq_some {validators : List Validator} {total : ℚ} :
    snapshotTotal validators = some total ↔
      Weighable validators ∧ total = ∑ src ∈ sources validators, weightOf validators src := by
  constructor
  · intro h
    obtain ⟨index, hindex, htotal⟩ := Option.bind_eq_some_iff.mp h
    exact (sumStakeWeights_eq_some (indexed_of_indexStakeSources hindex)).mp htotal
  · intro h
    obtain ⟨index, hindex⟩ := h.1.sourced.exists_index
    rw [snapshotTotal, hindex, Option.bind_some]
    exact (sumStakeWeights_eq_some (indexed_of_indexStakeSources hindex)).mpr h

theorem snapshotTotal_eq_none {validators : List Validator} (h : ¬ Weighable validators) :
    snapshotTotal validators = none := by
  by_contra hne
  obtain ⟨total, htotal⟩ := Option.ne_none_iff_exists'.mp hne
  exact h (snapshotTotal_eq_some.mp htotal).1

theorem not_meetsStakeThreshold {validators : List Validator} (h : ¬ Weighable validators)
    (signers : List String) : meetsStakeThreshold { validators } signers = false := by
  rw [← Bool.not_eq_true, meetsStakeThreshold_iff]
  exact fun hmeets => h hmeets.2.1

theorem meetsStakeThreshold_nil (validators : List Validator) :
    meetsStakeThreshold { validators } [] = false := by
  rw [← Bool.not_eq_true, meetsStakeThreshold_iff]
  rintro ⟨-, hw, hheavy⟩
  have hnone : signed validators [] = ∅ := rfl
  dsimp only at hheavy hw
  rw [hnone, Heavy, Finset.sum_empty, zero_mul] at hheavy
  linarith [hw.staked]

/-- Either every first amount is there, or neither snapshot can be weighed. -/
theorem stake_congr (h : AmountsGiven rows ∨ ¬ Weighable (rows.map (·.retractionValidator))) :
    snapshotTotal (rows.map (·.retractionValidator)) = snapshotTotal (checkpointValidatorSet rows) ∧
      ∀ signers, meetsStakeThreshold { validators := rows.map (·.retractionValidator) } signers =
        meetsStakeThreshold { validators := checkpointValidatorSet rows } signers := by
  by_cases hgiven : AmountsGiven rows
  · have hsigned (signers : List String) : signed (rows.map (·.retractionValidator)) signers =
        signed (checkpointValidatorSet rows) signers := by
      ext src
      simp only [mem_signed, lastSource_eq]
    refine ⟨?_, fun signers => ?_⟩
    · ext total
      simp only [snapshotTotal_eq_some, hgiven.weighable_iff, hgiven.weightOf_eq, sources_eq]
    · rw [Bool.eq_iff_iff, meetsStakeThreshold_iff, meetsStakeThreshold_iff]
      simp only [hgiven.weighable_iff, hgiven.weightOf_eq, sources_eq, hsigned]
  · have hnot := h.resolve_left hgiven
    have hnot' : ¬ Weighable (checkpointValidatorSet rows) := fun hw =>
      hgiven (amountsGiven_of_weighable hw)
    refine ⟨?_, fun signers => ?_⟩
    · rw [snapshotTotal_eq_none hnot, snapshotTotal_eq_none hnot']
    · rw [not_meetsStakeThreshold hnot, not_meetsStakeThreshold hnot']

theorem stake_condition
    (h : snapshotTotal (rows.map (·.retractionValidator)) = snapshotTotal (checkpointValidatorSet rows)) :
    AmountsGiven rows ∨ ¬ Weighable (rows.map (·.retractionValidator)) := by
  by_cases hw : Weighable (rows.map (·.retractionValidator))
  · have htotal := snapshotTotal_eq_some.mpr ⟨hw, rfl⟩
    rw [h] at htotal
    exact .inl (amountsGiven_of_weighable (snapshotTotal_eq_some.mp htotal).1)
  · exact .inr hw

/-! ### The agreement -/

/-- The rows the two verifiers tally alike. -/
def TalliedAlike (weighted : Bool) (rows : List CapabilitySnapshot) : Prop :=
  if weighted then AmountsGiven rows ∨ ¬ Weighable (rows.map (·.retractionValidator))
  else countQuorum rows.length = countQuorum (qualified rows).length

theorem TalliedAlike.agree {weighted : Bool} (h : TalliedAlike weighted rows)
    (hcanonical : canonical ≠ "") :
    Agree weighted (retractionTally ed25519 weighted rows canonical sigs)
      (checkpointTally ed25519 weighted rows canonical sigs) := by
  have hsigners := signers_eq ed25519 rows sigs hcanonical
  have hnil : sigs.isEmpty = true →
      countCheckpointSignatures ed25519 canonical (qualified rows) sigs = [] := by
    intro hempty
    rw [List.isEmpty_iff.mp hempty]
    rfl
  refine ⟨?_, hsigners, ?_⟩
  · simp only [retractionTally, checkpointTally, hsigners, isEmpty_qualified, List.length_map]
    cases weighted with
    | true =>
      have hstake := (stake_congr h).2
      simp only [if_true, hstake]
      cases hempty : sigs.isEmpty with
      | false => simp
      | true => simp [hnil hempty, meetsStakeThreshold_nil]
    | false =>
      have hquorum : countQuorum rows.length = countQuorum (qualified rows).length := h
      simp only [Bool.false_eq_true, if_false, hquorum]
      cases hempty : sigs.isEmpty with
      | false => simp
      | true =>
        have hpos : 0 < countQuorum (qualified rows).length := by
          unfold countQuorum
          split_ifs <;> omega
        simp [hnil hempty, hpos.ne']
  · cases weighted with
    | true => exact (stake_congr h).1
    | false =>
      change countQuorum (rows.map (·.retractionValidator)).length = _
      rw [List.length_map]
      exact h

end rows

/-- One question of one quorum put to both verifiers, each past its own gates: the rows of the block
    that the retraction names are the rows the checkpoint is judged over. -/
structure Posed (weighted : Bool) (rows : List CapabilitySnapshot) (mirror : RetractionMirror)
    (event : RetractionEvent) (cp : Checkpoint) : Prop where
  block : ∃ sb : ℚ, event.snapshot_block.toNumber = some sb ∧ 0 ≤ sb ∧
    activeAt RETRACTION_SIGNING_ACTIVATION mirror.network sb = true ∧
    activeAt STAKE_WEIGHTED_QUORUM_ACTIVATION mirror.network sb = weighted ∧
    ((mirror.capability_snapshots.getD []).filter fun r => (r.snapshot_block : ℚ) = sb) = rows
  regime : isStakeWeightedQuorumActive cp.snapshot_block cp.network = weighted
  signatures : cp.validator_signatures = some event.retraction_signatures
  committed : commitmentMissing cp = false
  superseding : supersedeBelowGate cp = false

theorem canonicalRetraction_ne_empty (event : RetractionEvent) : canonicalRetraction event ≠ "" := by
  intro h
  have hlist := congrArg String.toList h
  rw [canonicalRetraction_toList] at hlist
  simp at hlist

/-- Over rows they tally alike the two verifiers give one verdict. -/
theorem TalliedAlike.verified_eq {weighted : Bool} {rows : List CapabilitySnapshot}
    {mirror : RetractionMirror} {event : RetractionEvent} {cp : Checkpoint}
    (h : TalliedAlike weighted rows) (ed25519 : Ed25519)
    (hposed : Posed weighted rows mirror event cp) :
    mirror.verifyRetractionSignatures ed25519 event =
      (checkpointVerifyResult ed25519 cp (canonicalRetraction event) rows).verified := by
  obtain ⟨sb, hsb, hnonneg, hsigning, hregime, hrows⟩ := hposed.block
  have hagree : Agree weighted
      (retractionTally ed25519 weighted rows (canonicalRetraction event) event.retraction_signatures)
      (checkpointTally ed25519 weighted rows (canonicalRetraction event) event.retraction_signatures) :=
    h.agree (canonicalRetraction_ne_empty event)
  rw [verifyRetractionSignatures_eq ed25519 mirror event hsb, CheckpointProofs.verified_eq, hsigning,
    hregime, hrows, hposed.regime, hposed.signatures, hposed.committed, hposed.superseding,
    Option.getD_some, hagree.verdict, decide_eq_true hnonneg]
  simp only [Bool.not_false, Bool.true_and]

/-- The two verifiers tally every list of signatures alike exactly over the rows of `TalliedAlike`,
    and there they answer one question alike. -/
theorem quorum_verifiers_agree (weighted : Bool) (rows : List CapabilitySnapshot) :
    ((∀ ed25519 canonical sigs, canonical ≠ "" →
      Agree weighted (retractionTally ed25519 weighted rows canonical sigs)
        (checkpointTally ed25519 weighted rows canonical sigs)) ↔ TalliedAlike weighted rows) ∧
    (TalliedAlike weighted rows → ∀ ed25519 mirror event cp, Posed weighted rows mirror event cp →
      RetractionMirror.verifyRetractionSignatures ed25519 mirror event =
        (checkpointVerifyResult ed25519 cp (canonicalRetraction event) rows).verified) := by
  refine ⟨⟨fun h => ?_, fun h ed25519 canonical sigs hcanonical => h.agree hcanonical⟩,
    fun h ed25519 mirror event cp hposed => h.verified_eq ed25519 hposed⟩
  have hbar := (h (fun _ _ _ => true) "x" [] (by decide)).bar
  cases weighted with
  | true => exact stake_condition hbar
  | false =>
    have hquorum : countQuorum (rows.map (·.retractionValidator)).length =
        countQuorum (qualified rows).length := hbar
    rwa [List.length_map] at hquorum

/-- The validators of one block of the regression network. -/
def twoStakes : List CapabilitySnapshot :=
  [⟨5, "a", some "1", some "s"⟩, ⟨5, "b", some "2", some "t"⟩]

/-- A mirror that holds them and those of a block before. -/
def stakedMirror : RetractionMirror where
  coin := some "DOGE"
  getOwnRollbackGeneration := some (some 3)
  network := some .regtest
  capability_snapshots := some (⟨4, "c", none, none⟩ :: twoStakes)
  rows := fun _ => []

def signedDeletion : RetractionEvent where
  table := .cross_chain_matches
  source_chain := "BTC"
  from_action_index := .number ⟨7, by norm_num⟩
  to_action_index := .absent
  retraction_generation := .null
  snapshot_block := .number ⟨5, by norm_num⟩
  retraction_signatures := [⟨"a", "0f"⟩, ⟨"B", "1e"⟩]

def signedCheckpoint : Checkpoint :=
  { chain := "BTC"
    network := "regtest"
    block_index := 7
    block_hash := "b0"
    ledger_hash := "1e"
    actions_hash := "ac"
    contract_hash := "c0"
    checkpoint_seq := 1
    snapshot_block := 5
    supersedes_from := none
    rules_digest := none
    state_root := some "d1"
    state_root_version := some 1
    block_merkle_root := some "ee"
    block_merkle_version := some 1
    validator_signatures := some signedDeletion.retraction_signatures }

theorem posed_twoStakes : Posed true twoStakes stakedMirror signedDeletion signedCheckpoint where
  block := ⟨5, rfl, by norm_num, by decide +kernel, by decide +kernel, by decide +kernel⟩
  regime := by decide +kernel
  signatures := rfl
  committed := by decide +kernel
  superseding := by decide +kernel

theorem amountsGiven_twoStakes : AmountsGiven twoStakes := by
  intro src r hr
  have hgiven : ∀ r ∈ twoStakes, r.amount.isSome := by decide
  exact hgiven r (List.mem_of_find?_eq_some hr)

theorem quorum_verifiers_agree_twoStakes :
    stakedMirror.verifyRetractionSignatures (fun _ _ _ => true) signedDeletion =
      (checkpointVerifyResult (fun _ _ _ => true) signedCheckpoint (canonicalRetraction signedDeletion)
        twoStakes).verified :=
  (quorum_verifiers_agree true twoStakes).2 (.inl amountsGiven_twoStakes) _ _ _ _ posed_twoStakes

/-- Two sources, one of a missing amount. -/
def missingAmount : List CapabilitySnapshot :=
  [⟨0, "a", none, some "s"⟩, ⟨0, "b", some "1", some "t"⟩]

/-- The mirror sums a snapshot that the explorer refuses to sum. -/
theorem not_quorum_verifiers_agree : ¬ ∀ (ed25519 : Ed25519) (weighted : Bool)
    (rows : List CapabilitySnapshot) (canonical : String) (sigs : List RetractionSignature),
    (rows.map fun r => (r.signing_pubkey, r.source)).Nodup → canonical ≠ "" →
      Agree weighted (retractionTally ed25519 weighted rows canonical sigs)
        (checkpointTally ed25519 weighted rows canonical sigs) := by
  intro h
  have hbar := (h (fun _ _ _ => true) true missingAmount "x" [] (by decide) (by decide)).bar
  revert hbar
  decide +kernel

end CheckpointProofs
