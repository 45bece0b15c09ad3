import XChainExplorer.Hub.Retractions

/-! # Checkpoints

    The row of a signed checkpoint, the string its validators sign, and the verdict a request for its
    verification is answered with. Three flag days shape the string: the commitment adds the roots of
    the state, the supersession what the checkpoint replaces, and the equivocation header comes in
    front of all. -/

namespace CheckpointProofs

open Consensus HubDbSync

/-! ### Flag days -/

/-- The network of a name. -/
def networkNamed (network : String) : Option Network :=
  match network with
  | "mainnet" => some .mainnet
  | "testnet" => some .testnet
  | "regtest" => some .regtest
  | _ => none

/-- From which height a checkpoint commits the state. -/
def CHECKPOINT_COMMITMENT_ACTIVATION : Network → ℕ
  | .mainnet => 961000
  | .testnet => 146000
  | .regtest => 0

/-- From which height what is signed starts with a round's key. -/
def EQUIV_HEADER_ACTIVATION : Network → ℕ
  | .mainnet => 961000
  | .testnet | .regtest => 0

/-- Read for `BTC`. The main network is not pinned to a height yet. -/
def CHECKPOINT_SUPERSEDE_ACTIVATION : Network → Option ℕ
  | .mainnet => none
  | .testnet => some 158557
  | .regtest => some 0

/-- A checkpoint commits the state. -/
def isCheckpointCommitmentActive (snapshotBlock : ℕ) (network : String) : Bool :=
  activeAt CHECKPOINT_COMMITMENT_ACTIVATION (networkNamed network) snapshotBlock

/-- What is signed starts with a round's key. -/
def isEquivHeaderActive (snapshotBlock : ℕ) (network : String) : Bool :=
  activeAt EQUIV_HEADER_ACTIVATION (networkNamed network) snapshotBlock

/-- The quorum is one of stake. -/
def isStakeWeightedQuorumActive (snapshotBlock : ℕ) (network : String) : Bool :=
  activeAt STAKE_WEIGHTED_QUORUM_ACTIVATION (networkNamed network) snapshotBlock

/-- A checkpoint may supersede another. -/
def isCheckpointSupersedeActive (snapshotBlock : ℕ) (network : String) : Bool :=
  ((networkNamed network).bind CHECKPOINT_SUPERSEDE_ACTIVATION).any (· ≤ snapshotBlock)

/-! ### The row -/

/-- A row of `state_checkpoints`. Its signatures are `none` where the column does not parse. -/
structure Checkpoint where
  chain : String
  network : String
  block_index : ℕ
  block_hash : String
  ledger_hash : String
  actions_hash : String
  contract_hash : String
  checkpoint_seq : ℕ
  snapshot_block : ℕ
  supersedes_from : Option ℕ
  rules_digest : Option String
  state_root : Option String
  state_root_version : Option ℕ
  block_merkle_root : Option String
  block_merkle_version : Option ℕ
  validator_signatures : Option (List RetractionSignature)
  deriving DecidableEq

/-- A checkpoint that says so. -/
def hasSupersedeFields (cp : Checkpoint) : Bool :=
  cp.supersedes_from.isSome || cp.rules_digest.isSome

/-! ### The signing string -/

/-- The bytes of a supersession, `none` where it is half given or malformed and the code throws. -/
def supersedeSuffix (cp : Checkpoint) : Option String :=
  match cp.supersedes_from, cp.rules_digest with
  | none, none => some ""
  | some since, some digest =>
    if since < 2 ^ 53 ∧ isHex 64 digest.toLower then
      some ("|SUPERSEDE|" ++ since.repr ++ "|" ++ digest.toLower)
    else none
  | _, _ => none

/-- The roots and their versions, where all four are there. -/
def commitment (cp : Checkpoint) : Option (String × ℕ × String × ℕ) :=
  match cp.state_root, cp.state_root_version, cp.block_merkle_root, cp.block_merkle_version with
  | some root, some version, some merkle, some merkleVersion =>
    some (root, version, merkle, merkleVersion)
  | _, _, _, _ => none

/-- The part of the text that commits the state. -/
def commitmentSuffix : String × ℕ × String × ℕ → String
  | (root, version, merkle, merkleVersion) =>
    "|" ++ "|".intercalate [root.toLower, version.repr, merkle.toLower, merkleVersion.repr]

/-- The tag of the checkpoints' rounds. -/
def ENGINE_TAG_CHECKPOINT : String := "XCHECKPOINT"

/-- The key of a round. -/
def equivKey (engineTag roundId : String) (view : ℕ) : String :=
  engineTag ++ "|" ++ roundId ++ "|" ++ view.repr

/-- It as the text starts with it. -/
def equivPrefix (key : String) : String := "EQUIV|" ++ key ++ "||"

/-- A text under the key of its round. -/
def buildEquivCanonical (engineTag roundId : String) (view : ℕ) (content : String) : String :=
  equivPrefix (equivKey engineTag roundId view) ++ content

/-- The ten fields every checkpoint signs. -/
def baseFields (cp : Checkpoint) : List String :=
  ["XCHECKPOINT", cp.chain, cp.network, cp.block_index.repr, cp.block_hash, cp.ledger_hash,
    cp.actions_hash, cp.contract_hash, cp.checkpoint_seq.repr, cp.snapshot_block.repr]

/-- The base, and behind it the roots where the flag day commits them. -/
def rootedString (cp : Checkpoint) : String :=
  let base := "|".intercalate (baseFields cp)
  match commitment cp with
  | some roots =>
    if isCheckpointCommitmentActive cp.snapshot_block cp.network then base ++ commitmentSuffix roots
    else base
  | none => base

/-- The text that the validators sign, if the checkpoint has all it needs. -/
def canonicalCheckpointString (cp : Checkpoint) : Option String :=
  let suffix :=
    if isCheckpointSupersedeActive cp.snapshot_block cp.network then supersedeSuffix cp else some ""
  suffix.map fun suffix =>
    if isEquivHeaderActive cp.snapshot_block cp.network then
      buildEquivCanonical ENGINE_TAG_CHECKPOINT
        (cp.chain ++ "|" ++ cp.network ++ "|" ++ cp.block_index.repr ++ "|" ++
          cp.checkpoint_seq.repr) 0 (rootedString cp ++ suffix)
    else rootedString cp ++ suffix

/-! ### The verdict -/

theorem toList_toLower (s : String) : s.toLower.toList = s.toList.map Char.toLower :=
  String.toList_map

/-- The keys and the signatures may be in either case, and an empty payload verifies nothing. -/
def ed25519Verify (ed25519 : Ed25519) (payload sig pubkey : String) : Bool :=
  payload ≠ "" && isHex 64 pubkey.toLower && isHex 128 sig.toLower &&
    ed25519 payload sig.toLower pubkey.toLower

/-- A text of one repeated digit, such as a key or a signature. -/
def repeated (n : ℕ) (c : Char) : String := String.ofList (List.replicate n c)

theorem toLower_repeated {n : ℕ} {c : Char} (hc : c.toLower = c) :
    (repeated n c).toLower = repeated n c := by
  apply String.toList_injective
  rw [toList_toLower, repeated, String.toList_ofList, List.map_replicate, hc]

theorem isHex_repeated {n : ℕ} {c : Char} (hc : (c.isDigit || ('a' ≤ c && c ≤ 'f')) = true) :
    isHex n (repeated n c) = true := by
  rw [isHex, repeated, String.toList_ofList, List.length_replicate, decide_eq_true rfl,
    Bool.true_and, List.all_eq_true]
  intro d hd
  rwa [List.eq_of_mem_replicate hd]

theorem repeated_inj {n : ℕ} {c d : Char} (hn : n ≠ 0) : repeated n c = repeated n d ↔ c = d := by
  rw [repeated, repeated, String.ofList_inj, List.replicate_right_inj hn]

theorem repeated_ne_empty {n : ℕ} {c : Char} (hn : n ≠ 0) : repeated n c ≠ "" := by
  intro h
  have hlist := congrArg String.toList h
  rw [repeated, String.toList_ofList] at hlist
  simp [hn] at hlist

/-- The distinct public keys of the snapshot. -/
def qualified (validators : List CapabilitySnapshot) : List String :=
  (validators.map fun v => v.signing_pubkey.toLower).dedup

/-- A row as it is served and judged: an amount that is missing stays missing. -/
def checkpointValidator (v : CapabilitySnapshot) : Validator where
  pubkey := v.signing_pubkey.toLower
  weight := v.amount
  source := some (v.source.getD "")

/-- The validators of a snapshot. -/
def checkpointValidatorSet (validators : List CapabilitySnapshot) : List Validator :=
  validators.map checkpointValidator

/-- The qualified keys with a signature that verifies, each of them once. -/
def countCheckpointSignatures (ed25519 : Ed25519) (canonical : String) (keys : List String)
    (sigs : List RetractionSignature) : List String :=
  sigs.foldl (fun seen s =>
    let pk := s.pubkey.toLower
    if pk ≠ "" ∧ pk ∉ seen ∧ pk ∈ keys ∧ ed25519Verify ed25519 canonical s.sig pk then seen ++ [pk]
    else seen) []

/-- The verdict on a checkpoint. -/
structure VerifyResult where
  validators : List Validator
  is_weighted : Bool
  quorum : ℕ
  valid_sigs : ℕ
  valid_signers : List String
  verified : Bool
  commitment_missing : Bool
  snapshot_available : Bool
  signatures_unparseable : Bool

/-- From the flag day on a row without all four commitment fields is refused. -/
def commitmentMissing (cp : Checkpoint) : Bool :=
  isCheckpointCommitmentActive cp.snapshot_block cp.network &&
    (cp.state_root.all (· = "") || cp.block_merkle_root.all (· = "") ||
      cp.state_root_version.isNone || cp.block_merkle_version.isNone)

/-- Before the flag day a row with a supersession is refused. -/
def supersedeBelowGate (cp : Checkpoint) : Bool :=
  hasSupersedeFields cp && !isCheckpointSupersedeActive cp.snapshot_block cp.network

/-- The verdict, from the signatures that count towards the quorum. -/
def checkpointVerifyResult (ed25519 : Ed25519) (cp : Checkpoint) (canonical : String)
    (validators : List CapabilitySnapshot) : VerifyResult :=
  let keys := qualified validators
  let quorum := countQuorum keys.length
  let weighted := isStakeWeightedQuorumActive cp.snapshot_block cp.network
  let signers := countCheckpointSignatures ed25519 canonical keys (cp.validator_signatures.getD [])
  let validatorSet := checkpointValidatorSet validators
  { validators := validatorSet
    is_weighted := weighted
    quorum
    valid_sigs := signers.length
    valid_signers := signers
    verified := !commitmentMissing cp && !supersedeBelowGate cp && !keys.isEmpty &&
      if weighted then meetsStakeThreshold { validators := validatorSet } signers
      else quorum ≤ signers.length
    commitment_missing := commitmentMissing cp
    snapshot_available := !keys.isEmpty
    signatures_unparseable := cp.validator_signatures.isNone }

/-! ### The signers -/

section signers
variable {ed25519 : Ed25519} {canonical key : String} {keys : List String}
  {sigs : List RetractionSignature}

/-- One of the signatures is of the key, and verifies. -/
def SignedBy (ed25519 : Ed25519) (canonical : String) (sigs : List RetractionSignature)
    (key : String) : Prop :=
  ∃ s ∈ sigs, s.pubkey.toLower = key ∧ ed25519Verify ed25519 canonical s.sig key = true

/-- The signers are distinct keys of the snapshot that one of the signatures verifies for. -/
structure Signers (ed25519 : Ed25519) (canonical : String) (sigs : List RetractionSignature)
    (keys signers : List String) : Prop where
  nodup : signers.Nodup
  subset : signers ⊆ keys
  signed : ∀ key ∈ signers, SignedBy ed25519 canonical sigs key

theorem Signers.append {signers : List String} (h : Signers ed25519 canonical sigs keys signers)
    (hnew : key ∉ signers) (hkey : key ∈ keys) (hsig : SignedBy ed25519 canonical sigs key) :
    Signers ed25519 canonical sigs keys (signers ++ [key]) where
  nodup := by
    rw [List.nodup_append]
    refine ⟨h.nodup, List.nodup_singleton key, ?_⟩
    intro a ha b hb hab
    rw [List.mem_singleton.mp hb] at hab
    exact hnew (hab ▸ ha)
  subset := by
    intro a ha
    rcases List.mem_append.mp ha with ha | ha
    · exact h.subset ha
    · rwa [List.mem_singleton.mp ha]
  signed := by
    intro a ha
    rcases List.mem_append.mp ha with ha | ha
    · exact h.signed a ha
    · rwa [List.mem_singleton.mp ha]

theorem signers_countCheckpointSignatures (ed25519 : Ed25519) (canonical : String)
    (keys : List String) (sigs : List RetractionSignature) :
    Signers ed25519 canonical sigs keys (countCheckpointSignatures ed25519 canonical keys sigs) := by
  unfold countCheckpointSignatures
  refine List.foldlRecOn sigs _ (motive := Signers ed25519 canonical sigs keys) ?_ ?_
  · exact ⟨List.nodup_nil, List.nil_subset _, by simp⟩
  · intro seen h s hmem
    dsimp only
    split_ifs with hs
    · exact h.append hs.2.1 hs.2.2.1 ⟨s, hmem, rfl, hs.2.2.2⟩
    · exact h

end signers

end CheckpointProofs
