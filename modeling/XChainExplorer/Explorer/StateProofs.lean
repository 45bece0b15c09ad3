import XChainExplorer.Explorer.ActionProofs
import XChainExplorer.Explorer.StoredLeaf

/-! # State proofs

    Each endpoint proves keys against one sub-root of a state row, and the sub-root against the root of
    all of them, which has to be the checkpoint's. The row names the slots that were committed at its
    height; a slot without a root there is the empty tree. -/

namespace ProofServer

open Merkle CheckpointReads Consensus

/-! ### The top of the state tree -/

/-- The subtrees of the state, in the order of their leaves. -/
inductive Slot
  | balances_root | stakes_root | ownership_root | tokens_root | contract_state_root
  deriving DecidableEq

/-- All of them. -/
def STATE_SUBTREES : List Slot :=
  [.balances_root, .stakes_root, .ownership_root, .tokens_root, .contract_state_root]

/-- The root of a tree that holds nothing. -/
def EMPTY_SMT_ROOT : Bytes := EMPTY SMT_DEPTH

/-- A text that is not empty. -/
def truthy (text : Option String) : Option String := text.filter (· ≠ "")

/-- The leaf of a subtree. One without a root counts as empty. -/
def slotLeaf (root : Option String) : Bytes :=
  match truthy root with
  | none => EMPTY_SMT_ROOT
  | some hex => toBuf hex

/-- The root over the subtrees. -/
def stateRoot (subRoots : Slot → Option String) : Option Bytes :=
  fixedMerkleRoot (STATE_SUBTREES.map fun name => slotLeaf (subRoots name))

/-- The path of a subtree to that root. -/
def stateRootProof (subRoots : Slot → Option String) (name : Slot) : Option (Except String FixedMerkleProof) :=
  fixedMerkleProof (STATE_SUBTREES.map fun name => slotLeaf (subRoots name)) (STATE_SUBTREES.idxOf name)

/-- The roots a row commits. The row has no column for the other two slots. -/
def subRoots (tr : StateTreeRow) : Slot → Option String
  | .balances_root => tr.balances_root
  | .stakes_root => tr.stakes_root
  | .contract_state_root => truthy tr.contract_state_root
  | .ownership_root | .tokens_root => none

/-- The root that the row assembles to, where it is the checkpoint's. -/
def bindRoots (cp : Served) (tr : StateTreeRow) : Option (Except String String) :=
  (stateRoot (subRoots tr)).map fun root =>
    if (cp.field .state_root).given ∧ (cp.field .state_root).toText ≠ "" ∧
        rootText (cp.field .state_root) ≠ toHex root then
      .error "PROOF_STATE_ROOT_MISMATCH"
    else .ok (toHex root)

/-! ### One proof -/

/-- The part of a proof that is served. -/
structure SmtPart where
  key : String
  leaf_value : Option String
  compressed : CompressedProof
  deriving DecidableEq

/-- What is served of the proof of a key. -/
def provePart (getStateNode : NodeStore) (rootHex : Option String) (keyBuf : Bytes) : SmtPart where
  key := (prove getStateNode (rootHex.getD "null") keyBuf).key
  leaf_value := (prove getStateNode (rootHex.getD "null") keyBuf).leaf_value
  compressed := (prove getStateNode (rootHex.getD "null") keyBuf).compressed

/-- The reads of the proof server. -/
structure StateReads where
  getCheckpointAtOrAbove : Option ℕ → Option Served
  getCheckpointAt : ℕ → Option Served
  getStateTreeRow : CheckpointReads.Cell → Option StateTreeRow
  getStateNode : NodeStore
  getNetBalance18AtHeight : String → String → CheckpointReads.Cell → Option String
  getLockedAmountAtHeight : String → String → CheckpointReads.Cell → Option String
  getContractStateValueAtHeight : String → String → CheckpointReads.Cell → Option String
  getMaxBlockIndex : Option ℕ

/-- What was asked for, and its value at the checkpoint's height. -/
inductive Claimed
  | amount (address tick amount : String)
  | contractState (contract_index state_key : String) (state_value : Option String)
  deriving DecidableEq

/-- A proof as it is served. -/
structure StateProof where
  chain : String
  network : String
  height : Option ℚ
  claimed : Claimed
  smt_proof : SmtPart
  sub_root_path : FixedMerkleProof
  contract_state_root : Option String
  balances_root : Option String
  stakes_root : Option String
  state_root : String
  state_root_version : CheckpointReads.Cell

/-- A proof under its checkpoint, or an error. -/
inductive StateAnswer
  | error (code : String)
  | served (proof : StateProof) (checkpoint : Shaped)

/-- The proof of a key under a slot, once the row is bound to the checkpoint. -/
def serveState (db : StateReads) (staleLagBlocks : ℕ) (chain network : String) (cp : Served) (tr : StateTreeRow)
    (slot : Slot) (key : Except String Bytes32) (claimed : Option String → Except String Claimed) :
    Option (Except String StateAnswer) :=
  (bindRoots cp tr).bind fun
    | .error code => some (.ok (.error code))
    | .ok assembled =>
      match key with
      | .error message => some (.error message)
      | .ok keyBuf =>
        let smt := provePart db.getStateNode (subRoots tr slot) keyBuf
        (stateRootProof (subRoots tr) slot).map fun path => do
          let sub ← path
          let claimed ← claimed smt.leaf_value
          return .served
            { chain := chain
              network := network
              height := (cp.field .block_index).toNumber
              claimed := claimed
              smt_proof := smt
              sub_root_path := sub
              contract_state_root := tr.contract_state_root
              balances_root := tr.balances_root
              stakes_root := tr.stakes_root
              state_root :=
                if (cp.field .state_root).given ∧ (cp.field .state_root).toText ≠ "" then
                  (cp.field .state_root).toText
                else assembled
              state_root_version := cp.field .state_root_version }
            (shapeCheckpoint staleLagBlocks cp db.getMaxBlockIndex)

/-! ### The endpoints -/

/-- The amount behind a leaf: zero without one. -/
def claimedAmount (address tick : String) (read : Option String) (leaf_value : Option String) :
    Except String Claimed :=
  (canonicalAmount (if leaf_value.isNone then some "0" else read)).map (Claimed.amount address tick)

/-- The proof of a balance. -/
def balanceProof (db : StateReads) (staleLagBlocks : ℕ) (chain network address tick : String)
    (height : Option ℕ) : Option (Except String StateAnswer) :=
  match db.getCheckpointAtOrAbove height with
  | none => some (.ok (.error "NO_CHECKPOINT"))
  | some cp =>
    if (cp.field .state_root).given = false then some (.ok (.error "CHECKPOINT_PRE_COMMITMENT"))
    else
      match db.getStateTreeRow (cp.field .block_index) with
      | none => some (.ok (.error "NO_STATE_TREE"))
      | some tr =>
        serveState db staleLagBlocks chain network cp tr .balances_root (balanceKey chain network address tick)
          (claimedAmount address tick (db.getNetBalance18AtHeight address tick (cp.field .block_index)))

/-- From which height the locked balances are committed. -/
def ESCROW_LOCKED_LEAF_ACTIVATION : String → Option ℕ
  | "BTC:regtest" => some 11200
  | "BTC:testnet" | "LTC:testnet" | "DOGE:testnet" => some 0
  | _ => none

/-- They are committed at a height. -/
def isEscrowLockedLeafActive (blockIndex : Option ℚ) (network coin : String) : Bool :=
  match blockIndex, ESCROW_LOCKED_LEAF_ACTIVATION (coin ++ ":" ++ network) with
  | some height, some threshold => height.den = 1 ∧ 0 ≤ height ∧ (threshold : ℚ) ≤ height
  | _, _ => false

/-- The proof of a locked balance, refused where none is committed. -/
def lockedBalanceProof (db : StateReads) (staleLagBlocks : ℕ) (chain network address tick : String)
    (height : Option ℕ) : Option (Except String StateAnswer) :=
  match db.getCheckpointAtOrAbove height with
  | none => some (.ok (.error "NO_CHECKPOINT"))
  | some cp =>
    if (cp.field .state_root).given = false then some (.ok (.error "CHECKPOINT_PRE_COMMITMENT"))
    else if isEscrowLockedLeafActive (cp.field .block_index).toNumber network chain = false then
      some (.ok (.error "ESCROW_LEAF_NOT_COMMITTED"))
    else
      match db.getStateTreeRow (cp.field .block_index) with
      | none => some (.ok (.error "NO_STATE_TREE"))
      | some tr =>
        serveState db staleLagBlocks chain network cp tr .balances_root (escrowKey chain network address tick)
          (claimedAmount address tick (db.getLockedAmountAtHeight address tick (cp.field .block_index)))

/-- The proof of a value in a contract's state. -/
def contractStateProof (db : StateReads) (staleLagBlocks : ℕ) (chain network contractIndex key : String)
    (height : Option ℕ) : Option (Except String StateAnswer) :=
  match db.getCheckpointAtOrAbove height with
  | none => some (.ok (.error "NO_CHECKPOINT"))
  | some cp =>
    if (cp.field .state_root).given = false then some (.ok (.error "CHECKPOINT_PRE_COMMITMENT"))
    else
      match db.getStateTreeRow (cp.field .block_index) with
      | none => some (.ok (.error "NO_STATE_TREE"))
      | some tr =>
        if (truthy tr.contract_state_root).isNone then some (.ok (.error "CONTRACT_STATE_NOT_COMMITTED"))
        else
          serveState db staleLagBlocks chain network cp tr .contract_state_root
            (contractStateKey chain network contractIndex key) fun leaf_value =>
              .ok (.contractState contractIndex key
                (if leaf_value.isNone then none
                  else db.getContractStateValueAtHeight contractIndex key (cp.field .block_index)))

/-! ### The validator set -/

/-- What the indexer answers for a capability. -/
inductive StakeAnswer
  | rejected (code : Option String)
  | nothing
  | failed (error : String)
  | weights (validators : List Validator) (truncated : Bool)

/-- The first weight of each source, as its text, in the order of the sources. -/
def weighSource (weights : List (String × String)) (v : Validator) : Except String (List (String × String)) :=
  match v.namedSource with
  | none => .error "stake_weighted_quorum.totalStake: blank/missing source would collapse the stake bucket"
  | some src =>
    if src ∈ weights.map Prod.fst then .ok weights
    else
      match v.weight with
      | none => .error "stake_weighted_quorum.totalStake: missing weight would silently lower S"
      | some weight =>
        if (bcnum weight).isNone then
          .error "stake_weighted_quorum.totalStake: nonnumeric weight would silently lower S"
        else .ok (weights ++ [(src, weight)])

/-- The sum of the weights, each source once. -/
def exactStakeTotal (validators : List Validator) : Except String String := do
  let weights ← validators.foldlM weighSource []
  if (weights.map Prod.snd).any fun w => (bcnum w).any (· < 0) then
    .error "stake_weighted_quorum.totalStake: negative weight in snapshot"
  else sumCanonicalAmounts (weights.map Prod.snd)

/-- A capability's stakes, each with its proof. -/
structure StakeSet where
  total : String
  total_proof : Option SmtPart
  validators : List (Validator × SmtPart)

/-- The proof of one validator's stake. -/
def proveStake (db : StateReads) (tr : StateTreeRow) (pubkey cap : String) : Except String SmtPart :=
  (stakeKey pubkey cap).map fun keyBuf => provePart db.getStateNode (subRoots tr .stakes_root) keyBuf

/-- The total has a leaf of its own unless it is zero. -/
def proveTotal (db : StateReads) (tr : StateTreeRow) (cap total zero : String) : Except String (Option SmtPart) :=
  if total ≠ zero then (proveStake db tr STAKE_TOTAL_PUBKEY cap).map some else .ok none

/-- The proofs of a capability's validators and of their total. -/
def proveStakeSet (db : StateReads) (tr : StateTreeRow) (cap : String) (validators : List Validator)
    (total : String) : Except String StakeSet := do
  let proven ← validators.mapM fun v => (proveStake db tr v.pubkey cap).map fun part => (v, part)
  let zero ← canonicalAmount (some "0")
  let totalProof ← proveTotal db tr cap total zero
  return { total, total_proof := totalProof, validators := proven }

/-- One capability: its set, nothing where the indexer has it not configured, or what refuses the request. -/
inductive CapabilityAnswer
  | error (code : String)
  | skipped
  | set (stakes : StakeSet)

/-- The answer for one capability. -/
def capabilitySetProof (db : StateReads) (tr : StateTreeRow) (cap : String) (answer : StakeAnswer) :
    Except String CapabilityAnswer :=
  match answer with
  | .rejected code =>
    .ok (.error (if code = some "INDEXER_AUTH_REQUIRED" then "INDEXER_AUTH_REQUIRED" else "INDEXER_UNAVAILABLE"))
  | .nothing => .ok (.error ("INDEXER_STAKE_WEIGHTS_UNAVAILABLE:" ++ cap))
  | .failed error =>
    if error.startsWith "capability not configured" then .ok .skipped
    else .ok (.error ("INDEXER_STAKE_WEIGHTS_UNAVAILABLE:" ++ cap))
  | .weights validators truncated =>
    if truncated then .ok (.error ("STAKE_SNAPSHOT_TRUNCATED:" ++ cap))
    else
      match exactStakeTotal validators with
      | .error message => .ok (.error ("STAKE_SNAPSHOT_MALFORMED:" ++ cap ++ ":" ++ message))
      | .ok total => (proveStakeSet db tr cap validators total).map .set

/-- The capabilities one after the other, up to the first that refuses the request. -/
def capabilitySets (db : StateReads) (tr : StateTreeRow) (stakeWeights : String → StakeAnswer) :
    List String → Except String (Except String (List (String × StakeSet)))
  | [] => .ok (.ok [])
  | cap :: caps =>
    match capabilitySetProof db tr cap (stakeWeights cap) with
    | .error message => .error message
    | .ok (.error code) => .ok (.error code)
    | .ok .skipped => capabilitySets db tr stakeWeights caps
    | .ok (.set stakes) =>
      (capabilitySets db tr stakeWeights caps).map fun rest => rest.map fun out => (cap, stakes) :: out

/-- The proofs of the validator sets as they are served. -/
structure ValidatorSetProof where
  chain : String
  network : String
  height : Option ℚ
  stakes_root : Option String
  balances_root : Option String
  sub_root_path : FixedMerkleProof
  state_root : String
  state_root_version : CheckpointReads.Cell
  capabilities : List (String × StakeSet)

/-- They under their checkpoint, or an error. -/
inductive ValidatorSetAnswer
  | error (code : String)
  | served (proof : ValidatorSetProof) (checkpoint : Shaped)

/-- From the bound row on. -/
def serveValidatorSet (db : StateReads) (staleLagBlocks : ℕ) (chain network : String) (cp : Served)
    (tr : StateTreeRow) (stakeWeights : String → StakeAnswer) (caps : List String) :
    Option (Except String ValidatorSetAnswer) :=
  (bindRoots cp tr).bind fun
    | .error code => some (.ok (.error code))
    | .ok assembled =>
      (stateRootProof (subRoots tr) .stakes_root).map fun path => do
        let sub ← path
        let out ← capabilitySets db tr stakeWeights caps
        match out with
        | .error code => return .error code
        | .ok sets =>
          return .served
            { chain := chain
              network := network
              height := (cp.field .block_index).toNumber
              stakes_root := tr.stakes_root
              balances_root := tr.balances_root
              sub_root_path := sub
              state_root :=
                if (cp.field .state_root).given ∧ (cp.field .state_root).toText ≠ "" then
                  (cp.field .state_root).toText
                else assembled
              state_root_version := cp.field .state_root_version
              capabilities := sets }
            (shapeCheckpoint staleLagBlocks cp db.getMaxBlockIndex)

/-- The proofs of the validator sets at a height. -/
def validatorSetProof (db : StateReads) (staleLagBlocks : ℕ) (chain network : String) (snapshotHeight : ℕ)
    (stakeWeights : String → StakeAnswer) (capabilities : List String) :
    Option (Except String ValidatorSetAnswer) :=
  if chain.toUpper ≠ "BTC" then some (.ok (.error "STAKES_BTC_ONLY"))
  else
    match db.getCheckpointAt snapshotHeight with
    | none => some (.ok (.error "SNAPSHOT_NOT_YET_CHECKPOINTED"))
    | some cp =>
      if (cp.field .state_root).given = false then some (.ok (.error "CHECKPOINT_PRE_COMMITMENT"))
      else
        match db.getStateTreeRow (.number snapshotHeight) with
        | none => some (.ok (.error "NO_STATE_TREE"))
        | some tr =>
          if tr.stakes_root.isNone then some (.ok (.error "NO_STATE_TREE"))
          else
            serveValidatorSet db staleLagBlocks chain network cp tr stakeWeights
              (if capabilities = [] then ["oracle_publish", "cross_chain"] else capabilities)

/-- A request for the proof of one key. -/
inductive StateRequest
  | balance (address tick : String)
  | lockedBalance (address tick : String)
  | contractState (contractIndex key : String)

/-- The answer to a request. -/
def stateProof (db : StateReads) (staleLagBlocks : ℕ) (chain network : String) (req : StateRequest)
    (height : Option ℕ) : Option (Except String StateAnswer) :=
  match req with
  | .balance address tick => balanceProof db staleLagBlocks chain network address tick height
  | .lockedBalance address tick => lockedBalanceProof db staleLagBlocks chain network address tick height
  | .contractState contractIndex key => contractStateProof db staleLagBlocks chain network contractIndex key height

/-- The key a request is about. -/
def StateRequest.key (chain network : String) : StateRequest → Except String Bytes32
  | balance address tick => balanceKey chain network address tick
  | lockedBalance address tick => escrowKey chain network address tick
  | contractState contractIndex key => contractStateKey chain network contractIndex key

/-- The subtree that a request is about. -/
def StateRequest.slot : StateRequest → Slot
  | balance _ _ | lockedBalance _ _ => .balances_root
  | contractState _ _ => .contract_state_root

/-- The sub-root a request is answered from. -/
def StateRequest.subRoot (req : StateRequest) (proof : StateProof) : Option String :=
  match req with
  | balance _ _ | lockedBalance _ _ => proof.balances_root
  | contractState _ _ => proof.contract_state_root

/-! ### Results that may be errors -/

theorem bind_eq_ok {ε α β : Type} {x : Except ε α} {f : α → Except ε β} {b : β} (h : (x >>= f) = .ok b) :
    ∃ a, x = .ok a ∧ f a = .ok b := by
  cases x with
  | error e => cases h
  | ok a => exact ⟨a, rfl, h⟩

theorem map_eq_ok {ε α β : Type} {x : Except ε α} {f : α → β} {b : β} (h : x.map f = .ok b) :
    ∃ a, x = .ok a ∧ f a = b := by
  cases x with
  | error e => cases h
  | ok a => exact ⟨a, rfl, Except.ok.inj h⟩

theorem mem_mapM_ok {ε α β : Type} {f : α → Except ε β} {l : List α} {out : List β} (h : l.mapM f = .ok out)
    {b : β} (hb : b ∈ out) : ∃ a ∈ l, f a = .ok b := by
  induction l generalizing out with
  | nil =>
    cases h
    cases hb
  | cons a l ih =>
    rw [List.mapM_cons] at h
    obtain ⟨b', hb', h⟩ := bind_eq_ok h
    obtain ⟨rest, hrest, h⟩ := bind_eq_ok h
    cases h
    rcases List.mem_cons.mp hb with rfl | hb
    · exact ⟨a, List.mem_cons_self, hb'⟩
    · obtain ⟨c, hc, hok⟩ := ih hrest hb
      exact ⟨c, List.mem_cons_of_mem _ hc, hok⟩

/-! ### What a client checks -/

/-- The root that the checkpoint binds, or that of the row where the checkpoint's is empty. -/
def boundRoot (checkpoint : Shaped) (state_root : String) : String :=
  if (checkpoint.field .state_root).toText = "" then state_root else rootText (checkpoint.field .state_root)

/-- A proof is one of the key, accepted against the sub-root, and the sub-root against the bound root. -/
def Verifies (bound : String) (M : SparseMerkleTree) (key : Except String Bytes32) (part : SmtPart)
    (sub : FixedMerkleProof) : Prop :=
  (∃ keyBuf : Bytes32, key = .ok keyBuf ∧ part.key = toHex keyBuf ∧
    verifyCompressedSmtProof M.rootHex keyBuf part.leaf_value part.compressed = .ok true) ∧
  verifyFixedMerkleProof bound M.root sub.index sub.siblings = true

theorem truthy_rootHex (M : SparseMerkleTree) : truthy (some M.rootHex) = some M.rootHex := by
  have hne : M.rootHex ≠ "" := by
    intro h
    have hnil : M.root = [] := toHex_inj.mp (h.trans (by rfl))
    have hlen := length_smtNode SMT_DEPTH M.pairs
    rw [← SparseMerkleTree.root, hnil] at hlen
    cases hlen
  rw [truthy, Option.filter_some, if_pos (decide_eq_true hne)]

theorem slotLeaf_rootHex (M : SparseMerkleTree) : slotLeaf (some M.rootHex) = M.root := by
  rw [slotLeaf, truthy_rootHex]
  exact toBuf_toHex M.root

/-- The path of a slot is accepted against the root of all of them. -/
theorem verify_stateRootProof {roots : Slot → Option String} {root : Bytes} {name : Slot}
    {sub : FixedMerkleProof} (hroot : stateRoot roots = some root)
    (h : stateRootProof roots name = some (.ok sub)) :
    verifyFixedMerkleProof (toHex root) (slotLeaf (roots name)) sub.index sub.siblings = true := by
  have hleaf : (STATE_SUBTREES.map fun name => slotLeaf (roots name))[STATE_SUBTREES.idxOf name]? =
      some (slotLeaf (roots name)) := by
    cases name <;> rfl
  obtain ⟨hindex, hverify⟩ := verify_fixedMerkleProof hroot hleaf h
  rw [hindex]
  exact hverify

theorem bindRoots_ok {cp : Served} {tr : StateTreeRow} {assembled : String}
    (h : bindRoots cp tr = some (.ok assembled)) :
    ∃ root, stateRoot (subRoots tr) = some root ∧ assembled = toHex root ∧
      ((cp.field .state_root).given → (cp.field .state_root).toText ≠ "" →
        rootText (cp.field .state_root) = toHex root) := by
  obtain ⟨root, hroot, hbind⟩ := Option.map_eq_some_iff.mp h
  split_ifs at hbind with hcheck
  refine ⟨root, hroot, (Except.ok.inj hbind).symm, fun hgiven htext => ?_⟩
  by_contra hne
  exact hcheck ⟨hgiven, htext, hne⟩

section Served

variable {db : StateReads} {staleLagBlocks : ℕ} {chain network : String} {cp : Served} {tr : StateTreeRow}

theorem serveState_served {slot : Slot} {key : Except String Bytes32}
    {claimed : Option String → Except String Claimed} {proof : StateProof} {checkpoint : Shaped}
    (h : serveState db staleLagBlocks chain network cp tr slot key claimed =
      some (.ok (.served proof checkpoint))) :
    ∃ assembled keyBuf, bindRoots cp tr = some (.ok assembled) ∧ key = .ok keyBuf ∧
      stateRootProof (subRoots tr) slot = some (.ok proof.sub_root_path) ∧
      proof.smt_proof = provePart db.getStateNode (subRoots tr slot) keyBuf ∧
      proof.balances_root = tr.balances_root ∧ proof.contract_state_root = tr.contract_state_root ∧
      proof.state_root = (if (cp.field .state_root).given ∧ (cp.field .state_root).toText ≠ "" then
        (cp.field .state_root).toText else assembled) ∧
      checkpoint.field .state_root = cp.field .state_root := by
  obtain ⟨bound, hbound, hserve⟩ := Option.bind_eq_some_iff.mp h
  cases bound with
  | error code => cases hserve
  | ok assembled =>
    cases key with
    | error message => cases hserve
    | ok keyBuf =>
      obtain ⟨path, hpath, hanswer⟩ := Option.map_eq_some_iff.mp hserve
      cases path with
      | error message => cases hanswer
      | ok sub =>
        cases hclaimed : claimed (provePart db.getStateNode (subRoots tr slot) keyBuf).leaf_value with
        | error message =>
          rw [hclaimed] at hanswer
          cases hanswer
        | ok value =>
          rw [hclaimed] at hanswer
          obtain ⟨rfl, rfl⟩ := StateAnswer.served.inj (Except.ok.inj hanswer)
          exact ⟨assembled, keyBuf, hbound, rfl, hpath, rfl, rfl, rfl, rfl, rfl⟩

theorem stateProof_served {req : StateRequest} {height : Option ℕ} {proof : StateProof} {checkpoint : Shaped}
    (h : stateProof db staleLagBlocks chain network req height = some (.ok (.served proof checkpoint))) :
    ∃ cp tr claimed, (cp.field .state_root).given ∧
      serveState db staleLagBlocks chain network cp tr req.slot (req.key chain network) claimed =
        some (.ok (.served proof checkpoint)) := by
  cases req with
  | balance address tick =>
    rw [stateProof, balanceProof] at h
    split at h
    · cases h
    · rename_i cp hcp
      split at h
      · cases h
      · rename_i hgiven
        split at h
        · cases h
        · rename_i tr htr
          exact ⟨cp, tr, _, by simpa using hgiven, h⟩
  | lockedBalance address tick =>
    rw [stateProof, lockedBalanceProof] at h
    split at h
    · cases h
    · rename_i cp hcp
      split at h
      · cases h
      · rename_i hgiven
        split at h
        · cases h
        · split at h
          · cases h
          · rename_i tr htr
            exact ⟨cp, tr, _, by simpa using hgiven, h⟩
  | contractState contractIndex key =>
    rw [stateProof, contractStateProof] at h
    split at h
    · cases h
    · rename_i cp hcp
      split at h
      · cases h
      · rename_i hgiven
        split at h
        · cases h
        · rename_i tr htr
          split at h
          · cases h
          · exact ⟨cp, tr, _, by simpa using hgiven, h⟩

/-- A row that is bound to its checkpoint proves its sub-roots against the root the checkpoint binds. -/
theorem verify_bound {slot : Slot} {assembled : String} {sub : FixedMerkleProof} {state_root : String}
    {checkpoint : Shaped} (hgiven : (cp.field .state_root).given)
    (hbind : bindRoots cp tr = some (.ok assembled))
    (hsub : stateRootProof (subRoots tr) slot = some (.ok sub))
    (hroot : state_root = (if (cp.field .state_root).given ∧ (cp.field .state_root).toText ≠ "" then
      (cp.field .state_root).toText else assembled))
    (hfield : checkpoint.field .state_root = cp.field .state_root) :
    verifyFixedMerkleProof (boundRoot checkpoint state_root) (slotLeaf (subRoots tr slot)) sub.index
      sub.siblings = true := by
  obtain ⟨root, hassembled, rfl, hcheck⟩ := bindRoots_ok hbind
  have hbound : boundRoot checkpoint state_root = toHex root := by
    rw [boundRoot, hfield]
    split_ifs with htext
    · rw [hroot, if_neg (by simp [htext])]
    · exact hcheck hgiven htext
  rw [hbound]
  exact verify_stateRootProof hassembled hsub

end Served

section Tree

variable {M : SparseMerkleTree} {getStateNode : NodeStore}

theorem verify_part (hstored : Stored M getStateNode) (hrows : NoEmptyRow M getStateNode)
    (hapart : EmptyApart M) (keyBuf : Bytes32) :
    (provePart getStateNode (some M.rootHex) keyBuf).key = toHex keyBuf ∧
      verifyCompressedSmtProof M.rootHex keyBuf (provePart getStateNode (some M.rootHex) keyBuf).leaf_value
        (provePart getStateNode (some M.rootHex) keyBuf).compressed = .ok true := by
  simp only [provePart, Option.getD_some, prove_key, true_and]
  exact verify_served hstored hrows hapart keyBuf

theorem stateProof_verifies {db : StateReads} (hstored : Stored M db.getStateNode)
    (hrows : NoEmptyRow M db.getStateNode) (hapart : EmptyApart M) {staleLagBlocks : ℕ}
    {chain network : String} {req : StateRequest} {height : Option ℕ} {proof : StateProof}
    {checkpoint : Shaped}
    (h : stateProof db staleLagBlocks chain network req height = some (.ok (.served proof checkpoint)))
    (hM : req.subRoot proof = some M.rootHex) :
    Verifies (boundRoot checkpoint proof.state_root) M (req.key chain network) proof.smt_proof
      proof.sub_root_path := by
  obtain ⟨cp, tr, claimed, hgiven, hserve⟩ := stateProof_served h
  obtain ⟨assembled, keyBuf, hbind, hkey, hsub, hpart, hbalances, hcontract, hroot, hfield⟩ :=
    serveState_served hserve
  have hslot : subRoots tr req.slot = some M.rootHex := by
    cases req with
    | balance address tick => exact hbalances.symm.trans hM
    | lockedBalance address tick => exact hbalances.symm.trans hM
    | contractState contractIndex key =>
      have hrow : tr.contract_state_root = some M.rootHex := hcontract.symm.trans hM
      rw [StateRequest.slot, subRoots, hrow, truthy_rootHex]
  have hverify := verify_bound hgiven hbind hsub hroot hfield
  rw [hslot, slotLeaf_rootHex] at hverify
  rw [hslot] at hpart
  rw [hpart]
  obtain ⟨hpartKey, haccepted⟩ := verify_part hstored hrows hapart keyBuf
  exact ⟨⟨keyBuf, hkey, hpartKey, haccepted⟩, hverify⟩

end Tree

/-! ### Stake proofs -/

section Stakes

variable {db : StateReads} {tr : StateTreeRow} {sets : List (String × StakeSet)}

/-- The stakes of a capability that are served: each validator's, and the total. -/
inductive StakeSet.Holds (stakes : StakeSet) : String → SmtPart → Prop
  | validator {v : Validator} {part : SmtPart} : (v, part) ∈ stakes.validators → Holds stakes v.pubkey part
  | total {part : SmtPart} : stakes.total_proof = some part → Holds stakes STAKE_TOTAL_PUBKEY part

theorem proveStakeSet_holds {cap total : String} {validators : List Validator} {stakes : StakeSet}
    (h : proveStakeSet db tr cap validators total = .ok stakes) {pubkey : String} {part : SmtPart}
    (hpart : stakes.Holds pubkey part) : proveStake db tr pubkey cap = .ok part := by
  rw [proveStakeSet] at h
  obtain ⟨proven, hproven, h⟩ := bind_eq_ok h
  obtain ⟨zero, hzero, h⟩ := bind_eq_ok h
  obtain ⟨totalProof, htotal, h⟩ := bind_eq_ok h
  cases h
  cases hpart with
  | validator hmem =>
    obtain ⟨v, -, hv⟩ := mem_mapM_ok hproven hmem
    obtain ⟨own, hown, hpair⟩ := map_eq_ok hv
    cases hpair
    exact hown
  | total hmem =>
    rw [proveTotal] at htotal
    split_ifs at htotal with hne
    · obtain ⟨own, hown, hsome⟩ := map_eq_ok htotal
      cases Option.some.inj (hsome.trans hmem)
      exact hown
    · cases (Except.ok.inj htotal).trans hmem

theorem capabilitySetProof_holds {cap : String} {answer : StakeAnswer} {stakes : StakeSet}
    (h : capabilitySetProof db tr cap answer = .ok (.set stakes)) {pubkey : String} {part : SmtPart}
    (hpart : stakes.Holds pubkey part) : proveStake db tr pubkey cap = .ok part := by
  cases answer with
  | rejected code => cases h
  | nothing => cases h
  | failed error =>
    rw [capabilitySetProof] at h
    split_ifs at h
    · cases h
    · cases h
  | weights validators truncated =>
    rw [capabilitySetProof] at h
    split_ifs at h
    · cases h
    · cases htotal : exactStakeTotal validators with
      | error message =>
        rw [htotal] at h
        cases h
      | ok total =>
        rw [htotal] at h
        obtain ⟨own, hown, hset⟩ := map_eq_ok h
        cases hset
        exact proveStakeSet_holds hown hpart

theorem capabilitySets_holds {stakeWeights : String → StakeAnswer} {caps : List String}
    (h : capabilitySets db tr stakeWeights caps = .ok (.ok sets)) {cap : String} {stakes : StakeSet}
    (hmem : (cap, stakes) ∈ sets) {pubkey : String} {part : SmtPart} (hpart : stakes.Holds pubkey part) :
    proveStake db tr pubkey cap = .ok part := by
  induction caps generalizing sets with
  | nil =>
    cases h
    cases hmem
  | cons c caps ih =>
    rw [capabilitySets] at h
    cases hc : capabilitySetProof db tr c (stakeWeights c) with
    | error message =>
      rw [hc] at h
      cases h
    | ok answer =>
      rw [hc] at h
      cases answer with
      | error code => cases h
      | skipped => exact ih h hmem
      | set own =>
        cases hrest : capabilitySets db tr stakeWeights caps with
        | error message =>
          rw [hrest] at h
          cases h
        | ok rest =>
          rw [hrest] at h
          cases rest with
          | error code => cases h
          | ok out =>
            cases h
            rcases List.mem_cons.mp hmem with hhead | hmem
            · cases hhead
              exact capabilitySetProof_holds hc hpart
            · exact ih hrest hmem

variable {staleLagBlocks : ℕ} {chain network : String} {cp : Served} {stakeWeights : String → StakeAnswer}

theorem serveValidatorSet_served {caps : List String} {proof : ValidatorSetProof} {checkpoint : Shaped}
    (h : serveValidatorSet db staleLagBlocks chain network cp tr stakeWeights caps =
      some (.ok (.served proof checkpoint))) :
    ∃ assembled, bindRoots cp tr = some (.ok assembled) ∧
      stateRootProof (subRoots tr) .stakes_root = some (.ok proof.sub_root_path) ∧
      capabilitySets db tr stakeWeights caps = .ok (.ok proof.capabilities) ∧
      proof.stakes_root = tr.stakes_root ∧
      proof.state_root = (if (cp.field .state_root).given ∧ (cp.field .state_root).toText ≠ "" then
        (cp.field .state_root).toText else assembled) ∧
      checkpoint.field .state_root = cp.field .state_root := by
  obtain ⟨bound, hbound, hserve⟩ := Option.bind_eq_some_iff.mp h
  cases bound with
  | error code => cases hserve
  | ok assembled =>
    obtain ⟨path, hpath, hanswer⟩ := Option.map_eq_some_iff.mp hserve
    cases path with
    | error message => cases hanswer
    | ok sub =>
      cases hsets : capabilitySets db tr stakeWeights caps with
      | error message =>
        rw [hsets] at hanswer
        cases hanswer
      | ok out =>
        rw [hsets] at hanswer
        cases out with
        | error code => cases hanswer
        | ok sets =>
          obtain ⟨rfl, rfl⟩ := ValidatorSetAnswer.served.inj (Except.ok.inj hanswer)
          exact ⟨assembled, hbound, hpath, rfl, rfl, rfl, rfl⟩

theorem validatorSetProof_served {snapshotHeight : ℕ} {capabilities : List String} {proof : ValidatorSetProof}
    {checkpoint : Shaped}
    (h : validatorSetProof db staleLagBlocks chain network snapshotHeight stakeWeights capabilities =
      some (.ok (.served proof checkpoint))) :
    ∃ cp tr caps, (cp.field .state_root).given ∧
      serveValidatorSet db staleLagBlocks chain network cp tr stakeWeights caps =
        some (.ok (.served proof checkpoint)) := by
  rw [validatorSetProof] at h
  generalize (if capabilities = [] then ["oracle_publish", "cross_chain"] else capabilities) = caps at h
  split_ifs at h
  · cases h
  · split at h
    · cases h
    · rename_i cp hcp
      split_ifs at h with hgiven
      · cases h
      · split at h
        · cases h
        · rename_i tr htr
          split_ifs at h
          · cases h
          · exact ⟨cp, tr, caps, by simpa using hgiven, h⟩

theorem validatorSetProof_verifies {M : SparseMerkleTree} (hstored : Stored M db.getStateNode)
    (hrows : NoEmptyRow M db.getStateNode) (hapart : EmptyApart M) {snapshotHeight : ℕ}
    {capabilities : List String} {proof : ValidatorSetProof} {checkpoint : Shaped}
    (h : validatorSetProof db staleLagBlocks chain network snapshotHeight stakeWeights capabilities =
      some (.ok (.served proof checkpoint)))
    (hM : proof.stakes_root = some M.rootHex) {cap : String} {stakes : StakeSet}
    (hmem : (cap, stakes) ∈ proof.capabilities) {pubkey : String} {part : SmtPart}
    (hpart : stakes.Holds pubkey part) :
    Verifies (boundRoot checkpoint proof.state_root) M (stakeKey pubkey cap) part proof.sub_root_path := by
  obtain ⟨cp, tr, caps, hgiven, hserve⟩ := validatorSetProof_served h
  obtain ⟨assembled, hbind, hsub, hsets, hstakes, hroot, hfield⟩ := serveValidatorSet_served hserve
  have hslot : subRoots tr .stakes_root = some M.rootHex := hstakes.symm.trans hM
  have hverify := verify_bound hgiven hbind hsub hroot hfield
  rw [hslot, slotLeaf_rootHex] at hverify
  have hprove := capabilitySets_holds hsets hmem hpart
  rw [proveStake, hslot] at hprove
  cases hkey : stakeKey pubkey cap with
  | error message =>
    rw [hkey] at hprove
    cases hprove
  | ok keyBuf =>
    rw [hkey] at hprove
    cases hprove
    obtain ⟨hpartKey, haccepted⟩ := verify_part hstored hrows hapart keyBuf
    exact ⟨⟨keyBuf, rfl, hpartKey, haccepted⟩, hverify⟩

end Stakes

/-! ### The proofs served -/

/-- The walk through the store gives the tree's own proofs, but for a leaf that is the empty constant, and
    what is served from it is accepted against the root that the checkpoint binds. -/
theorem stateProofs_verify {M : SparseMerkleTree} {db : StateReads} (hstored : Stored M db.getStateNode)
    (hrows : NoEmptyRow M db.getStateNode) (hapart : EmptyApart M) :
    (∀ key : Bytes32,
      (prove db.getStateNode M.rootHex key).siblings = (M.prove key).siblings ∧
        (M.prove key).siblings.length = SMT_DEPTH ∧
        ((M.lookup key).map Subtype.val ≠ some (EMPTY 0) →
          prove db.getStateNode M.rootHex key = M.prove key) ∧
        ((M.lookup key).map Subtype.val = some (EMPTY 0) →
          (prove db.getStateNode M.rootHex key).leaf_value = none)) ∧
      (∀ staleLagBlocks chain network req height proof checkpoint,
        stateProof db staleLagBlocks chain network req height = some (.ok (.served proof checkpoint)) →
        req.subRoot proof = some M.rootHex →
        Verifies (boundRoot checkpoint proof.state_root) M (req.key chain network) proof.smt_proof
          proof.sub_root_path) ∧
      ∀ staleLagBlocks chain network snapshotHeight stakeWeights capabilities proof checkpoint,
        validatorSetProof db staleLagBlocks chain network snapshotHeight stakeWeights capabilities =
          some (.ok (.served proof checkpoint)) →
        proof.stakes_root = some M.rootHex →
        ∀ cap stakes, (cap, stakes) ∈ proof.capabilities → ∀ pubkey part, stakes.Holds pubkey part →
          Verifies (boundRoot checkpoint proof.state_root) M (stakeKey pubkey cap) part
            proof.sub_root_path := by
  refine ⟨fun key => ?_, ?_, ?_⟩
  · obtain ⟨hsiblings, -, -, hwhole⟩ := prove_eq hstored hrows hapart key
    refine ⟨hsiblings, ?_, hwhole, prove_emptyLeaf hstored hrows hapart⟩
    rw [SparseMerkleTree.prove, List.length_map, M.length_siblings]
  · intro staleLagBlocks chain network req height proof checkpoint h hM
    exact stateProof_verifies hstored hrows hapart h hM
  · intro staleLagBlocks chain network snapshotHeight stakeWeights capabilities proof checkpoint h hM cap
      stakes hmem pubkey part hpart
    exact validatorSetProof_verifies hstored hrows hapart h hM hmem hpart

/-- The contract state of one value: the owner "alice". -/
def ownerTree : SparseMerkleTree := oneLeaf ownerKey ownerLeaf

/-- A row that commits it. -/
def ownerRow : StateTreeRow := ⟨none, none, none, some ownerTree.rootHex⟩

/-- Its checkpoint, under the root it assembles to. -/
def ownerCheckpoint : Served where
  field c :=
    if c = .state_root then .text (((stateRoot (subRoots ownerRow)).map toHex).getD "") else .number 100
  validator_signatures := none

/-- The reads over the two, and the value itself. -/
def ownerReads : StateReads where
  getCheckpointAtOrAbove _ := some ownerCheckpoint
  getCheckpointAt _ := some ownerCheckpoint
  getStateTreeRow _ := some ownerRow
  getStateNode := leafRows ownerKey ownerLeaf
  getNetBalance18AtHeight _ _ _ := none
  getLockedAmountAtHeight _ _ _ := none
  getContractStateValueAtHeight _ _ _ := some "alice"
  getMaxBlockIndex := some 100

theorem stateRoot_some (roots : Slot → Option String) : ∃ root, stateRoot roots = some root := ⟨_, rfl⟩

theorem stateRootProof_some (roots : Slot → Option String) (name : Slot) :
    ∃ sub, stateRootProof roots name = some (.ok sub) := by
  cases name <;> exact ⟨_, rfl⟩

theorem toLower_toHex (bytes : Bytes) : (toHex bytes).toLower = toHex bytes := by
  have hdigit : ∀ n < 16, (Hex.digit n).toLower = Hex.digit n := by decide
  rw [← String.toList_inj, CheckpointProofs.toList_toLower, toHex, Hex.encode, String.toList_ofList]
  induction bytes with
  | nil => rfl
  | cons b bytes ih =>
    have hb := b.toNat_lt
    have hcons : Hex.encodeChars (b :: bytes) =
      Hex.digit (b.toNat / 16) :: Hex.digit (b.toNat % 16) :: Hex.encodeChars bytes := rfl
    rw [hcons, List.map_cons, List.map_cons, ih, hdigit _ (by omega), hdigit _ (by omega)]

theorem lookup_ownerTree : ownerTree.lookup ownerKey = some ownerLeaf := by
  rw [ownerTree, lookup_oneLeaf]

theorem getStateNode_ownerReads : ownerReads.getStateNode = leafRows ownerKey ownerLeaf := by
  rw [ownerReads]

theorem stored_owner : Stored ownerTree ownerReads.getStateNode := by
  rw [ownerTree, getStateNode_ownerReads]
  exact stored_leafRows pathApart_owner

theorem noEmptyRow_owner : NoEmptyRow ownerTree ownerReads.getStateNode := by
  rw [ownerTree, getStateNode_ownerReads]
  exact noEmptyRow_leafRows

theorem emptyApart_ownerTree : EmptyApart ownerTree := by
  rw [ownerTree]
  exact emptyApart_owner

theorem leaf_value_owner :
    (prove ownerReads.getStateNode ownerTree.rootHex ownerKey).leaf_value = some (toHex ownerLeaf) := by
  have hne : ownerLeaf.1 ≠ EMPTY 0 := by decide +kernel
  obtain ⟨-, -, -, hwhole⟩ := prove_eq stored_owner noEmptyRow_owner emptyApart_ownerTree ownerKey
  have hleaf : (ownerTree.lookup ownerKey).map Subtype.val ≠ some (EMPTY 0) := by
    rw [lookup_ownerTree]
    exact fun h => hne (Option.some.inj h)
  rw [hwhole hleaf, SparseMerkleTree.prove, lookup_ownerTree]
  rfl

theorem owner_served : ∃ proof checkpoint,
    stateProof ownerReads 100 "BTC" "mainnet" (.contractState "1" "owner") none =
      some (.ok (.served proof checkpoint)) ∧
    proof.claimed = .contractState "1" "owner" (some "alice") ∧
    proof.smt_proof.leaf_value = some (toHex ownerLeaf) ∧
    proof.contract_state_root = some ownerTree.rootHex := by
  obtain ⟨root, hroot⟩ := stateRoot_some (subRoots ownerRow)
  obtain ⟨sub, hsub⟩ := stateRootProof_some (subRoots ownerRow) .contract_state_root
  have hfield : ownerCheckpoint.field .state_root = .text (toHex root) := by
    rw [ownerCheckpoint]
    dsimp only
    rw [if_pos rfl, hroot]
    rfl
  have hbind : bindRoots ownerCheckpoint ownerRow = some (.ok (toHex root)) := by
    rw [bindRoots, hroot, hfield, Option.map_some, if_neg]
    rintro ⟨-, -, hne⟩
    exact hne (toLower_toHex root)
  have hgiven : (ownerCheckpoint.field .state_root).given = true := by
    rw [hfield]
    rfl
  have hrow : truthy ownerRow.contract_state_root = some ownerTree.rootHex := truthy_rootHex ownerTree
  have hserve : stateProof ownerReads 100 "BTC" "mainnet" (.contractState "1" "owner") none =
      serveState ownerReads 100 "BTC" "mainnet" ownerCheckpoint ownerRow .contract_state_root
        (contractStateKey "BTC" "mainnet" "1" "owner") fun leaf_value =>
          .ok (.contractState "1" "owner" (if leaf_value.isNone then none else some "alice")) := by
    rw [stateProof, contractStateProof]
    simp [ownerReads, hgiven, hrow]
  have hslot : subRoots ownerRow .contract_state_root = some ownerTree.rootHex := truthy_rootHex ownerTree
  have hpart : (provePart ownerReads.getStateNode (subRoots ownerRow .contract_state_root) ownerKey).leaf_value =
      some (toHex ownerLeaf) := by
    rw [provePart, hslot, Option.getD_some, leaf_value_owner]
  rw [hserve, serveState, hbind, Option.bind_some]
  dsimp only
  rw [contractStateKey_owner]
  dsimp only
  rw [hsub, hpart]
  exact ⟨_, _, rfl, rfl, hpart, rfl⟩

theorem stateProofs_verify_owner : ∃ proof checkpoint,
    stateProof ownerReads 100 "BTC" "mainnet" (.contractState "1" "owner") none =
      some (.ok (.served proof checkpoint)) ∧
    proof.claimed = .contractState "1" "owner" (some "alice") ∧
    proof.smt_proof.leaf_value = some (toHex ownerLeaf) ∧
    Verifies (boundRoot checkpoint proof.state_root) ownerTree (contractStateKey "BTC" "mainnet" "1" "owner")
      proof.smt_proof proof.sub_root_path := by
  obtain ⟨proof, checkpoint, hserved, hclaimed, hleaf, hroot⟩ := owner_served
  have h := stateProofs_verify stored_owner noEmptyRow_owner emptyApart_ownerTree
  have hverifies := h.2.1 100 "BTC" "mainnet" (.contractState "1" "owner") none proof checkpoint hserved
  exact ⟨proof, checkpoint, hserved, hclaimed, hleaf, hverifies hroot⟩

/-- A leaf that is the empty constant is a value to the tree, and no leaf to the walk. -/
theorem emptyLeaf_told_apart : ∃ (M : SparseMerkleTree) (getStateNode : NodeStore) (key : Bytes32),
    Stored M getStateNode ∧ NoEmptyRow M getStateNode ∧ EmptyApart M ∧
      (prove getStateNode M.rootHex key).leaf_value ≠ (M.prove key).leaf_value := by
  have hstored : Stored emptyLeaf emptyRows := stored_leafRows pathApart_emptyValue
  have hrows : NoEmptyRow emptyLeaf emptyRows := noEmptyRow_leafRows
  refine ⟨emptyLeaf, emptyRows, zeros, hstored, hrows, emptyApart_emptyLeaf, ?_⟩
  rw [prove_emptyLeaf hstored hrows emptyApart_emptyLeaf lookup_emptyLeaf,
    SparseMerkleTree.prove, emptyLeaf, lookup_oneLeaf]
  simp

end ProofServer
