import XChainExplorer.Consensus.BlockLeaves
import XChainExplorer.Explorer.CheckpointReads

/-! # Action proofs

    The leaf of an action is found by counting the rows before it, apart from the function that lays the
    leaves out. What binds the answer is that the leaves' root is the checkpoint's, whose hexadecimal
    digits may be of either case here and must be small for the client. -/

namespace ProofServer

open Merkle CheckpointReads

/-- A row of `state_tree_roots`. -/
structure StateTreeRow where
  balances_root : Option String
  stakes_root : Option String
  block_merkle_root : Option String
  contract_state_root : Option String

/-- What the reads of a request answer. -/
structure ActionReads where
  getActionBlockIndex : ℕ → Option ℕ
  getCheckpointAt : ℕ → Option Served
  getStateTreeRow : ℕ → Option StateTreeRow
  getBlockLeafRows : ℕ → BlockRows
  getMaxBlockIndex : Option ℕ

/-- The proof of an action as it is served. -/
structure ActionProof where
  chain : String
  network : String
  height : Option ℚ
  action_index : ℕ
  tx_index : Option ℕ
  action : Option String
  leaf : String
  merkle_proof : FixedMerkleProof
  block_merkle_root : CheckpointReads.Cell
  block_merkle_version : CheckpointReads.Cell

/-- A proof under its checkpoint, or an error. -/
inductive Answer
  | error (code : String)
  | served (proof : ActionProof) (checkpoint : Shaped)

/-- The leaves before the first action. -/
def ledgerCount (rows : BlockRows) : ℕ := rows.credits.length + rows.debits.length + rows.escrows.length

/-- A root's text, as it is compared. -/
def rootText (root : CheckpointReads.Cell) : String := root.toText.toLower

section Serve

variable (staleLagBlocks : ℕ) (chain network : String) (aix : ℕ) (tip : Option ℕ)

/-- The answer for the row at position `actionPos`, once its leaf and the leaves of its block stand. -/
def serveLeaf (cp : Served) (treeRoot : String) (rows : BlockRows) (actionRow : ActionRow) (actionPos : ℕ)
    (leaves : List Bytes) (expectedLeaf localRoot : Bytes) : Option (Except String Answer) :=
  let leafIndex := ledgerCount rows + actionPos
  if rootText (cp.field .block_merkle_root) ≠ toHex localRoot ∨ treeRoot.toLower ≠ toHex localRoot ∨
      leaves[leafIndex]? ≠ some expectedLeaf then
    some (.ok (.error "PROOF_BLOCK_MERKLE_MISMATCH"))
  else
    (fixedMerkleProof leaves leafIndex).map fun mp => mp.map fun mp =>
      .served
        { chain := chain
          network := network
          height := (cp.field .block_index).toNumber
          action_index := aix
          tx_index := actionRow.tx_index
          action := actionRow.action
          leaf := toHex expectedLeaf
          merkle_proof := mp
          block_merkle_root := cp.field .block_merkle_root
          block_merkle_version := cp.field .block_merkle_version }
        (shapeCheckpoint staleLagBlocks cp tip)

/-- From the rows of the action's block on. -/
def proveAction (cp : Served) (treeRoot : String) (rows : BlockRows) : Option (Except String Answer) :=
  match blockMerkleLeaves rows with
  | .error message => some (.error message)
  | .ok leaves =>
    match rows.actions.zipIdx.find? fun r => r.1.action_index = aix with
    | none => some (.ok (.error "ACTION_LEAF_NOT_FOUND"))
    | some (actionRow, actionPos) =>
      match actionsLeaf actionRow with
      | .error message => some (.error message)
      | .ok expectedLeaf => (blockMerkleRoot leaves).bind
          (serveLeaf staleLagBlocks chain network aix tip cp treeRoot rows actionRow actionPos leaves expectedLeaf)

end Serve

/-- `none` where the width of the tree is never found, `.error` where the code throws. -/
def actionProof (db : ActionReads) (staleLagBlocks : ℕ) (chain network : String) (actionIndex : ℕ) :
    Option (Except String Answer) :=
  match db.getActionBlockIndex actionIndex with
  | none => some (.ok (.error "ACTION_NOT_FOUND"))
  | some blockIndex =>
    match db.getCheckpointAt blockIndex with
    | none => some (.ok (.error "ACTION_BLOCK_NOT_CHECKPOINTED"))
    | some cp =>
      if (cp.field .block_merkle_root).given = false then some (.ok (.error "CHECKPOINT_PRE_COMMITMENT"))
      else
        match (db.getStateTreeRow blockIndex).bind (·.block_merkle_root) with
        | none => some (.ok (.error "NO_STATE_TREE"))
        | some treeRoot =>
          proveAction staleLagBlocks chain network actionIndex db.getMaxBlockIndex cp treeRoot
            (db.getBlockLeafRows blockIndex)

/-! ### What is served -/

theorem actionProof_served {db : ActionReads} {staleLagBlocks : ℕ} {chain network : String} {actionIndex : ℕ}
    {proof : ActionProof} {checkpoint : Shaped}
    (h : actionProof db staleLagBlocks chain network actionIndex = some (.ok (.served proof checkpoint))) :
    ∃ blockIndex cp treeRoot, db.getActionBlockIndex actionIndex = some blockIndex ∧
      db.getCheckpointAt blockIndex = some cp ∧
      proveAction staleLagBlocks chain network actionIndex db.getMaxBlockIndex cp treeRoot
        (db.getBlockLeafRows blockIndex) = some (.ok (.served proof checkpoint)) := by
  rw [actionProof] at h
  split at h
  · cases h
  · rename_i blockIndex hblock
    split at h
    · cases h
    · rename_i cp hcp
      split at h
      · cases h
      · split at h
        · cases h
        · rename_i treeRoot htree
          exact ⟨blockIndex, cp, treeRoot, hblock, hcp, h⟩

/-- A proof is served for a row of the action, at the place of the row's leaf. -/
theorem proveAction_served {staleLagBlocks : ℕ} {chain network : String} {aix : ℕ} {tip : Option ℕ}
    {cp : Served} {treeRoot : String} {rows : BlockRows} {proof : ActionProof} {checkpoint : Shaped}
    (h : proveAction staleLagBlocks chain network aix tip cp treeRoot rows =
      some (.ok (.served proof checkpoint))) :
    ∃ row pos leaves leaf localRoot, blockMerkleLeaves rows = .ok leaves ∧ rows.actions[pos]? = some row ∧
      row.action_index = aix ∧ actionsLeaf row = .ok leaf ∧ blockMerkleRoot leaves = some localRoot ∧
      serveLeaf staleLagBlocks chain network aix tip cp treeRoot rows row pos leaves leaf localRoot =
        some (.ok (.served proof checkpoint)) := by
  rw [proveAction] at h
  split at h
  · cases h
  · rename_i leaves hleaves
    split at h
    · cases h
    · rename_i row pos hfind
      split at h
      · cases h
      · rename_i leaf hleaf
        obtain ⟨localRoot, hroot, hserve⟩ := Option.bind_eq_some_iff.mp h
        have hrow := List.mem_zipIdx_iff_getElem?.mp (List.mem_of_find?_eq_some hfind)
        have haix := List.find?_some hfind
        rw [decide_eq_true_iff] at haix
        exact ⟨row, pos, leaves, leaf, localRoot, hleaves, hrow, haix, hleaf, hroot, hserve⟩

/-- Behind the ledger rows come the actions. -/
theorem ordered_action {rows : BlockRows} {row : ActionRow} {pos : ℕ} (h : rows.actions[pos]? = some row) :
    rows.ordered[ledgerCount rows + pos]? = some row.leafRow := by
  have hlt : pos < rows.actions.length := (List.getElem?_eq_some_iff.mp h).1
  have hledger : (rows.credits.map (LedgerRow.leafRow .credit) ++ rows.debits.map (LedgerRow.leafRow .debit) ++
      rows.escrows.map (LedgerRow.leafRow .escrow)).length = ledgerCount rows := by
    simp [ledgerCount, Nat.add_assoc]
  simp only [BlockRows.ordered, List.append_assoc]
  rw [← List.append_assoc, ← List.append_assoc, List.getElem?_append_right (by omega), hledger,
    Nat.add_sub_cancel_left, List.getElem?_append_left (by simpa using hlt), List.getElem?_map, h]
  rfl

/-- The proof of what stands at its place is accepted against the root of its vector. -/
theorem verify_fixedMerkleProof {leaves : List Bytes} {root leaf : Bytes} {j : ℕ} {proof : FixedMerkleProof}
    (hroot : fixedMerkleRoot leaves = some root) (hleaf : leaves[j]? = some leaf)
    (h : fixedMerkleProof leaves j = some (.ok proof)) :
    proof.index = j ∧ verifyFixedMerkleProof (toHex root) leaf j proof.siblings = true := by
  have hlt : j < leaves.length := (List.getElem?_eq_some_iff.mp hleaf).1
  have hne : leaves ≠ [] := by
    rintro rfl
    simp at hlt
  obtain ⟨k, hk, hwidth, hle, rfl⟩ := fixedMerkleRoot_eq hne hroot
  have hown := fixedMerkleProof_eq hwidth hle hlt
  obtain rfl := Except.ok.inj (Option.some.inj (hown.symm.trans h))
  have hpad : (padLeaves leaves (2 ^ k))[j]? = some leaf := by
    rw [padLeaves, List.getElem?_append_left hlt, hleaf]
  have hwidth31 : 2 ^ k < 2 ^ 31 := Nat.pow_lt_pow_right (by norm_num) (by omega)
  exact ⟨rfl, verify_pathUp (length_padLeaves hle) (by omega) hpad⟩

/-- What a served proof says: its checks passed, and its parts are those of the leaf. -/
theorem serveLeaf_served {staleLagBlocks : ℕ} {chain network : String} {aix : ℕ} {tip : Option ℕ}
    {cp : Served} {treeRoot : String} {rows : BlockRows} {row : ActionRow} {pos : ℕ} {leaves : List Bytes}
    {leaf localRoot : Bytes} {proof : ActionProof} {checkpoint : Shaped}
    (h : serveLeaf staleLagBlocks chain network aix tip cp treeRoot rows row pos leaves leaf localRoot =
      some (.ok (.served proof checkpoint))) :
    rootText (cp.field .block_merkle_root) = toHex localRoot ∧ leaves[ledgerCount rows + pos]? = some leaf ∧
      fixedMerkleProof leaves (ledgerCount rows + pos : ℕ) = some (.ok proof.merkle_proof) ∧
      proof.leaf = toHex leaf ∧ checkpoint.field .block_merkle_root = cp.field .block_merkle_root := by
  rw [serveLeaf] at h
  split at h
  · cases h
  · rename_i hchecks
    simp only [not_or, not_not] at hchecks
    obtain ⟨mp, hmp, hanswer⟩ := Option.map_eq_some_iff.mp h
    cases mp with
    | error message => cases hanswer
    | ok mp =>
      obtain ⟨rfl, rfl⟩ := Answer.served.inj (Except.ok.inj hanswer)
      exact ⟨hchecks.1, hchecks.2.2, hmp, rfl, rfl⟩

/-- A served proof is of a row of the action, at the place of its leaf among the block's. The client
    accepts it against the served checkpoint unless the root is stored with a capital. -/
theorem actionProof_verifies_iff (db : ActionReads) (staleLagBlocks : ℕ) (chain network : String)
    (actionIndex : ℕ) (proof : ActionProof) (checkpoint : Shaped)
    (h : actionProof db staleLagBlocks chain network actionIndex = some (.ok (.served proof checkpoint))) :
    ∃ (blockIndex : ℕ) (cp : Served) (row : ActionRow) (pos : ℕ) (leaves : List Bytes) (leaf : Bytes),
      db.getActionBlockIndex actionIndex = some blockIndex ∧ db.getCheckpointAt blockIndex = some cp ∧
      (db.getBlockLeafRows blockIndex).actions[pos]? = some row ∧ row.action_index = actionIndex ∧
      actionsLeaf row = .ok leaf ∧ proof.leaf = toHex leaf ∧
      blockMerkleLeaves (db.getBlockLeafRows blockIndex) = .ok leaves ∧
      proof.merkle_proof.index = (ledgerCount (db.getBlockLeafRows blockIndex) + pos : ℕ) ∧
      (db.getBlockLeafRows blockIndex).ordered[ledgerCount (db.getBlockLeafRows blockIndex) + pos]? =
        some row.leafRow ∧
      leaves[ledgerCount (db.getBlockLeafRows blockIndex) + pos]? = some leaf ∧
      (verifyFixedMerkleProof (checkpoint.field .block_merkle_root).toText (toBuf proof.leaf)
          proof.merkle_proof.index proof.merkle_proof.siblings = true ↔
        (cp.field .block_merkle_root).toText.toLower = (cp.field .block_merkle_root).toText) := by
  obtain ⟨blockIndex, cp, treeRoot, hblock, hcp, hprove⟩ := actionProof_served h
  obtain ⟨row, pos, leaves, leaf, localRoot, hleaves, hrow, haix, hleaf, hroot, hserve⟩ :=
    proveAction_served hprove
  obtain ⟨hbound, hat, hproof, hproofLeaf, hfield⟩ := serveLeaf_served hserve
  obtain ⟨hindex, hverify⟩ := verify_fixedMerkleProof hroot hat hproof
  refine ⟨blockIndex, cp, row, pos, leaves, leaf, hblock, hcp, hrow, haix, hleaf, hproofLeaf, hleaves, hindex,
    ordered_action hrow, hat, ?_⟩
  rw [hfield, hproofLeaf, toBuf_toHex, hindex]
  rw [verifyFixedMerkleProof, decide_eq_true_iff, toHex_inj] at hverify
  rw [verifyFixedMerkleProof, decide_eq_true_iff, hverify, ← hbound, rootText]

/-! ### Served requests -/

/-- One of the actions. -/
def sendAction : ActionRow := ⟨7, none, some "SEND"⟩

/-- A block of two credits, a debit and three actions. -/
def sendBlock : BlockRows where
  credits := [⟨6, some "addr", some "XCH", some "5"⟩, ⟨7, some "addr2", some "XCH", some "3"⟩]
  debits := [⟨7, some "addr", some "XCH", some "3"⟩]
  escrows := []
  actions := [⟨6, some 1, some "MINT"⟩, sendAction, ⟨8, some 2, some "BATCH"⟩]
  contracts := []
  state := []
  executions := []
  emissions := []
  deposits := []
  withdrawals := []

/-- The leaves of the block. -/
def sendLeaves : List Bytes := sendBlock.ordered.map fun r => leafHash r.joined

/-- Their root. -/
def sendBlockRoot : String := ((blockMerkleRoot sendLeaves).map toHex).getD ""

/-- The reads of its requests, over a root as it is stored. -/
def sendReads (root : String) : ActionReads where
  getActionBlockIndex _ := some 100
  getCheckpointAt _ := some
    { field := fun c => if c = .block_merkle_root then .text root else .null
      validator_signatures := none }
  getStateTreeRow _ := some ⟨none, none, some root, none⟩
  getBlockLeafRows _ := sendBlock
  getMaxBlockIndex := some 100

theorem sendAction_leaf : actionsLeaf sendAction = .ok (leafHash sendAction.leafRow.joined) := by
  rw [actionsLeaf, LeafRow.leaf, joinFields_ok (by decide)]
  rfl

theorem sendBlock_leaves : blockMerkleLeaves sendBlock = .ok sendLeaves := by
  have hfree : sendBlock.NulFree := by
    unfold BlockRows.NulFree
    decide
  exact hfree.leaves

theorem nextPow2_sendLeaves : nextPow2 sendLeaves.length = some (2 ^ 3) := by decide

/-- The request is served whatever the case of the root's letters. -/
theorem sendBlock_served {root : String} (hroot : root.toLower = sendBlockRoot) :
    ∃ proof checkpoint,
      actionProof (sendReads root) 100 "BTC" "mainnet" 7 = some (.ok (.served proof checkpoint)) := by
  obtain ⟨cp, hcp, hfield⟩ : ∃ cp : Served, (sendReads root).getCheckpointAt 100 = some cp ∧
      cp.field .block_merkle_root = .text root := ⟨_, rfl, rfl⟩
  have hprove : actionProof (sendReads root) 100 "BTC" "mainnet" 7 =
      proveAction 100 "BTC" "mainnet" 7 (some 100) cp root sendBlock := by
    obtain rfl := Option.some.inj hcp
    rfl
  have hfind : (sendBlock.actions.zipIdx.find? fun r => decide (r.1.action_index = 7)) = some (sendAction, 1) :=
    rfl
  obtain ⟨localRoot, hlocal⟩ : ∃ localRoot, blockMerkleRoot sendLeaves = some localRoot := by
    rw [blockMerkleRoot, fixedMerkleRoot, if_neg (by decide), nextPow2_sendLeaves]
    exact ⟨_, rfl⟩
  have hstored : root.toLower = toHex localRoot := by
    rw [hroot, sendBlockRoot, hlocal]
    rfl
  have hcount : ledgerCount sendBlock + 1 = 4 := rfl
  have hat : sendLeaves[4]? = some (leafHash sendAction.leafRow.joined) := rfl
  have hproof := fixedMerkleProof_eq (j := 4) nextPow2_sendLeaves (by decide) (by decide)
  rw [hprove, proveAction, sendBlock_leaves]
  simp only [hfind, sendAction_leaf, hlocal, Option.bind_some]
  rw [serveLeaf, hcount, hat, hproof, if_neg]
  · exact ⟨_, _, rfl⟩
  · simp only [not_or, not_not]
    exact ⟨by rw [hfield]; exact hstored, hstored, trivial⟩

/-- The proof is of the action's own leaf, which is the fifth of six. -/
theorem actionProof_verifies_sendBlock :
    ∃ proof checkpoint,
      actionProof (sendReads sendBlockRoot) 100 "BTC" "mainnet" 7 = some (.ok (.served proof checkpoint)) ∧
      verifyFixedMerkleProof (checkpoint.field .block_merkle_root).toText (toBuf proof.leaf)
        proof.merkle_proof.index proof.merkle_proof.siblings = true := by
  have hlower : sendBlockRoot.toLower = sendBlockRoot := by decide +kernel
  obtain ⟨proof, checkpoint, h⟩ := sendBlock_served hlower
  refine ⟨proof, checkpoint, h, ?_⟩
  obtain ⟨blockIndex, cp, row, pos, leaves, leaf, -, hcp, -, -, -, -, -, -, -, -, hverify⟩ :=
    actionProof_verifies_iff (sendReads sendBlockRoot) 100 "BTC" "mainnet" 7 proof checkpoint h
  obtain rfl := Option.some.inj hcp
  exact hverify.mpr hlower

/-- A root that is stored in capitals is served with a proof the client refuses. -/
theorem capitalRoot_refused :
    ∃ (db : ActionReads) (proof : ActionProof) (checkpoint : Shaped),
      actionProof db 100 "BTC" "mainnet" 7 = some (.ok (.served proof checkpoint)) ∧
      verifyFixedMerkleProof (checkpoint.field .block_merkle_root).toText (toBuf proof.leaf)
        proof.merkle_proof.index proof.merkle_proof.siblings = false := by
  have hcapital : sendBlockRoot.toUpper.toLower = sendBlockRoot := by decide +kernel
  obtain ⟨proof, checkpoint, h⟩ := sendBlock_served hcapital
  refine ⟨sendReads sendBlockRoot.toUpper, proof, checkpoint, h, ?_⟩
  obtain ⟨blockIndex, cp, treeRoot, -, hcp, hprove⟩ := actionProof_served h
  obtain ⟨row, pos, leaves, leaf, localRoot, -, -, -, -, hroot, hserve⟩ := proveAction_served hprove
  obtain ⟨hbound, hat, hproof, hleaf, hfield⟩ := serveLeaf_served hserve
  obtain ⟨hindex, hverify⟩ := verify_fixedMerkleProof hroot hat hproof
  obtain rfl := Option.some.inj hcp
  have hlocal : toHex localRoot = sendBlockRoot := hbound.symm.trans hcapital
  have htext : (checkpoint.field .block_merkle_root).toText = sendBlockRoot.toUpper := by rw [hfield]; rfl
  have hdiffer : sendBlockRoot ≠ sendBlockRoot.toUpper := by decide +kernel
  rw [verifyFixedMerkleProof, decide_eq_true_iff] at hverify
  rw [htext, hleaf, toBuf_toHex, hindex, verifyFixedMerkleProof, hverify, hlocal]
  exact decide_eq_false hdiffer

end ProofServer
