import XChainExplorer.Consensus.CompressedProofs

/-! # The descent through the node store

    The proof server follows a key through the stored nodes, one row a level. A missing row means an
    empty subtree, and the siblings from there down are the constants of their heights. Over a store that
    holds the nodes of a tree the walk gives the proof of the tree in memory. -/

namespace ProofServer

open Merkle

/-- `getStateNode`: the two children of a node, by the node's hash. -/
abbrev NodeStore := String → Option (String × String)

/-- The empty leaf. -/
def EMPTY0_HEX : String := toHex (EMPTY 0)

/-- The loop of `descend` at depth `SMT_DEPTH - height`: the siblings from there down, and `oldLeaf`. -/
def descendLoop (getStateNode : NodeStore) (keyBuf : Bytes) : ℕ → String → Bool → List String × String
  | 0, cur, empty => ([], if empty then EMPTY0_HEX else cur)
  | height + 1, cur, empty =>
    if empty then
      let below := descendLoop getStateNode keyBuf height cur true
      (toHex (EMPTY height) :: below.1, below.2)
    else
      match getStateNode cur with
      | none =>
        let below := descendLoop getStateNode keyBuf height cur true
        (toHex (EMPTY height) :: below.1, below.2)
      | some (left_hash, right_hash) =>
        if bitAt keyBuf (SMT_DEPTH - (height + 1)) = 0 then
          let below := descendLoop getStateNode keyBuf height left_hash false
          (right_hash :: below.1, below.2)
        else
          let below := descendLoop getStateNode keyBuf height right_hash false
          (left_hash :: below.1, below.2)

/-- The walk from a root: the siblings and the leaf. -/
def descend (getStateNode : NodeStore) (rootHex : String) (keyBuf : Bytes) : List String × String :=
  descendLoop getStateNode keyBuf SMT_DEPTH rootHex false

/-- The proof that the walk gives. -/
def prove (getStateNode : NodeStore) (rootHex : String) (keyBuf : Bytes) : SmtProof where
  key := toHex keyBuf
  leaf_value :=
    if (descend getStateNode rootHex keyBuf).2 ≠ EMPTY0_HEX then some (descend getStateNode rootHex keyBuf).2
    else none
  siblings := (descend getStateNode rootHex keyBuf).1
  compressed := compressSmtProof (descend getStateNode rootHex keyBuf).1

theorem prove_key (getStateNode : NodeStore) (rootHex : String) (keyBuf : Bytes) :
    (prove getStateNode rootHex keyBuf).key = toHex keyBuf := by
  rw [prove]

/-! ### A store that holds a tree -/

/-- The entries under the left child. -/
def leftOf (h : ℕ) (entries : List (Bytes32 × Bytes32)) : List (Bytes32 × Bytes32) :=
  entries.filter fun e => bitAt e.1 (SMT_DEPTH - (h + 1)) = 0

/-- The entries under the right child. -/
def rightOf (h : ℕ) (entries : List (Bytes32 × Bytes32)) : List (Bytes32 × Bytes32) :=
  entries.filter fun e => bitAt e.1 (SMT_DEPTH - (h + 1)) ≠ 0

/-- The entries under the nodes of a tree, by height. -/
inductive Level (M : SparseMerkleTree) : ℕ → List (Bytes32 × Bytes32) → Prop
  | root : Level M SMT_DEPTH M.pairs
  | left {h : ℕ} {entries : List (Bytes32 × Bytes32)} : Level M (h + 1) entries → Level M h (leftOf h entries)
  | right {h : ℕ} {entries : List (Bytes32 × Bytes32)} : Level M (h + 1) entries → Level M h (rightOf h entries)

variable (M : SparseMerkleTree) (getStateNode : NodeStore)

/-- Every node of the tree that is not empty is in the store. -/
def Stored : Prop :=
  ∀ h entries, Level M (h + 1) entries → entries ≠ [] →
    getStateNode (toHex (smtNode (h + 1) entries)) =
      some (toHex (smtNode h (leftOf h entries)), toHex (smtNode h (rightOf h entries)))

/-- No row but those of the tree is keyed by the root of an empty subtree. -/
def NoEmptyRow : Prop :=
  ∀ h < SMT_DEPTH, getStateNode (toHex (EMPTY (h + 1))) ≠ none →
    ∃ h' entries, Level M (h' + 1) entries ∧ entries ≠ [] ∧ smtNode (h' + 1) entries = EMPTY (h + 1)

/-- The hash tells the nodes of the tree from those of the empty subtrees. -/
def EmptyApart : Prop :=
  ∀ h' entries, Level M (h' + 1) entries → entries ≠ [] → ∀ h < SMT_DEPTH,
    nodeHash (smtNode h' (leftOf h' entries)) (smtNode h' (rightOf h' entries)) = nodeHash (EMPTY h) (EMPTY h) →
      nodeBytes (smtNode h' (leftOf h' entries), smtNode h' (rightOf h' entries)) =
        nodeBytes (EMPTY h, EMPTY h)

variable {M getStateNode}

theorem smtNode_nil (h : ℕ) : smtNode h [] = EMPTY h := by
  cases h <;> rfl

theorem smtNode_succ {h : ℕ} {entries : List (Bytes32 × Bytes32)} (hne : entries ≠ []) :
    smtNode (h + 1) entries = nodeHash (smtNode h (leftOf h entries)) (smtNode h (rightOf h entries)) := by
  cases entries with
  | nil => exact absurd rfl hne
  | cons e entries =>
    rw [smtNode]
    · rfl
    · simp

theorem Level.le {h : ℕ} {entries : List (Bytes32 × Bytes32)} (hlevel : Level M h entries) : h ≤ SMT_DEPTH := by
  induction hlevel with
  | root => exact le_rfl
  | left _ ih => omega
  | right _ ih => omega

/-- A tree with a leaf has a node that is not empty at every height. -/
theorem exists_level (hne : M.pairs ≠ []) {h : ℕ} (hh : h ≤ SMT_DEPTH) : ∃ entries, Level M h entries ∧ entries ≠ [] := by
  induction hh using Nat.decreasingInduction with
  | self => exact ⟨M.pairs, .root, hne⟩
  | of_succ h hlt ih =>
    obtain ⟨entries, hlevel, hne⟩ := ih
    obtain ⟨e, rest, rfl⟩ := List.exists_cons_of_ne_nil hne
    rcases bitAt_zero_or_one e.1 (SMT_DEPTH - (h + 1)) with hbit | hbit
    · exact ⟨_, hlevel.left, List.ne_nil_of_mem (List.mem_filter.mpr ⟨List.mem_cons_self, by simp [hbit]⟩)⟩
    · exact ⟨_, hlevel.right, List.ne_nil_of_mem (List.mem_filter.mpr ⟨List.mem_cons_self, by simp [hbit]⟩)⟩

/-- The entries a key ends at. -/
def leafLevel (key : Bytes32) : ℕ → List (Bytes32 × Bytes32) → List (Bytes32 × Bytes32)
  | 0, entries => entries
  | h + 1, entries =>
    if bitAt key (SMT_DEPTH - (h + 1)) = 1 then leafLevel key h (rightOf h entries)
    else leafLevel key h (leftOf h entries)

theorem leafLevel_eq_alike (key : Bytes32) (h : ℕ) (entries : List (Bytes32 × Bytes32)) :
    (leafLevel key h entries).map (fun e => (e.1, e.2.1)) =
      SparseTree.alike goesRight h key (entries.map fun e => (e.1, e.2.1)) := by
  induction h generalizing entries with
  | zero => rfl
  | succ h ih =>
    rw [leafLevel, SparseTree.alike]
    rcases bitAt_zero_or_one key (SMT_DEPTH - (h + 1)) with hbit | hbit
    · have hside : goesRight h key = false := by simp [goesRight, hbit]
      rw [if_neg (by simp [hbit]), hside, ← left_eq_side, ih]
      rfl
    · have hside : goesRight h key = true := by simp [goesRight, hbit]
      rw [if_pos hbit, hside, ← right_eq_side, ih]
      rfl

theorem smtNode_leafLevel (key : Bytes32) : smtNode 0 (leafLevel key SMT_DEPTH M.pairs) = M.leafAt key := by
  rw [smtNode_eq_root, leafLevel_eq_alike, SparseTree.root_alike goesRight_ext, M.find_pairs]
  rfl

theorem leafLevel_nil (key : Bytes32) (h : ℕ) : leafLevel key h [] = [] := by
  induction h with
  | zero => rfl
  | succ h ih =>
    rw [leafLevel]
    split_ifs
    · exact ih
    · exact ih

theorem proveFrom_nil_succ (key : Bytes32) (h : ℕ) : proveFrom key (h + 1) [] = EMPTY h :: proveFrom key h [] := by
  rw [proveFrom]
  split_ifs <;> rw [List.filter_nil, List.filter_nil, smtNode_nil]

theorem proveFrom_succ (key : Bytes32) (h : ℕ) (entries : List (Bytes32 × Bytes32)) :
    proveFrom key (h + 1) entries =
      if bitAt key (SMT_DEPTH - (h + 1)) = 1 then
        smtNode h (leftOf h entries) :: proveFrom key h (rightOf h entries)
      else smtNode h (rightOf h entries) :: proveFrom key h (leftOf h entries) := rfl

/-! ### The walk -/

/-- Below a missing row everything is empty. -/
theorem descendLoop_empty (key : Bytes32) (h : ℕ) (cur : String) :
    descendLoop getStateNode key h cur true = ((proveFrom key h []).map toHex, EMPTY0_HEX) := by
  induction h generalizing cur with
  | zero => rfl
  | succ h ih => rw [descendLoop, if_pos rfl, ih, proveFrom_nil_succ, List.map_cons]

/-- A row of the root of an empty subtree has the two empty subtrees below it. -/
theorem empty_row (hstored : Stored M getStateNode) (hrows : NoEmptyRow M getStateNode) (hapart : EmptyApart M)
    {h : ℕ} (hh : h < SMT_DEPTH) {row : String × String} (hrow : getStateNode (toHex (EMPTY (h + 1))) = some row) :
    row = (toHex (EMPTY h), toHex (EMPTY h)) := by
  obtain ⟨h', entries, hlevel, hne, hnode⟩ := hrows h hh (by simp [hrow])
  have hown := hstored h' entries hlevel hne
  have hhash := (smtNode_succ hne).symm.trans hnode
  have hpair := nodeBytes_inj (.inl (length_smtNode _ _)) ⟨length_EMPTY h, length_EMPTY h⟩
    (hapart h' entries hlevel hne h hh hhash)
  obtain ⟨hleft, hright⟩ := Prod.mk.inj hpair
  rw [hnode, hrow, hleft, hright] at hown
  exact Option.some.inj hown

/-- The walk from a node of the tree down. -/
theorem descendLoop_level (hstored : Stored M getStateNode) (hrows : NoEmptyRow M getStateNode)
    (hapart : EmptyApart M) (key : Bytes32) {h : ℕ} (hh : h ≤ SMT_DEPTH) {entries : List (Bytes32 × Bytes32)}
    (hlevel : Level M h entries) :
    descendLoop getStateNode key h (toHex (smtNode h entries)) false =
      ((proveFrom key h entries).map toHex, toHex (smtNode 0 (leafLevel key h entries))) := by
  induction h generalizing entries with
  | zero => rfl
  | succ h ih =>
    by_cases hne : entries = []
    · subst hne
      -- an empty node: either no row, or one that leads to two empty nodes again
      rw [descendLoop, if_neg (by simp), smtNode_nil]
      cases hrow : getStateNode (toHex (EMPTY (h + 1))) with
      | none =>
        dsimp only
        rw [descendLoop_empty, leafLevel_nil, proveFrom_nil_succ]
        rfl
      | some row =>
        rw [empty_row hstored hrows hapart (by omega) hrow]
        have hbelow := ih (by omega) hlevel.left
        have hnil : leftOf h [] = [] := rfl
        rw [hnil, smtNode_nil, leafLevel_nil] at hbelow
        dsimp only
        rw [hbelow, leafLevel_nil, proveFrom_nil_succ]
        split_ifs <;> rfl
    · rw [descendLoop, if_neg (by simp), hstored h entries hlevel hne, proveFrom_succ, leafLevel]
      dsimp only
      rcases bitAt_zero_or_one key (SMT_DEPTH - (h + 1)) with hbit | hbit
      · rw [if_pos hbit, if_neg (by simp [hbit]), if_neg (by simp [hbit]), ih (by omega) hlevel.left,
          List.map_cons]
      · rw [if_neg (by simp [hbit]), if_pos hbit, if_pos hbit, ih (by omega) hlevel.right, List.map_cons]

theorem descend_eq (hstored : Stored M getStateNode) (hrows : NoEmptyRow M getStateNode) (hapart : EmptyApart M)
    (key : Bytes32) :
    descend getStateNode M.rootHex key = ((M.siblings key).map toHex, toHex (M.leafAt key)) := by
  rw [descend, SparseMerkleTree.rootHex, SparseMerkleTree.root,
    descendLoop_level hstored hrows hapart key le_rfl .root, smtNode_leafLevel]
  rfl

/-- The proof served is the tree's own, but that a leaf which is the empty constant is served as absent. -/
theorem prove_eq (hstored : Stored M getStateNode) (hrows : NoEmptyRow M getStateNode) (hapart : EmptyApart M)
    (key : Bytes32) :
    (prove getStateNode M.rootHex key).siblings = (M.prove key).siblings ∧
      (prove getStateNode M.rootHex key).compressed = (M.prove key).compressed ∧
      leafBytes (prove getStateNode M.rootHex key).leaf_value = M.leafAt key ∧
      ((M.lookup key).map Subtype.val ≠ some (EMPTY 0) →
        prove getStateNode M.rootHex key = M.prove key) := by
  have hdescend := descend_eq hstored hrows hapart key
  have hsiblings : (prove getStateNode M.rootHex key).siblings = (M.prove key).siblings := by
    rw [prove, hdescend]
    rfl
  refine ⟨hsiblings, ?_, ?_, fun hleaf => ?_⟩
  · rw [prove, hdescend]
    rfl
  · rw [prove, hdescend]
    dsimp only
    split_ifs with hempty
    · rw [leafBytes, toBuf_toHex]
    · exact (toHex_inj.mp (not_not.mp hempty)).symm
  · simp only [prove, hdescend, SparseMerkleTree.prove, SparseMerkleTree.leafAt, EMPTY0_HEX, ne_eq, toHex_inj]
    cases hlookup : M.lookup key with
    | none => simp
    | some leaf =>
      rw [hlookup] at hleaf
      have hne : leaf.1 ≠ EMPTY 0 := fun h => hleaf (congrArg some h)
      simp [hne]

/-- A leaf that is the empty constant is proven absent. -/
theorem prove_emptyLeaf (hstored : Stored M getStateNode) (hrows : NoEmptyRow M getStateNode)
    (hapart : EmptyApart M) {key : Bytes32} (hleaf : (M.lookup key).map Subtype.val = some (EMPTY 0)) :
    (prove getStateNode M.rootHex key).leaf_value = none := by
  simp only [prove, descend_eq hstored hrows hapart key, SparseMerkleTree.leafAt, hleaf, Option.getD_some,
    EMPTY0_HEX, ne_eq, not_true_eq_false, ↓reduceIte]

/-- It is accepted against the root. -/
theorem verify_served (hstored : Stored M getStateNode) (hrows : NoEmptyRow M getStateNode)
    (hapart : EmptyApart M) (key : Bytes32) :
    verifyCompressedSmtProof M.rootHex key (prove getStateNode M.rootHex key).leaf_value
      (prove getStateNode M.rootHex key).compressed = .ok true := by
  obtain ⟨-, hcompressed, hleaf, -⟩ := prove_eq hstored hrows hapart key
  rw [hcompressed, SparseMerkleTree.prove, verifyCompressedSmtProof, decompress_compress (M.length_siblings key)]
  have hverify : verifySmtProof M.rootHex key (prove getStateNode M.rootHex key).leaf_value
      ((M.siblings key).map toHex) = true := by
    rw [verifySmtProof_iff, hleaf, List.length_map, M.length_siblings, List.map_map]
    simp [Function.comp_def]
  exact congrArg Except.ok hverify

end ProofServer
