import XChainExplorer.Consensus.MerklePrimitives
import XChainExplorer.Lib.SparseTree
import Mathlib.Data.List.AList

/-! # The sparse Merkle tree

    A map from keys of 256 bits to leaves of 32 bytes, its root, the proof of a key and its verification.
    A key without a leaf is proven absent: the empty constant stands where its leaf would. -/

namespace Merkle

open HashPath

/-! ### The tree -/

/-- Bit `i` of a key, the highest bit of its first byte first. -/
def bitAt (key : Bytes) (i : ℕ) : ℕ := ((key.getD (i >>> 3) 0).toNat >>> (7 - (i &&& 7))) &&& 1

/-- `smtNode` at depth `SMT_DEPTH - height`. -/
def smtNode : ℕ → List (Bytes32 × Bytes32) → Bytes
  | height, [] => EMPTY height
  | 0, e :: _ => e.2
  | height + 1, entries =>
    nodeHash
      (smtNode height (entries.filter fun e => bitAt e.1 (SMT_DEPTH - (height + 1)) = 0))
      (smtNode height (entries.filter fun e => bitAt e.1 (SMT_DEPTH - (height + 1)) ≠ 0))

/-- The siblings below depth `SMT_DEPTH - height`, from there down. -/
def proveFrom (key : Bytes32) : ℕ → List (Bytes32 × Bytes32) → List Bytes
  | 0, _ => []
  | height + 1, level =>
    let left := level.filter fun e => bitAt e.1 (SMT_DEPTH - (height + 1)) = 0
    let right := level.filter fun e => bitAt e.1 (SMT_DEPTH - (height + 1)) ≠ 0
    if bitAt key (SMT_DEPTH - (height + 1)) = 1 then smtNode height left :: proveFrom key height right
    else smtNode height right :: proveFrom key height left

/-- `SparseMerkleTree`: the leaves by their keys. -/
abbrev SparseMerkleTree := AList fun _ : Bytes32 => Bytes32

namespace SparseMerkleTree

/-- The entries of a tree. -/
def pairs (M : SparseMerkleTree) : List (Bytes32 × Bytes32) := M.entries.map fun e => (e.1, e.2)

/-- The root of a tree. -/
def root (M : SparseMerkleTree) : Bytes := smtNode SMT_DEPTH M.pairs

/-- It in hexadecimal. -/
def rootHex (M : SparseMerkleTree) : String := toHex M.root

/-- The siblings of `prove`, as bytes. -/
def siblings (M : SparseMerkleTree) (key : Bytes32) : List Bytes := proveFrom key SMT_DEPTH M.pairs

end SparseMerkleTree

/-! ### Its proofs -/

/-- A proof on the wire: the siblings that are not empty subtrees, and the bitmap of their depths. -/
structure CompressedProof where
  bitmap : String
  siblings : List String
  deriving DecidableEq

/-- One sibling, at depth `d`. -/
def compressStep (acc : Bytes × List String) (d : ℕ) (sib : Bytes) : Bytes × List String :=
  if sib ≠ EMPTY (SMT_DEPTH - 1 - d) then
    (acc.1.modify (d >>> 3) fun byte => byte ||| 1 <<< UInt8.ofNat (7 - (d &&& 7)), acc.2 ++ [toHex sib])
  else acc

/-- The bits of the siblings that are not empty, and these. -/
def compressLoop (siblings : List Bytes) : Bytes × List String :=
  siblings.zipIdx.foldl (fun acc p => compressStep acc p.2 p.1) (List.replicate 32 0, [])

/-- The siblings without the empty ones. -/
def compressSmtProof (siblings : List String) : CompressedProof where
  bitmap := toHex (compressLoop (siblings.map toBuf)).1
  siblings := (compressLoop (siblings.map toBuf)).2

/-- `prove`'s answer. -/
structure SmtProof where
  key : String
  leaf_value : Option String
  siblings : List String
  compressed : CompressedProof
  deriving DecidableEq

/-- The proof of a key. -/
def SparseMerkleTree.prove (M : SparseMerkleTree) (key : Bytes32) : SmtProof where
  key := toHex key
  leaf_value := (M.lookup key).map fun leaf => toHex leaf
  siblings := (M.siblings key).map toHex
  compressed := compressSmtProof ((M.siblings key).map toHex)

/-! ### Its verification -/

/-- The leaf that a value stands for. -/
def leafBytes (leafValueOrNull : Option String) : Bytes :=
  match leafValueOrNull with
  | none => EMPTY 0
  | some leaf => toBuf leaf

/-- The siblings below a depth, folded over a leaf from the deepest up. -/
def foldSiblings (key node : Bytes) : ℕ → List String → Bytes
  | _, [] => node
  | depth, sib :: below =>
    if bitAt key depth = 0 then nodeHash (foldSiblings key node (depth + 1) below) (toBuf sib)
    else nodeHash (toBuf sib) (foldSiblings key node (depth + 1) below)

/-- A proof holds against a root. -/
def verifySmtProof (rootHex : String) (key : Bytes) (leafValueOrNull : Option String)
    (siblings : List String) : Bool :=
  if siblings.length ≠ SMT_DEPTH then false
  else toHex (foldSiblings key (leafBytes leafValueOrNull) 0 siblings) = rootHex

/-! ### The bits of a key -/

/-- The side a key takes at a node `h + 1` high. -/
def goesRight (h : ℕ) (key : Bytes32) : Bool := bitAt key (SMT_DEPTH - (h + 1)) = 1

theorem bitAt_eq (key : Bytes) (i : ℕ) :
    bitAt key i = ((key.getD (i / 8) 0).toNat.testBit (7 - i % 8)).toNat := by
  have hand : i &&& 7 = i % 8 := Nat.and_two_pow_sub_one_eq_mod i 3
  rw [bitAt, hand, Nat.shiftRight_eq_div_pow i 3, Nat.testBit, Nat.and_one_is_mod, Nat.and_comm,
    Nat.and_one_is_mod]
  generalize (key.getD (i / 8) 0).toNat >>> (7 - i % 8) = n
  rcases Nat.mod_two_eq_zero_or_one n with h | h <;> simp [h]

theorem bitAt_lt_two (key : Bytes) (i : ℕ) : bitAt key i < 2 := by
  rw [bitAt_eq]
  exact Bool.toNat_lt _

theorem bitAt_zero_or_one (key : Bytes) (i : ℕ) : bitAt key i = 0 ∨ bitAt key i = 1 := by
  have := bitAt_lt_two key i
  omega

theorem toNat_injective {a b : Bool} (h : a.toNat = b.toNat) : a = b := by
  cases a <;> cases b <;> simp_all

theorem key_ext {a b : Bytes32} (h : ∀ i < SMT_DEPTH, bitAt a i = bitAt b i) : a = b := by
  refine Subtype.ext (List.ext_getElem (a.2.trans b.2.symm) ?_)
  intro j hj hj'
  refine UInt8.toNat_inj.mp (Nat.eq_of_testBit_eq fun t => ?_)
  have hja : j < 32 := a.2 ▸ hj
  by_cases ht : t < 8
  · have hbit := h (8 * j + (7 - t)) (by unfold SMT_DEPTH; omega)
    rw [bitAt_eq, bitAt_eq] at hbit
    have hbyte : (8 * j + (7 - t)) / 8 = j := by omega
    have hplace : 7 - (8 * j + (7 - t)) % 8 = t := by omega
    rw [hbyte, hplace, List.getD_eq_getElem _ _ hj, List.getD_eq_getElem _ _ hj'] at hbit
    exact toNat_injective hbit
  · have hlow (b : UInt8) : b.toNat.testBit t = false := by
      refine Nat.testBit_lt_two_pow (b.toNat_lt.trans_le ?_)
      exact Nat.pow_le_pow_right (by norm_num) (Nat.le_of_not_lt ht)
    rw [hlow, hlow]

theorem goesRight_ext (a b : Bytes32) (h : ∀ i < SMT_DEPTH, goesRight i a = goesRight i b) : a = b := by
  refine key_ext fun i hi => ?_
  have hbit := h (SMT_DEPTH - (i + 1)) (by omega)
  have hi' : SMT_DEPTH - (SMT_DEPTH - (i + 1) + 1) = i := by omega
  rw [goesRight, goesRight, hi', Bool.eq_iff_iff, decide_eq_true_iff, decide_eq_true_iff] at hbit
  have ha := bitAt_lt_two a i
  have hb := bitAt_lt_two b i
  omega

/-! ### The tree as a sparse tree -/

theorem EMPTY_succ (h : ℕ) : EMPTY (h + 1) = nodeHash (EMPTY h) (EMPTY h) := rfl

theorem left_eq_side (h : ℕ) (entries : List (Bytes32 × Bytes32)) :
    (entries.filter fun e => bitAt e.1 (SMT_DEPTH - (h + 1)) = 0).map (fun e => (e.1, e.2.1)) =
      SparseTree.side goesRight false h (entries.map fun e => (e.1, e.2.1)) := by
  rw [SparseTree.side, List.filter_map]
  congr 2
  funext e
  rcases bitAt_zero_or_one e.1 (SMT_DEPTH - (h + 1)) with hbit | hbit <;> simp [goesRight, hbit]

theorem right_eq_side (h : ℕ) (entries : List (Bytes32 × Bytes32)) :
    (entries.filter fun e => bitAt e.1 (SMT_DEPTH - (h + 1)) ≠ 0).map (fun e => (e.1, e.2.1)) =
      SparseTree.side goesRight true h (entries.map fun e => (e.1, e.2.1)) := by
  rw [SparseTree.side, List.filter_map]
  congr 2
  funext e
  rcases bitAt_zero_or_one e.1 (SMT_DEPTH - (h + 1)) with hbit | hbit <;> simp [goesRight, hbit]

theorem smtNode_eq_root (h : ℕ) (entries : List (Bytes32 × Bytes32)) :
    smtNode h entries = SparseTree.root nodeHash EMPTY goesRight h (entries.map fun e => (e.1, e.2.1)) := by
  induction h generalizing entries with
  | zero => cases entries <;> rfl
  | succ h ih =>
    rw [SparseTree.root_succ EMPTY_succ, ← left_eq_side, ← right_eq_side, ← ih, ← ih]
    cases entries with
    | nil => simp [smtNode, EMPTY_succ]
    | cons e entries => rw [smtNode]; nofun

/-- A proof's siblings with the sides of its key, from a depth down. -/
def pathFrom (key : Bytes) : ℕ → List Bytes → List (Bool × Bytes)
  | _, [] => []
  | depth, sib :: below => (decide (bitAt key depth = 1), sib) :: pathFrom key (depth + 1) below

theorem foldSiblings_eq_climb (key node : Bytes) (depth : ℕ) (siblings : List String) :
    foldSiblings key node depth siblings = climb nodeHash node (pathFrom key depth (siblings.map toBuf)) := by
  induction siblings generalizing depth with
  | nil => rfl
  | cons sib below ih =>
    rw [foldSiblings, ih, List.map_cons, pathFrom, climb]
    rcases bitAt_zero_or_one key depth with hbit | hbit <;> simp [hbit, join, children]

theorem pathFrom_proveFrom (key : Bytes32) (h : ℕ) (hh : h ≤ SMT_DEPTH) (level : List (Bytes32 × Bytes32)) :
    pathFrom key (SMT_DEPTH - h) (proveFrom key h level) =
      SparseTree.path nodeHash EMPTY goesRight h key (level.map fun e => (e.1, e.2.1)) := by
  induction h generalizing level with
  | zero => rfl
  | succ h ih =>
    have hdepth : SMT_DEPTH - (h + 1) + 1 = SMT_DEPTH - h := by omega
    rw [proveFrom, SparseTree.path]
    rcases bitAt_zero_or_one key (SMT_DEPTH - (h + 1)) with hbit | hbit
    · have hside : goesRight h key = false := by simp [goesRight, hbit]
      rw [hside, ← left_eq_side, Bool.not_false, ← right_eq_side]
      rw [if_neg (by simp [hbit]), pathFrom, hdepth, ih (by omega), smtNode_eq_root]
      simp [hbit]
    · have hside : goesRight h key = true := by simp [goesRight, hbit]
      rw [hside, ← right_eq_side, Bool.not_true, ← left_eq_side]
      rw [if_pos hbit, pathFrom, hdepth, ih (by omega), smtNode_eq_root]
      simp [hbit]

theorem sides_pathFrom (key : Bytes) (depth : ℕ) {siblings siblings' : List Bytes}
    (h : siblings.length = siblings'.length) :
    (pathFrom key depth siblings).map Prod.fst = (pathFrom key depth siblings').map Prod.fst := by
  induction siblings generalizing depth siblings' with
  | nil =>
    obtain rfl : siblings' = [] := by simpa using h.symm
    rfl
  | cons sib below ih =>
    cases siblings' with
    | nil => simp at h
    | cons sib' below' =>
      simp only [pathFrom, List.map_cons]
      rw [ih (depth + 1) (by simpa using h)]

theorem length_pathFrom (key : Bytes) (depth : ℕ) (siblings : List Bytes) :
    (pathFrom key depth siblings).length = siblings.length := by
  induction siblings generalizing depth with
  | nil => rfl
  | cons sib below ih => rw [pathFrom, List.length_cons, List.length_cons, ih]

theorem siblings_pathFrom (key : Bytes) (depth : ℕ) (siblings : List Bytes) :
    (pathFrom key depth siblings).map Prod.snd = siblings := by
  induction siblings generalizing depth with
  | nil => rfl
  | cons sib below ih => rw [pathFrom, List.map_cons, ih]

theorem length_proveFrom (key : Bytes32) (h : ℕ) (level : List (Bytes32 × Bytes32)) :
    (proveFrom key h level).length = h := by
  induction h generalizing level with
  | zero => rfl
  | succ h ih =>
    rw [proveFrom]
    split_ifs <;> rw [List.length_cons, ih]

namespace SparseMerkleTree

/-- What the tree holds under a key: its leaf, or the empty constant. -/
def leafAt (M : SparseMerkleTree) (key : Bytes32) : Bytes := ((M.lookup key).map Subtype.val).getD (EMPTY 0)

theorem find_pairs (M : SparseMerkleTree) (key : Bytes32) :
    ((M.pairs.map fun e => (e.1, e.2.1)).find? fun e => decide (e.1 = key)).map Prod.snd =
      (M.lookup key).map Subtype.val := by
  obtain ⟨entries, hnodup⟩ := M
  change _ = (entries.dlookup key).map Subtype.val
  rw [pairs, List.map_map]
  dsimp only
  clear hnodup
  induction entries with
  | nil => rfl
  | cons e entries ih =>
    obtain ⟨k, leaf⟩ := e
    by_cases he : k = key
    · subst he
      simp
    · rw [List.dlookup_cons_ne _ _ (Ne.symm he), ← ih]
      simp [he]

/-- The path of a key leads from what the tree holds under it to the root. -/
theorem climb_siblings (M : SparseMerkleTree) (key : Bytes32) :
    climb nodeHash (M.leafAt key) (pathFrom key 0 (M.siblings key)) = M.root := by
  have hpath := pathFrom_proveFrom key SMT_DEPTH le_rfl M.pairs
  rw [Nat.sub_self] at hpath
  rw [siblings, hpath, root, smtNode_eq_root, ← SparseTree.climb_path EMPTY_succ key,
    SparseTree.root_alike goesRight_ext, find_pairs]
  rfl

theorem length_leafAt (M : SparseMerkleTree) (key : Bytes32) : (M.leafAt key).length = 32 := by
  rw [leafAt]
  cases M.lookup key with
  | none => exact length_EMPTY 0
  | some leaf => exact leaf.2

theorem leafBytes_prove (M : SparseMerkleTree) (key : Bytes32) :
    leafBytes (M.prove key).leaf_value = M.leafAt key := by
  rw [leafAt, prove]
  cases M.lookup key with
  | none => rfl
  | some leaf => exact toBuf_toHex leaf

theorem toBuf_prove (M : SparseMerkleTree) (key : Bytes32) :
    (M.prove key).siblings.map toBuf = M.siblings key := by
  simp [prove, List.map_map, Function.comp_def]

theorem length_siblings (M : SparseMerkleTree) (key : Bytes32) : (M.siblings key).length = SMT_DEPTH :=
  length_proveFrom key SMT_DEPTH M.pairs

end SparseMerkleTree

theorem length_smtNode (h : ℕ) (entries : List (Bytes32 × Bytes32)) : (smtNode h entries).length = 32 := by
  cases entries with
  | nil => simp [smtNode]
  | cons e entries =>
    cases h with
    | zero => exact e.2.2
    | succ h => rw [smtNode]; exacts [length_nodeHash _ _, nofun]

theorem length_of_mem_proveFrom {key : Bytes32} {h : ℕ} {level : List (Bytes32 × Bytes32)} {sib : Bytes}
    (hsib : sib ∈ proveFrom key h level) : sib.length = 32 := by
  induction h generalizing level with
  | zero => simp [proveFrom] at hsib
  | succ h ih =>
    rw [proveFrom] at hsib
    split_ifs at hsib
    all_goals
      rcases List.mem_cons.mp hsib with rfl | hsib
      · exact length_smtNode _ _
      · exact ih hsib

/-! ### What an accepted proof shows -/

/-- The byte strings a verification hashes, from the root down. -/
def verifierHashed (key : Bytes) (leafValueOrNull : Option String) (siblings : List String) : List Bytes :=
  (steps nodeHash (leafBytes leafValueOrNull) (pathFrom key 0 (siblings.map toBuf))).map nodeBytes

/-- The byte strings the tree itself hashes along the path of a key, from the root down. -/
def SparseMerkleTree.pathHashed (M : SparseMerkleTree) (key : Bytes32) : List Bytes :=
  (steps nodeHash (M.leafAt key) (pathFrom key 0 (M.siblings key))).map nodeBytes

theorem verifySmtProof_iff {M : SparseMerkleTree} {key : Bytes32} {leaf : Option String}
    {siblings : List String} :
    verifySmtProof M.rootHex key leaf siblings = true ↔ siblings.length = SMT_DEPTH ∧
      climb nodeHash (leafBytes leaf) (pathFrom key 0 (siblings.map toBuf)) =
        climb nodeHash (M.leafAt key) (pathFrom key 0 (M.siblings key)) := by
  rw [verifySmtProof, foldSiblings_eq_climb, M.climb_siblings]
  by_cases hlen : siblings.length = SMT_DEPTH
  · simp [hlen, SparseMerkleTree.rootHex]
  · simp [hlen]

theorem mem_pathFrom {key : Bytes} {depth : ℕ} {siblings : List Bytes} {step : Bool × Bytes}
    (h : step ∈ pathFrom key depth siblings) : step.2 ∈ siblings := by
  rw [← siblings_pathFrom key depth siblings]
  exact List.mem_map_of_mem h

theorem SparseMerkleTree.lengths_of_mem_path (M : SparseMerkleTree) (key : Bytes32) :
    ∀ p ∈ steps nodeHash (M.leafAt key) (pathFrom key 0 (M.siblings key)), p.1.length = 32 ∧ p.2.length = 32 := by
  refine lengths_of_mem_steps (M.length_leafAt key) ?_
  intro step hstep
  exact length_of_mem_proveFrom (mem_pathFrom hstep)

/-- Of the claims of 32 bytes only the tree's own leaf is accepted, whatever the siblings. -/
theorem leaf_of_accepted {M : SparseMerkleTree} {key : Bytes32} {leaf : Option String}
    {siblings : List String} (hleaf : (leafBytes leaf).length = 32)
    (hfree : CollisionFree (verifierHashed key leaf siblings) (M.pathHashed key))
    (h : verifySmtProof M.rootHex key leaf siblings = true) : leafBytes leaf = M.leafAt key := by
  obtain ⟨hlen, hclimb⟩ := verifySmtProof_iff.mp h
  have hsides := sides_pathFrom key 0
    (show (siblings.map toBuf).length = (M.siblings key).length by rw [List.length_map, hlen, M.length_siblings])
  exact (climb_inj hsides
    (noCollision_of_free (length_of_mem_steps hleaf) (M.lengths_of_mem_path key) hfree) hclimb).1

theorem verify_prove (M : SparseMerkleTree) (key : Bytes32) :
    verifySmtProof M.rootHex key (M.prove key).leaf_value (M.prove key).siblings = true := by
  rw [verifySmtProof_iff, M.leafBytes_prove, M.toBuf_prove]
  exact ⟨by rw [SparseMerkleTree.prove, List.length_map, M.length_siblings], rfl⟩

theorem collisionFree_prove (M : SparseMerkleTree) (key : Bytes32) :
    CollisionFree (verifierHashed key (M.prove key).leaf_value (M.prove key).siblings) (M.pathHashed key) := by
  rw [verifierHashed, M.toBuf_prove, M.leafBytes_prove]
  exact collisionFree_self _

/-- The proof of a key is accepted, and whatever proof is accepted for a key claims what the tree holds
    under it. Where that is not the empty constant itself, the claim is empty just where the key is
    absent. -/
theorem smtProof_agrees (M : SparseMerkleTree) (key : Bytes32) :
    verifySmtProof M.rootHex key (M.prove key).leaf_value (M.prove key).siblings = true ∧
      ∀ (leaf : Option String) (siblings : List String), (leafBytes leaf).length = 32 →
        CollisionFree (verifierHashed key leaf siblings) (M.pathHashed key) →
        verifySmtProof M.rootHex key leaf siblings = true →
        leafBytes leaf = M.leafAt key ∧
          ((M.lookup key).map Subtype.val ≠ some (EMPTY 0) → (leafBytes leaf = EMPTY 0 ↔ key ∉ M)) := by
  refine ⟨verify_prove M key, ?_⟩
  intro leaf siblings hleaf hfree h
  have hclaim := leaf_of_accepted hleaf hfree h
  refine ⟨hclaim, fun hempty => ?_⟩
  rw [hclaim, SparseMerkleTree.leafAt, ← AList.lookup_eq_none]
  cases hk : M.lookup key with
  | none => simp
  | some leaf' =>
    rw [hk] at hempty
    simpa using hempty

/-- The key of zeros. -/
def zeros : Bytes32 := ⟨List.replicate 32 0, by simp⟩

/-- A tree of one leaf. -/
def oneLeaf (key leaf : Bytes32) : SparseMerkleTree := (∅ : SparseMerkleTree).insert key leaf

theorem lookup_oneLeaf (key leaf : Bytes32) : (oneLeaf key leaf).lookup key = some leaf :=
  AList.lookup_insert _

/-- A value of one repeated byte. -/
def filled (b : UInt8) : Bytes32 := ⟨List.replicate 32 b, by simp⟩

/-- Two keys that part at the first bit. -/
def twoLeaves : SparseMerkleTree := (oneLeaf (filled 255) (filled 2)).insert zeros (filled 1)

theorem lookup_twoLeaves : twoLeaves.lookup zeros = some (filled 1) := AList.lookup_insert _

theorem not_mem_twoLeaves : filled 7 ∉ twoLeaves := by
  rw [twoLeaves, oneLeaf, AList.mem_insert, AList.mem_insert]
  simp only [AList.notMem_empty, or_false, not_or]
  exact ⟨by decide, by decide⟩

/-- The key of a leaf and a key that is absent. -/
theorem smtProof_agrees_two :
    (verifySmtProof twoLeaves.rootHex zeros (twoLeaves.prove zeros).leaf_value (twoLeaves.prove zeros).siblings =
        true ∧ leafBytes (twoLeaves.prove zeros).leaf_value ≠ EMPTY 0) ∧
      verifySmtProof twoLeaves.rootHex (filled 7) (twoLeaves.prove (filled 7)).leaf_value
          (twoLeaves.prove (filled 7)).siblings = true ∧
        leafBytes (twoLeaves.prove (filled 7)).leaf_value = EMPTY 0 := by
  have hclaim (key : Bytes32) (hempty : (twoLeaves.lookup key).map Subtype.val ≠ some (EMPTY 0)) :
      verifySmtProof twoLeaves.rootHex key (twoLeaves.prove key).leaf_value (twoLeaves.prove key).siblings = true ∧
        (leafBytes (twoLeaves.prove key).leaf_value = EMPTY 0 ↔ key ∉ twoLeaves) := by
    have h := smtProof_agrees twoLeaves key
    have hleaf : (leafBytes (twoLeaves.prove key).leaf_value).length = 32 := by
      rw [SparseMerkleTree.leafBytes_prove, SparseMerkleTree.length_leafAt]
    exact ⟨h.1, (h.2 _ _ hleaf (collisionFree_prove _ _) h.1).2 hempty⟩
  have hpresent : (twoLeaves.lookup zeros).map Subtype.val ≠ some (EMPTY 0) := by
    rw [lookup_twoLeaves]
    decide +kernel
  have habsent : (twoLeaves.lookup (filled 7)).map Subtype.val ≠ some (EMPTY 0) := by
    rw [AList.lookup_eq_none.mpr not_mem_twoLeaves]
    exact Option.some_ne_none _ ∘ Eq.symm
  refine ⟨⟨(hclaim zeros hpresent).1, fun h => ?_⟩, (hclaim _ habsent).1,
    (hclaim _ habsent).2.mpr not_mem_twoLeaves⟩
  refine (hclaim zeros hpresent).2.mp h ?_
  rw [← AList.lookup_isSome, lookup_twoLeaves]
  rfl

/-- A tree that stores the empty constant as a leaf proves that leaf's key absent. -/
theorem emptyLeaf_proven_absent :
    ∃ (M : SparseMerkleTree) (key : Bytes32) (siblings : List String), siblings.length = SMT_DEPTH ∧
      (∀ sib ∈ siblings, (toBuf sib).length = 32) ∧
      CollisionFree (verifierHashed key none siblings) (M.pathHashed key) ∧
      verifySmtProof M.rootHex key none siblings = true ∧ key ∈ M := by
  let M := oneLeaf zeros ⟨EMPTY 0, length_EMPTY 0⟩
  have hlookup : M.lookup zeros = some ⟨EMPTY 0, length_EMPTY 0⟩ := lookup_oneLeaf _ _
  have hleaf : leafBytes none = M.leafAt zeros := by
    rw [SparseMerkleTree.leafAt, hlookup]
    rfl
  have hlen : (M.prove zeros).siblings.length = SMT_DEPTH := by
    rw [SparseMerkleTree.prove, List.length_map, M.length_siblings]
  refine ⟨M, zeros, (M.prove zeros).siblings, hlen, ?_, ?_, ?_, ?_⟩
  · intro sib hsib
    obtain ⟨bytes, hbytes, rfl⟩ := List.mem_map.mp hsib
    rw [toBuf_toHex]
    exact length_of_mem_proveFrom hbytes
  · rw [verifierHashed, hleaf, M.toBuf_prove]
    exact collisionFree_self _
  · rw [verifySmtProof_iff, hleaf, M.toBuf_prove]
    exact ⟨hlen, rfl⟩
  · rw [← AList.lookup_isSome, hlookup]
    rfl

/-! ### Leaves of another length -/

/-- The proof is the tree's own, but for its lowest pair, which is the same bytes cut at another place. -/
def SparseMerkleTree.CutElsewhere (M : SparseMerkleTree) (key : Bytes32) (leafValueOrNull : Option String)
    (siblings : List String) : Prop :=
  (leafBytes leafValueOrNull).length ≠ 32 ∧ siblings.length = SMT_DEPTH ∧
    (siblings.map toBuf).take 255 = (M.siblings key).take 255 ∧
    nodeBytes (children (bitAt key 255 = 1) ((siblings.map toBuf).getD 255 []) (leafBytes leafValueOrNull)) =
      nodeBytes (children (bitAt key 255 = 1) ((M.siblings key).getD 255 []) (M.leafAt key))

theorem pathFrom_append (key : Bytes) (depth : ℕ) (above below : List Bytes) :
    pathFrom key depth (above ++ below) =
      pathFrom key depth above ++ pathFrom key (depth + above.length) below := by
  induction above generalizing depth with
  | nil => rfl
  | cons sib above ih =>
    have hdepth : depth + (sib :: above).length = depth + 1 + above.length := by
      rw [List.length_cons]
      omega
    rw [List.cons_append, pathFrom, ih, pathFrom, List.cons_append, hdepth]

/-- The lowest sibling of a proof, and the others. -/
theorem pathFrom_last (key : Bytes) {siblings : List Bytes} (h : siblings.length = SMT_DEPTH) :
    pathFrom key 0 siblings =
      pathFrom key 0 (siblings.take 255) ++ [(decide (bitAt key 255 = 1), siblings.getD 255 [])] := by
  have hlt : 255 < siblings.length := by rw [h, SMT_DEPTH]; norm_num
  have hsplit : siblings = siblings.take 255 ++ [siblings.getD 255 []] := by
    conv_lhs => rw [← List.take_append_drop 255 siblings]
    rw [List.drop_eq_getElem_cons hlt, List.drop_eq_nil_of_le (by rw [h]; rfl),
      List.getD_eq_getElem _ _ hlt]
  conv_lhs => rw [hsplit, pathFrom_append]
  have hdepth : 0 + (siblings.take 255).length = 255 := by
    rw [List.length_take, min_eq_left hlt.le, Nat.zero_add]
  rw [hdepth]
  rfl

/-- Such a proof is hashed over the very bytes the tree is. -/
theorem SparseMerkleTree.CutElsewhere.hashed {M : SparseMerkleTree} {key : Bytes32} {leaf : Option String}
    {siblings : List String} (h : M.CutElsewhere key leaf siblings) :
    verifierHashed key leaf siblings = M.pathHashed key := by
  obtain ⟨-, hlen, hupper, hlowest⟩ := h
  have hnode := congrArg Sha256.sha256 hlowest
  rw [verifierHashed, pathHashed, pathFrom_last key ((List.length_map toBuf).trans hlen),
    pathFrom_last key (M.length_siblings key), steps_append, steps_append, hupper]
  simp only [List.map_append, climb, steps, List.map_cons, List.map_nil, hlowest]
  rw [show join nodeHash (children (bitAt key 255 = 1) ((siblings.map toBuf).getD 255 []) (leafBytes leaf)) =
    join nodeHash (children (bitAt key 255 = 1) ((M.siblings key).getD 255 []) (M.leafAt key)) from hnode]

/-- It is accepted. -/
theorem SparseMerkleTree.CutElsewhere.accepted {M : SparseMerkleTree} {key : Bytes32} {leaf : Option String}
    {siblings : List String} (h : M.CutElsewhere key leaf siblings) :
    verifySmtProof M.rootHex key leaf siblings = true := by
  obtain ⟨-, hlen, hupper, hlowest⟩ := h
  rw [verifySmtProof_iff, pathFrom_last key ((List.length_map toBuf).trans hlen),
    pathFrom_last key (M.length_siblings key), climb_concat, climb_concat, hupper]
  refine ⟨hlen, ?_⟩
  congr 1
  exact congrArg Sha256.sha256 hlowest

/-- Whatever the lengths of its entries: a proof is accepted only for the tree's own leaf, unless it is
    the tree's own proof with the lowest pair cut elsewhere. -/
theorem verifySmtProof_binds_iff (M : SparseMerkleTree) (key : Bytes32) (leaf : Option String)
    (siblings : List String) (hfree : CollisionFree (verifierHashed key leaf siblings) (M.pathHashed key)) :
    (verifySmtProof M.rootHex key leaf siblings = true → leafBytes leaf = M.leafAt key) ↔
      ¬ M.CutElsewhere key leaf siblings := by
  have hown := M.length_siblings key
  have hownPath := M.lengths_of_mem_path key
  constructor
  · intro hbinds hcut
    refine hcut.1 ?_
    rw [hbinds hcut.accepted, M.length_leafAt]
  · intro hcut h
    by_contra hne
    have hleaf : (leafBytes leaf).length ≠ 32 := fun hlen => hne (leaf_of_accepted hlen hfree h)
    obtain ⟨hlen, hclimb⟩ := verifySmtProof_iff.mp h
    have hlen' : (siblings.map toBuf).length = SMT_DEPTH := (List.length_map toBuf).trans hlen
    rw [verifierHashed, SparseMerkleTree.pathHashed, pathFrom_last key hlen', pathFrom_last key hown,
      steps_append, steps_append, List.map_append, List.map_append] at hfree
    rw [pathFrom_last key hown, steps_append] at hownPath
    rw [pathFrom_last key hlen', pathFrom_last key hown, climb_append, climb_append] at hclimb
    have htake : ((siblings.map toBuf).take 255).length = ((M.siblings key).take 255).length := by
      rw [List.length_take, List.length_take, hlen', hown]
    have hupper (a b : Bytes) :
        ((steps nodeHash a (pathFrom key 0 ((siblings.map toBuf).take 255))).map nodeBytes).length =
          ((steps nodeHash b (pathFrom key 0 ((M.siblings key).take 255))).map nodeBytes).length := by
      rw [List.length_map, List.length_map, length_steps, length_steps, length_pathFrom, length_pathFrom,
        htake]
    -- above the lowest pair every node is a hash, so the paths agree there
    have habove := noCollision_of_free (length_of_mem_steps (length_nodeHash _ _))
      (fun p hp => hownPath p (List.mem_append_left _ hp)) (hfree.left (hupper _ _))
    obtain ⟨hlow, hpaths⟩ := climb_inj (sides_pathFrom key 0 htake) habove hclimb
    have htakes := congrArg (List.map Prod.snd) hpaths
    rw [siblings_pathFrom, siblings_pathFrom] at htakes
    exact hcut ⟨hleaf, hlen, htakes, hfree.right (hupper _ _) (_, _) List.mem_cons_self hlow⟩

theorem verifySmtProof_binds_two :
    (verifySmtProof twoLeaves.rootHex zeros (twoLeaves.prove zeros).leaf_value (twoLeaves.prove zeros).siblings =
        true → leafBytes (twoLeaves.prove zeros).leaf_value = twoLeaves.leafAt zeros) ↔
      ¬ twoLeaves.CutElsewhere zeros (twoLeaves.prove zeros).leaf_value (twoLeaves.prove zeros).siblings :=
  verifySmtProof_binds_iff _ _ _ _ (collisionFree_prove _ _)

/-- With the lowest pair taken whole as the sibling, the empty string is accepted for a leaf. -/
theorem emptyString_accepted :
    ∃ (M : SparseMerkleTree) (key : Bytes32) (leaf : String) (siblings : List String),
      siblings.length = SMT_DEPTH ∧ CollisionFree (verifierHashed key (some leaf) siblings) (M.pathHashed key) ∧
      verifySmtProof M.rootHex key (some leaf) siblings = true ∧ leafBytes (some leaf) ≠ M.leafAt key := by
  let M := oneLeaf zeros zeros
  let lowest := M.leafAt zeros ++ (M.siblings zeros).getD 255 []
  let siblings := ((M.siblings zeros).take 255 ++ [lowest]).map toHex
  have hupper : ((M.siblings zeros).take 255).length = 255 := by
    rw [List.length_take, M.length_siblings]
    rfl
  have hbuf : siblings.map toBuf = (M.siblings zeros).take 255 ++ [lowest] := by
    simp [siblings, List.map_map, Function.comp_def]
  have hcut : M.CutElsewhere zeros (some "") siblings := by
    refine ⟨by decide, ?_, ?_, ?_⟩
    · rw [List.length_map, List.length_append, hupper, List.length_singleton, SMT_DEPTH]
    · rw [hbuf, List.take_append_of_le_length hupper.ge, List.take_of_length_le hupper.le]
    · have hbit : bitAt zeros 255 ≠ 1 := by decide +kernel
      have hsib : (siblings.map toBuf).getD 255 [] = lowest := by
        rw [hbuf, List.getD_append_right _ _ _ _ hupper.le, hupper]
        rfl
      have hleaf : leafBytes (some "") = [] := by decide
      rw [hsib, decide_eq_false hbit, hleaf, nodeBytes, nodeBytes]
      simp only [children, lowest, Bool.false_eq_true, ↓reduceIte, List.nil_append]
  refine ⟨M, zeros, "", siblings, hcut.2.1, ?_, hcut.accepted, ?_⟩
  · rw [hcut.hashed]
    exact collisionFree_self _
  · intro hleaf
    have hlen := congrArg List.length hleaf
    rw [M.length_leafAt] at hlen
    exact hcut.1 hlen

end Merkle
