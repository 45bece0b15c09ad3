import XChainExplorer.Consensus.MerklePrimitives
import Mathlib.Data.Nat.Log

/-! # The fixed binary Merkle tree

    A vector of nodes, padded to a power of two with the empty leaf, is joined layer by layer. A proof
    names the position, whose bits are the sides of its path from the leaf up. The bits are those of a
    32-bit integer, and so is the width. -/

namespace Merkle

open HashPath

instance : Inhabited Bytes := ⟨[]⟩

/-! ### The tree -/

/-- `ToInt32`, as which a bitwise operator reads a number. -/
def toInt32 (n : ℤ) : ℤ := n.bmod (2 ^ 32)

/-- The loop of `nextPow2`. After 32 shifts `p` is zero and stays so: without fuel the loop never ends. -/
def nextPow2Loop (n : ℕ) : ℕ → ℤ → Option ℕ
  | 0, _ => none
  | fuel + 1, p => if p < n then nextPow2Loop n fuel (toInt32 (p * 2)) else some p.toNat

def nextPow2 (n : ℕ) : Option ℕ := nextPow2Loop n 33 1

/-- The layer of the leaves. -/
def padLeaves (leaves : List Bytes) (width : ℕ) : List Bytes :=
  leaves ++ List.replicate (width - leaves.length) (EMPTY 0)

/-- The loop over the layers of `fixedMerkleRoot`. -/
def rootLoop : ℕ → List Bytes → Bytes
  | 0, layer => layer.headD []
  | fuel + 1, layer => if layer.length > 1 then rootLoop fuel (halve nodeHash layer) else layer.headD []

/-- `none` where `nextPow2` never ends. -/
def fixedMerkleRoot (leaves : List Bytes) : Option Bytes :=
  if leaves.length = 0 then some (EMPTY 0)
  else (nextPow2 leaves.length).map fun width => rootLoop width (padLeaves leaves width)

/-! ### Its proofs -/

structure FixedMerkleProof where
  index : ℤ
  siblings : List String
  deriving DecidableEq

/-- The loop over the layers of `fixedMerkleProof`. -/
def proofLoop : ℕ → List Bytes → ℕ → List String
  | 0, _, _ => []
  | fuel + 1, layer, idx =>
    if layer.length > 1 then
      toHex (layer.getD (idx ^^^ 1) []) :: proofLoop fuel (halve nodeHash layer) (idx >>> 1)
    else []

def fixedMerkleProof (leaves : List Bytes) (index : ℤ) : Option (Except String FixedMerkleProof) :=
  if index < 0 ∨ index ≥ leaves.length then some (.error "merkle: index out of range")
  else
    (nextPow2 leaves.length).map fun width =>
      .ok ⟨index, proofLoop width (padLeaves leaves width) index.toNat⟩

/-- The loop over the siblings of `verifyFixedMerkleProof`. -/
def verifyLoop (node : Bytes) (idx : ℤ) : List String → Bytes
  | [] => node
  | sib :: siblings =>
    verifyLoop (if toInt32 idx % 2 = 0 then nodeHash node (toBuf sib) else nodeHash (toBuf sib) node)
      (toInt32 idx / 2) siblings

def verifyFixedMerkleProof (rootHex : String) (leafBuf : Bytes) (index : ℤ) (siblings : List String) : Bool :=
  toHex (verifyLoop leafBuf index siblings) = rootHex

/-! ### The width -/

theorem toInt32_of_lt {n : ℤ} (h : 0 ≤ n) (hlt : n < 2 ^ 31) : toInt32 n = n := by
  rw [toInt32, Int.bmod_def]
  omega

/-- Over at most `2 ^ 30` leaves the loop ends at the power of two it is looking for. -/
theorem nextPow2Loop_some {n fuel j : ℕ} (hn : n ≤ 2 ^ 30) (hj : j ≤ 30) (hfuel : 31 ≤ fuel + j) :
    ∃ k ≤ 30, nextPow2Loop n fuel (2 ^ j) = some (2 ^ k) ∧ n ≤ 2 ^ k := by
  induction fuel generalizing j with
  | zero => omega
  | succ fuel ih =>
    rw [nextPow2Loop]
    split_ifs with hlt
    · have hpow : (2 : ℤ) ^ j < 2 ^ 30 := hlt.trans_le (by exact_mod_cast hn)
      have hj' : j < 30 := (pow_lt_pow_iff_right₀ (by norm_num)).mp hpow
      have hshift : toInt32 (2 ^ j * 2) = 2 ^ (j + 1) := by
        rw [← pow_succ, toInt32_of_lt (by positivity)]
        exact pow_lt_pow_right₀ (by norm_num) (by omega)
      rw [hshift]
      exact ih (by omega) (by omega)
    · refine ⟨j, hj, ?_, by exact_mod_cast not_lt.mp hlt⟩
      rw [show ((2 : ℤ) ^ j).toNat = 2 ^ j by exact_mod_cast Int.toNat_natCast (2 ^ j)]

theorem nextPow2_some {n : ℕ} (hn : n ≤ 2 ^ 30) : ∃ k ≤ 30, nextPow2 n = some (2 ^ k) ∧ n ≤ 2 ^ k := by
  have h : ∃ k ≤ 30, nextPow2Loop n 33 (2 ^ 0) = some (2 ^ k) ∧ n ≤ 2 ^ k :=
    nextPow2Loop_some hn (by omega) (by omega)
  exact h

/-- Over more the shifted power turns negative, then zero. -/
theorem nextPow2Loop_none {n fuel : ℕ} {p : ℤ} (hn : 2 ^ 30 < n)
    (hp : p = 0 ∨ p = -2 ^ 31 ∨ ∃ j ≤ 30, p = 2 ^ j) : nextPow2Loop n fuel p = none := by
  induction fuel generalizing p with
  | zero => rfl
  | succ fuel ih =>
    have hn' : (2 : ℤ) ^ 30 < n := by exact_mod_cast hn
    rw [nextPow2Loop]
    rcases hp with rfl | rfl | ⟨j, hj, rfl⟩
    · rw [if_pos (by omega)]
      exact ih (.inl (by decide))
    · rw [if_pos (by omega)]
      exact ih (.inl (by decide))
    · have hpow : (2 : ℤ) ^ j ≤ 2 ^ 30 := pow_le_pow_right₀ (by norm_num) hj
      rw [if_pos (by omega)]
      refine ih (.inr ?_)
      rcases Nat.lt_or_ge j 30 with hj' | hj'
      · refine .inr ⟨j + 1, hj', ?_⟩
        rw [← pow_succ, toInt32_of_lt (by positivity)]
        exact pow_lt_pow_right₀ (by norm_num) (by omega)
      · obtain rfl : j = 30 := by omega
        exact .inl (by decide)

theorem nextPow2_none {n : ℕ} (hn : 2 ^ 30 < n) : nextPow2 n = none :=
  nextPow2Loop_none hn (.inr (.inr ⟨0, by omega, by norm_num⟩))

theorem nextPow2_spec {n width : ℕ} (h : nextPow2 n = some width) :
    ∃ k ≤ 30, width = 2 ^ k ∧ n ≤ 2 ^ k := by
  rcases Nat.lt_or_ge (2 ^ 30) n with hn | hn
  · rw [nextPow2_none hn] at h
    cases h
  · obtain ⟨k, hk, hwidth, hle⟩ := nextPow2_some hn
    exact ⟨k, hk, Option.some.inj (h.symm.trans hwidth), hle⟩

/-! ### The layers -/

theorem length_padLeaves {leaves : List Bytes} {width : ℕ} (h : leaves.length ≤ width) :
    (padLeaves leaves width).length = width := by
  rw [padLeaves, List.length_append, List.length_replicate]
  omega

theorem rootLoop_eq {k fuel : ℕ} {layer : List Bytes} (hlen : layer.length = 2 ^ k) (hfuel : k ≤ fuel) :
    rootLoop fuel layer = rootOf nodeHash k layer := by
  induction k generalizing fuel layer with
  | zero =>
    cases fuel with
    | zero => rfl
    | succ fuel =>
      rw [rootLoop, if_neg (by rw [hlen]; simp)]
      rfl
  | succ k ih =>
    obtain ⟨fuel, rfl⟩ : ∃ m, fuel = m + 1 := ⟨fuel - 1, by omega⟩
    have hwide : layer.length > 1 := by
      rw [hlen]
      exact Nat.one_lt_two_pow (by omega)
    rw [rootLoop, if_pos hwide, rootOf]
    exact ih (length_halve_two_pow hlen) (by omega)

theorem xor_one_eq_beside (j : ℕ) : j ^^^ 1 = beside j := by
  rw [beside]
  split_ifs with h
  · exact Nat.xor_one_of_even (Nat.even_iff.mpr h)
  · exact Nat.xor_one_of_odd (Nat.odd_iff.mpr (by omega))

theorem proofLoop_eq {k fuel : ℕ} {layer : List Bytes} (hlen : layer.length = 2 ^ k) (hfuel : k ≤ fuel)
    (j : ℕ) : proofLoop fuel layer j = (pathUp nodeHash k layer j).map fun step => toHex step.2 := by
  induction k generalizing fuel layer j with
  | zero =>
    cases fuel with
    | zero => rfl
    | succ fuel =>
      rw [proofLoop, if_neg (by rw [hlen]; simp)]
      rfl
  | succ k ih =>
    obtain ⟨fuel, rfl⟩ : ∃ m, fuel = m + 1 := ⟨fuel - 1, by omega⟩
    have hwide : layer.length > 1 := by
      rw [hlen]
      exact Nat.one_lt_two_pow (by omega)
    rw [proofLoop, if_pos hwide, pathUp, List.map_cons, ih (length_halve_two_pow hlen) (by omega),
      xor_one_eq_beside, Nat.shiftRight_one]
    rfl

/-- The root and the proofs of a vector, over its padded layer. -/
theorem fixedMerkleRoot_eq {leaves : List Bytes} (hne : leaves ≠ []) {root : Bytes}
    (h : fixedMerkleRoot leaves = some root) :
    ∃ k ≤ 30, nextPow2 leaves.length = some (2 ^ k) ∧ leaves.length ≤ 2 ^ k ∧
      root = rootOf nodeHash k (padLeaves leaves (2 ^ k)) := by
  rw [fixedMerkleRoot, if_neg (by simpa using hne)] at h
  obtain ⟨width, hwidth, hroot⟩ := Option.map_eq_some_iff.mp h
  obtain ⟨k, hk, rfl, hle⟩ := nextPow2_spec hwidth
  refine ⟨k, hk, hwidth, hle, ?_⟩
  rw [← hroot, rootLoop_eq (length_padLeaves hle) (Nat.lt_two_pow_self).le]

theorem fixedMerkleProof_eq {leaves : List Bytes} {k j : ℕ} (hwidth : nextPow2 leaves.length = some (2 ^ k))
    (hle : leaves.length ≤ 2 ^ k) (hj : j < leaves.length) :
    fixedMerkleProof leaves j = some (.ok ⟨j,
      (pathUp nodeHash k (padLeaves leaves (2 ^ k)) j).map fun step => toHex step.2⟩) := by
  rw [fixedMerkleProof, if_neg (by omega), hwidth, Option.map_some,
    proofLoop_eq (length_padLeaves hle) (Nat.lt_two_pow_self).le, Int.toNat_natCast]

/-! ### What a position binds -/

/-- A proof's siblings with the sides of its index, from the leaf up. -/
def sidesUp (idx : ℤ) : List Bytes → List (Bool × Bytes)
  | [] => []
  | sib :: siblings => (decide (toInt32 idx % 2 ≠ 0), sib) :: sidesUp (toInt32 idx / 2) siblings

theorem verifyLoop_eq_climb (node : Bytes) (idx : ℤ) (siblings : List String) :
    verifyLoop node idx siblings = climb nodeHash node (sidesUp idx (siblings.map toBuf)).reverse := by
  induction siblings generalizing node idx with
  | nil => rfl
  | cons sib siblings ih =>
    rw [verifyLoop, ih, List.map_cons, sidesUp, List.reverse_cons, climb_concat]
    split_ifs with h <;> simp [h, join, children]

theorem siblings_sidesUp (idx : ℤ) (siblings : List Bytes) :
    (sidesUp idx siblings).map Prod.snd = siblings := by
  induction siblings generalizing idx with
  | nil => rfl
  | cons sib siblings ih => rw [sidesUp, List.map_cons, ih]

theorem sidesUp_cons {j : ℕ} (hj : j < 2 ^ 31) (sib : Bytes) (siblings : List Bytes) :
    sidesUp j (sib :: siblings) = (decide (j % 2 = 1), sib) :: sidesUp (j / 2 : ℕ) siblings := by
  rw [sidesUp, toInt32_of_lt (by omega) (by exact_mod_cast hj)]
  have hbit : decide ((j : ℤ) % 2 ≠ 0) = decide (j % 2 = 1) := by
    rw [decide_eq_decide]
    omega
  rw [hbit]
  rfl

/-- Of a position the sides are those of its path. -/
theorem sides_sidesUp {j : ℕ} (hj : j < 2 ^ 31) (layer : List Bytes) (siblings : List Bytes) :
    (sidesUp j siblings).map Prod.fst = (pathUp nodeHash siblings.length layer j).map Prod.fst := by
  induction siblings generalizing j layer with
  | nil => rfl
  | cons sib siblings ih =>
    rw [sidesUp_cons hj, List.length_cons, pathUp, List.map_cons, List.map_cons,
      ih (by omega) (halve nodeHash layer)]

theorem sidesUp_pathUp {k j : ℕ} (hj : j < 2 ^ 31) (layer : List Bytes) :
    sidesUp j ((pathUp nodeHash k layer j).map Prod.snd) = pathUp nodeHash k layer j := by
  induction k generalizing j layer with
  | zero => rfl
  | succ k ih => rw [pathUp, List.map_cons, sidesUp_cons hj, ih (by omega)]

theorem length_of_mem_halve : ∀ {layer : List Bytes} {b : Bytes}, b ∈ halve nodeHash layer → b.length = 32
  | [], _, h => by simp [halve] at h
  | [_], _, h => by simp [halve] at h
  | l :: r :: rest, b, h => by
    rcases List.mem_cons.mp h with rfl | h
    · exact length_nodeHash l r
    · exact length_of_mem_halve h

theorem beside_lt {n j : ℕ} (hj : j < 2 ^ (n + 1)) : beside j < 2 ^ (n + 1) := by
  rw [pow_succ] at hj ⊢
  rw [beside]
  split_ifs <;> omega

theorem length_of_mem_pathUp {k : ℕ} {layer : List Bytes} {j : ℕ} (hlen : layer.length = 2 ^ k)
    (hj : j < 2 ^ k) (hlayer : ∀ b ∈ layer, b.length = 32) :
    ∀ step ∈ pathUp nodeHash k layer j, step.2.length = 32 := by
  induction k generalizing layer j with
  | zero => simp [pathUp]
  | succ k ih =>
    intro step hstep
    rcases List.mem_cons.mp hstep with rfl | hstep
    · dsimp only
      rw [List.getD_eq_getElem _ _ (by rw [hlen]; exact beside_lt hj)]
      exact hlayer _ (List.getElem_mem _)
    · rw [pow_succ] at hj
      exact ih (length_halve_two_pow hlen) (by omega) (fun b => length_of_mem_halve) step hstep

theorem length_of_mem_padLeaves {leaves : List Bytes} (h : ∀ leaf ∈ leaves, leaf.length = 32) (width : ℕ) :
    ∀ b ∈ padLeaves leaves width, b.length = 32 := by
  intro b hb
  rcases List.mem_append.mp hb with hb | hb
  · exact h b hb
  · rw [(List.mem_replicate.mp hb).2]
    exact length_EMPTY 0

/-- The byte strings a verification hashes, from the root down. -/
def fixedVerifierHashed (leaf : Bytes) (index : ℤ) (siblings : List String) : List Bytes :=
  (steps nodeHash leaf (sidesUp index (siblings.map toBuf)).reverse).map nodeBytes

/-- The byte strings the tree over a layer of `2 ^ k` nodes hashes above a position, from the root down. -/
def fixedPathHashed (k : ℕ) (layer : List Bytes) (j : ℕ) : List Bytes :=
  (steps nodeHash (layer.getD j []) (pathUp nodeHash k layer j).reverse).map nodeBytes

/-- What stands at a position is accepted there, with the siblings of its path. -/
theorem verify_pathUp {k j : ℕ} {layer : List Bytes} {leaf : Bytes} (hlen : layer.length = 2 ^ k)
    (hj : j < 2 ^ 31) (hleaf : layer[j]? = some leaf) :
    verifyFixedMerkleProof (toHex (rootOf nodeHash k layer)) leaf j
      ((pathUp nodeHash k layer j).map fun step => toHex step.2) = true := by
  have hbuf : ((pathUp nodeHash k layer j).map fun step => toHex step.2).map toBuf =
      (pathUp nodeHash k layer j).map Prod.snd := by simp [Function.comp_def]
  rw [verifyFixedMerkleProof, verifyLoop_eq_climb, hbuf, sidesUp_pathUp hj, climb_pathUp hlen hleaf]
  exact decide_eq_true rfl

/-- Of 32 bytes, nothing but what stands at a position is accepted there, and with its own siblings. -/
theorem leaf_of_verified {j : ℕ} {layer : List Bytes} {leaf : Bytes} {siblings : List String}
    (hlen : layer.length = 2 ^ siblings.length) (hlayer : ∀ b ∈ layer, b.length = 32)
    (hj : j < 2 ^ siblings.length) (hj31 : j < 2 ^ 31) (hleaf : leaf.length = 32)
    (hfree : CollisionFree (fixedVerifierHashed leaf j siblings) (fixedPathHashed siblings.length layer j))
    (h : verifyFixedMerkleProof (toHex (rootOf nodeHash siblings.length layer)) leaf j siblings = true) :
    layer[j]? = some leaf ∧
      siblings.map toBuf = (pathUp nodeHash siblings.length layer j).map Prod.snd := by
  have hlt : j < layer.length := hj.trans_eq hlen.symm
  have hown : layer[j]? = some (layer.getD j []) := by
    rw [List.getD_eq_getElem _ _ hlt, List.getElem?_eq_getElem hlt]
  rw [verifyFixedMerkleProof, decide_eq_true_iff, toHex_inj, verifyLoop_eq_climb,
    ← climb_pathUp hlen hown] at h
  have hsides := sides_sidesUp hj31 layer (siblings.map toBuf)
  rw [List.length_map] at hsides
  have hnode : (layer.getD j []).length = 32 := by
    rw [List.getD_eq_getElem _ _ hlt]
    exact hlayer _ (List.getElem_mem _)
  have hownPath : ∀ step ∈ (pathUp nodeHash siblings.length layer j).reverse, step.2.length = 32 := by
    intro step hstep
    exact length_of_mem_pathUp hlen hj hlayer step (List.mem_reverse.mp hstep)
  obtain ⟨rfl, hpath⟩ := climb_inj (by rw [List.map_reverse, List.map_reverse, hsides])
    (noCollision_of_free (length_of_mem_steps hleaf) (lengths_of_mem_steps hnode hownPath) hfree) h
  refine ⟨hown, ?_⟩
  rw [← List.reverse_inj.mp hpath, siblings_sidesUp]

/-- The bytes hashed over a position's own proof are those of the tree. -/
theorem collisionFree_pathUp {k j : ℕ} {layer : List Bytes} {leaf : Bytes} (hj : j < 2 ^ 31)
    (hleaf : layer[j]? = some leaf) :
    CollisionFree
      (fixedVerifierHashed leaf j ((pathUp nodeHash k layer j).map fun step => toHex step.2))
      (fixedPathHashed k layer j) := by
  have hbuf : ((pathUp nodeHash k layer j).map fun step => toHex step.2).map toBuf =
      (pathUp nodeHash k layer j).map Prod.snd := by simp [Function.comp_def]
  have hnode : layer.getD j [] = leaf := by simp [hleaf]
  rw [fixedVerifierHashed, fixedPathHashed, hbuf, sidesUp_pathUp hj, hnode]
  exact collisionFree_self _

/-- Every leaf has a proof that is accepted at its index. With as many siblings as the tree has levels,
    nothing but the node of a position is accepted at it, so the positions one leaf and one list of
    siblings are accepted at hold the same node. -/
theorem fixedMerkleProof_binds (leaves : List Bytes) (hne : leaves ≠ [])
    (hleaves : ∀ leaf ∈ leaves, leaf.length = 32) (hmax : leaves.length ≤ 2 ^ 30) :
    ∃ (width : ℕ) (root : Bytes), nextPow2 leaves.length = some width ∧ fixedMerkleRoot leaves = some root ∧
      (∀ (i : ℕ) (leaf : Bytes), leaves[i]? = some leaf → ∃ proof : FixedMerkleProof,
        fixedMerkleProof leaves i = some (.ok proof) ∧ proof.index = i ∧
        verifyFixedMerkleProof (toHex root) leaf i proof.siblings = true) ∧
      ∀ (leaf : Bytes) (siblings : List String), leaf.length = 32 → 2 ^ siblings.length = width →
        ∀ j < width,
          CollisionFree (fixedVerifierHashed leaf j siblings)
            (fixedPathHashed siblings.length (padLeaves leaves width) j) →
          verifyFixedMerkleProof (toHex root) leaf j siblings = true →
          (padLeaves leaves width)[j]? = some leaf ∧
            ∀ j' < width,
              CollisionFree (fixedVerifierHashed leaf j' siblings)
                (fixedPathHashed siblings.length (padLeaves leaves width) j') →
              verifyFixedMerkleProof (toHex root) leaf j' siblings = true →
              (padLeaves leaves width)[j']? = (padLeaves leaves width)[j]? := by
  obtain ⟨k, hk, hwidth, hle⟩ := nextPow2_some hmax
  obtain ⟨root, hroot⟩ : ∃ root, fixedMerkleRoot leaves = some root := by
    rw [fixedMerkleRoot, if_neg (by simpa using hne), hwidth]
    exact ⟨_, rfl⟩
  obtain ⟨k', -, hwidth', -, rfl⟩ := fixedMerkleRoot_eq hne hroot
  obtain rfl : k = k' := Nat.pow_right_injective le_rfl (Option.some.inj (hwidth.symm.trans hwidth'))
  have hlen := length_padLeaves hle
  have hwidth31 : 2 ^ k < 2 ^ 31 := Nat.pow_lt_pow_right (by norm_num) (by omega)
  refine ⟨2 ^ k, _, hwidth, hroot, ?_, ?_⟩
  · intro i leaf hi
    have hlt : i < leaves.length := (List.getElem?_eq_some_iff.mp hi).1
    have hpad : (padLeaves leaves (2 ^ k))[i]? = some leaf := by
      rw [padLeaves, List.getElem?_append_left hlt, hi]
    exact ⟨_, fixedMerkleProof_eq hwidth hle hlt, rfl, verify_pathUp hlen (by omega) hpad⟩
  · intro leaf siblings hleaf hdepth j hj hfree h
    obtain rfl : siblings.length = k := Nat.pow_right_injective le_rfl hdepth
    have hlayer := length_of_mem_padLeaves hleaves (2 ^ siblings.length)
    have hnode := (leaf_of_verified hlen hlayer hj (by omega) hleaf hfree h).1
    refine ⟨hnode, fun j' hj' hfree' h' => ?_⟩
    rw [hnode, (leaf_of_verified hlen hlayer hj' (by omega) hleaf hfree' h').1]

/-- Three leaves, which one of padding fills up to four. -/
def threeLeaves : List Bytes := [List.replicate 32 1, List.replicate 32 2, List.replicate 32 3]

theorem nextPow2_threeLeaves : nextPow2 threeLeaves.length = some (2 ^ 2) := by decide

theorem fixedMerkleProof_binds_three :
    ∃ (root : Bytes) (proof : FixedMerkleProof), fixedMerkleRoot threeLeaves = some root ∧
      fixedMerkleProof threeLeaves 1 = some (.ok proof) ∧
      verifyFixedMerkleProof (toHex root) (List.replicate 32 2) (1 : ℕ) proof.siblings = true ∧
      (padLeaves threeLeaves 4)[1]? = some (List.replicate 32 2) := by
  obtain ⟨width, root, hwidth, hroot, hprove, hbinds⟩ :=
    fixedMerkleProof_binds threeLeaves (by decide) (by decide) (by decide)
  obtain rfl : 2 ^ 2 = width := Option.some.inj (nextPow2_threeLeaves.symm.trans hwidth)
  obtain ⟨proof, hproof, -, hverify⟩ := hprove 1 (List.replicate 32 2) rfl
  have hown := fixedMerkleProof_eq (k := 2) (j := 1) nextPow2_threeLeaves (by decide) (by decide)
  obtain rfl := Except.ok.inj (Option.some.inj (hown.symm.trans hproof))
  refine ⟨root, _, hroot, hproof, hverify, ?_⟩
  exact (hbinds (List.replicate 32 2) _ rfl rfl 1 (by decide)
    (@collisionFree_pathUp 2 _ (padLeaves threeLeaves 4) _ (by decide) rfl) hverify).1

/-- Two equal leaves. -/
def twins : List Bytes := [List.replicate 32 0, List.replicate 32 0]

/-- One leaf and one sibling are accepted at both positions of two equal leaves. -/
theorem twins_accepted_twice :
    ∃ (leaves : List Bytes) (root leaf : Bytes) (siblings : List String) (i j : ℕ), leaves ≠ [] ∧
      (∀ l ∈ leaves, l.length = 32) ∧ fixedMerkleRoot leaves = some root ∧ leaf.length = 32 ∧
      (∀ sib ∈ siblings, (toBuf sib).length = 32) ∧
      nextPow2 leaves.length = some (2 ^ siblings.length) ∧
      CollisionFree (fixedVerifierHashed leaf i siblings)
        (fixedPathHashed siblings.length (padLeaves leaves (2 ^ siblings.length)) i) ∧
      CollisionFree (fixedVerifierHashed leaf j siblings)
        (fixedPathHashed siblings.length (padLeaves leaves (2 ^ siblings.length)) j) ∧
      verifyFixedMerkleProof (toHex root) leaf i siblings = true ∧
      verifyFixedMerkleProof (toHex root) leaf j siblings = true ∧ i ≠ j := by
  have hsiblings : ∀ sib ∈ [toHex (List.replicate 32 0)], (toBuf sib).length = 32 := by
    intro sib hsib
    rw [List.mem_singleton.mp hsib, toBuf_toHex]
    rfl
  refine ⟨twins, rootOf nodeHash 1 twins, List.replicate 32 0, [toHex (List.replicate 32 0)], 0, 1,
    by decide, by decide, rfl, rfl, hsiblings, rfl, ?_, ?_, ?_, ?_, by decide⟩
  · exact @collisionFree_pathUp 1 _ twins _ (by decide) rfl
  · exact @collisionFree_pathUp 1 _ twins _ (by decide) rfl
  · exact @verify_pathUp 1 0 twins _ rfl (by decide) rfl
  · exact @verify_pathUp 1 1 twins _ rfl (by decide) rfl

/-! ### What a root binds -/

/-- The byte strings that are hashed between a vector and its root. -/
def fixedHashed (leaves : List Bytes) : List Bytes :=
  match nextPow2 leaves.length with
  | none => []
  | some width => (allPairs nodeHash (Nat.log 2 width) (padLeaves leaves width)).map nodeBytes

theorem mem_of_mem_pairs : ∀ {layer : List Bytes} {p : Bytes × Bytes}, p ∈ pairs layer → p.1 ∈ layer ∧ p.2 ∈ layer
  | [], _, h => by simp [pairs] at h
  | [_], _, h => by simp [pairs] at h
  | l :: r :: rest, p, h => by
    rcases List.mem_cons.mp h with rfl | h
    · simp
    · obtain ⟨hl, hr⟩ := mem_of_mem_pairs h
      simp [hl, hr]

theorem lengths_of_mem_allPairs {k : ℕ} {layer : List Bytes} (hlayer : ∀ b ∈ layer, b.length = 32) :
    ∀ p ∈ allPairs nodeHash k layer, p.1.length = 32 ∧ p.2.length = 32 := by
  induction k generalizing layer with
  | zero => simp [allPairs]
  | succ k ih =>
    intro p hp
    rcases List.mem_append.mp hp with hp | hp
    · obtain ⟨hl, hr⟩ := mem_of_mem_pairs hp
      exact ⟨hlayer _ hl, hlayer _ hr⟩
    · exact ih (fun b => length_of_mem_halve) p hp

/-- Vectors of one length have one root only if they are equal. -/
theorem fixedMerkleRoot_inj {leaves leaves' : List Bytes} {root : Bytes} (hlen : leaves.length = leaves'.length)
    (hleaves : ∀ b ∈ leaves, b.length = 32) (hleaves' : ∀ b ∈ leaves', b.length = 32)
    (hfree : NoClash (fixedHashed leaves) (fixedHashed leaves')) (h : fixedMerkleRoot leaves = some root)
    (h' : fixedMerkleRoot leaves' = some root) : leaves = leaves' := by
  by_cases hne : leaves = []
  · subst hne
    exact (List.length_eq_zero_iff.mp hlen.symm).symm
  · have hne' : leaves' ≠ [] := by
      rintro rfl
      exact hne (List.length_eq_zero_iff.mp hlen)
    obtain ⟨k, -, hwidth, hle, rfl⟩ := fixedMerkleRoot_eq hne h
    obtain ⟨k', -, hwidth', hle', hroot⟩ := fixedMerkleRoot_eq hne' h'
    rw [hlen] at hwidth
    obtain rfl : k = k' := Nat.pow_right_injective le_rfl (Option.some.inj (hwidth.symm.trans hwidth'))
    rw [fixedHashed, fixedHashed, hlen, hwidth] at hfree
    dsimp only at hfree
    rw [Nat.log_pow (by norm_num)] at hfree
    have hown := lengths_of_mem_allPairs (k := k) (length_of_mem_padLeaves hleaves (2 ^ k))
    have hown' := lengths_of_mem_allPairs (k := k) (length_of_mem_padLeaves hleaves' (2 ^ k))
    have hnodes : NoCollision nodeHash (allPairs nodeHash k (padLeaves leaves (2 ^ k)))
        (allPairs nodeHash k (padLeaves leaves' (2 ^ k))) := by
      rintro ⟨p, q⟩ hpq hnode
      obtain ⟨hp, hq⟩ := List.of_mem_zip hpq
      exact nodeBytes_inj (.inl (hown p hp).1) (hown' q hq)
        (hfree _ (List.mem_map_of_mem hp) _ (List.mem_map_of_mem hq) hnode)
    have hpad := rootOf_inj (length_padLeaves hle) (length_padLeaves hle') hnodes hroot
    exact (List.append_inj hpad hlen).1

end Merkle
