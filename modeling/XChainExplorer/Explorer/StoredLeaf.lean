import XChainExplorer.Consensus.SmtKeys
import XChainExplorer.Explorer.StateDescent

/-! # Stores that hold a tree of one leaf

    The nodes above the one leaf of a tree are the path of its key, with empty subtrees beside it. A
    store that keeps a row for each of them holds the tree where no two nodes of the path have one hash,
    nor a node and an empty subtree. For one key and leaf the 256 levels are evaluated, and for a leaf
    that is the empty constant the path is the empty subtrees themselves. -/

namespace ProofServer

open Merkle

/-! ### The path of a leaf -/

section path
variable (key leaf : Bytes32)

/-- The node over a node of height `h` and the empty subtree beside it. -/
def nodeAbove (key : Bytes) (h : ℕ) (empty node : Bytes) : Bytes :=
  if bitAt key (SMT_DEPTH - (h + 1)) = 0 then nodeHash node empty else nodeHash empty node

/-- The node `h` levels above the leaf. -/
def pathNode : ℕ → Bytes
  | 0 => leaf
  | h + 1 => nodeAbove key h (EMPTY h) (pathNode h)

/-- The two children of the node `h + 1` levels above the leaf. -/
def pathChildren (h : ℕ) : Bytes × Bytes :=
  if bitAt key (SMT_DEPTH - (h + 1)) = 0 then (pathNode key leaf h, EMPTY h)
  else (EMPTY h, pathNode key leaf h)

/-- A row for every node of the path, and no other. -/
def leafRows : NodeStore := fun hash =>
  ((List.range SMT_DEPTH).find? fun h => toHex (pathNode key leaf (h + 1)) = hash).map fun h =>
    ((toHex (pathChildren key leaf h).1), toHex (pathChildren key leaf h).2)

/-- No two nodes of the path have one hash. -/
def PathApart : Prop :=
  ∀ i < SMT_DEPTH, ∀ j < SMT_DEPTH, pathNode key leaf (i + 1) = pathNode key leaf (j + 1) → i = j

variable {key leaf} {h : ℕ} {entries : List (Bytes32 × Bytes32)}

/-- A node of the tree holds the leaf or nothing. -/
theorem level_oneLeaf (hlevel : Level (oneLeaf key leaf) h entries) :
    entries = [] ∨ entries = [(key, leaf)] := by
  have hfilter (p : Bytes32 × Bytes32 → Bool) {es : List (Bytes32 × Bytes32)}
      (hes : es = [] ∨ es = [(key, leaf)]) : es.filter p = [] ∨ es.filter p = [(key, leaf)] := by
    rcases hes with rfl | rfl
    · exact .inl rfl
    · rw [List.filter_singleton]
      cases p (key, leaf) with
      | true => exact .inr rfl
      | false => exact .inl rfl
  induction hlevel with
  | root => exact .inr rfl
  | left _ ih => exact hfilter _ ih
  | right _ ih => exact hfilter _ ih

theorem leftOf_singleton : leftOf h [(key, leaf)] =
    if bitAt key (SMT_DEPTH - (h + 1)) = 0 then [(key, leaf)] else [] := by
  rw [leftOf, List.filter_singleton]
  split_ifs with hbit <;> simp [hbit]

theorem rightOf_singleton : rightOf h [(key, leaf)] =
    if bitAt key (SMT_DEPTH - (h + 1)) = 0 then [] else [(key, leaf)] := by
  rw [rightOf, List.filter_singleton]
  split_ifs with hbit <;> simp [hbit]

theorem smtNode_singleton (h : ℕ) : smtNode h [(key, leaf)] = pathNode key leaf h := by
  induction h with
  | zero => rfl
  | succ h ih =>
    rw [smtNode_succ (List.cons_ne_nil _ _), leftOf_singleton, rightOf_singleton, pathNode, nodeAbove]
    split_ifs
    · rw [ih, smtNode_nil]
    · rw [ih, smtNode_nil]

theorem smtNode_children : (smtNode h (leftOf h [(key, leaf)]), smtNode h (rightOf h [(key, leaf)])) =
    pathChildren key leaf h := by
  rw [leftOf_singleton, rightOf_singleton, pathChildren]
  split_ifs
  · rw [smtNode_singleton, smtNode_nil]
  · rw [smtNode_singleton, smtNode_nil]

theorem leafRows_pathNode (hapart : PathApart key leaf) (hh : h < SMT_DEPTH) :
    leafRows key leaf (toHex (pathNode key leaf (h + 1))) =
      some (toHex (pathChildren key leaf h).1, toHex (pathChildren key leaf h).2) := by
  rw [leafRows]
  generalize hrow : (List.range SMT_DEPTH).find?
    (fun i => toHex (pathNode key leaf (i + 1)) = toHex (pathNode key leaf (h + 1))) = found
  cases found with
  | none =>
    have hnone := List.find?_eq_none.mp hrow h (List.mem_range.mpr hh)
    simp at hnone
  | some i =>
    have hi := List.mem_range.mp (List.mem_of_find?_eq_some hrow)
    have hfound := List.find?_some hrow
    obtain rfl := hapart i hi h hh (toHex_inj.mp (of_decide_eq_true hfound))
    rfl

theorem stored_leafRows (hapart : PathApart key leaf) : Stored (oneLeaf key leaf) (leafRows key leaf) := by
  intro h entries hlevel hne
  obtain rfl := (level_oneLeaf hlevel).resolve_left hne
  rw [smtNode_singleton, leafRows_pathNode hapart hlevel.le, ← smtNode_children]

theorem noEmptyRow_leafRows : NoEmptyRow (oneLeaf key leaf) (leafRows key leaf) := by
  intro h _ hrow
  obtain ⟨row, hrow⟩ := Option.ne_none_iff_exists'.mp hrow
  obtain ⟨i, hi, -⟩ := Option.map_eq_some_iff.mp hrow
  have hheight : i + 1 ≤ SMT_DEPTH := List.mem_range.mp (List.mem_of_find?_eq_some hi)
  have hfound := List.find?_some hi
  have hnode := toHex_inj.mp (of_decide_eq_true hfound)
  obtain ⟨entries, hlevel, hne⟩ := exists_level (M := oneLeaf key leaf) (List.cons_ne_nil _ _) hheight
  obtain rfl := (level_oneLeaf hlevel).resolve_left hne
  exact ⟨i, _, hlevel, hne, (smtNode_singleton _).trans hnode⟩

/-- Where a node of the path has the hash of an empty subtree, it is one. -/
theorem emptyApart_oneLeaf (hapart : ∀ i < SMT_DEPTH, ∀ j < SMT_DEPTH,
    pathNode key leaf (i + 1) = EMPTY (j + 1) → pathChildren key leaf i = (EMPTY j, EMPTY j)) :
    EmptyApart (oneLeaf key leaf) := by
  intro i entries hlevel hne j hj hhash
  obtain rfl := (level_oneLeaf hlevel).resolve_left hne
  rw [smtNode_children]
  rw [← smtNode_succ hne, smtNode_singleton] at hhash
  rw [hapart i hlevel.le j hj hhash]

end path

/-! ### The levels of one path -/

/-- The first two bytes of a hash, as a number. -/
def mark (bytes : Bytes) : ℕ := Sha256.number (bytes.take 2)

/-- The empty subtree and the node of the path `marks.length` levels higher, if the nodes between have
    these marks, none of the empty subtrees has a mark of `taken`, and `top` is the number of none. -/
def climb (top : ℕ) (key : Bytes) (taken : List ℕ) : List ℕ → ℕ → Bytes × Bytes → Option (Bytes × Bytes)
  | [], _, nodes => some nodes
  | m :: marks, h, (empty, node) =>
    let empty' := nodeHash empty empty
    let node' := nodeAbove key h empty node
    if Nat.beq (Sha256.number empty) top then none
    else if Nat.beq (mark node') m && taken.all fun t => !Nat.beq (mark empty') t then
      climb top key taken marks (h + 1) (empty', node')
    else none

section climb
variable {top : ℕ} {key leaf : Bytes32} {taken marks : List ℕ} {h : ℕ} {nodes mid : Bytes × Bytes}

theorem climb_append {marks' : List ℕ} {bytes : Bytes} {k : ℕ} (hheight : h + marks.length = k)
    (hmid : climb top bytes taken marks h nodes = some mid) :
    climb top bytes taken (marks ++ marks') h nodes = climb top bytes taken marks' k mid := by
  induction marks generalizing h nodes with
  | nil =>
    obtain rfl := Option.some.inj hmid
    obtain rfl : h = k := hheight
    rfl
  | cons m marks ih =>
    obtain ⟨empty, node⟩ := nodes
    rw [climb] at hmid
    split_ifs at hmid with htop hmark
    have hrest : h + 1 + marks.length = k := by
      rw [List.length_cons] at hheight
      omega
    rw [List.cons_append, climb, if_neg htop]
    exact (if_pos hmark).trans (ih hrest hmid)

/-- What a climb from one level of the path tells of the levels above. -/
structure Climbed (top : ℕ) (key leaf : Bytes32) (taken marks : List ℕ) (h : ℕ) (nodes : Bytes × Bytes) : Prop where
  nodes : nodes = (EMPTY (h + marks.length), pathNode key leaf (h + marks.length))
  top : ∀ i < marks.length, Sha256.number (EMPTY (h + i)) ≠ top
  marked : ∀ i (hi : i < marks.length), mark (pathNode key leaf (h + i + 1)) = marks[i]
  apart : ∀ i < marks.length, mark (EMPTY (h + i + 1)) ∉ taken

theorem Climbed.empty_eq (hclimbed : Climbed top key leaf taken marks h nodes) :
    nodes.1 = EMPTY (h + marks.length) := by
  rw [hclimbed.nodes]

theorem climbed (hclimb : climb top key taken marks h (EMPTY h, pathNode key leaf h) = some nodes) :
    Climbed top key leaf taken marks h nodes := by
  induction marks generalizing h with
  | nil => exact ⟨(Option.some.inj hclimb).symm, nofun, nofun, nofun⟩
  | cons m marks ih =>
    have hnode : nodeAbove key h (EMPTY h) (pathNode key leaf h) = pathNode key leaf (h + 1) := rfl
    rw [climb, hnode, ← EMPTY_succ] at hclimb
    split_ifs at hclimb with htop hmark
    obtain ⟨hnodes, htops, hmarks, hapart⟩ := ih hclimb
    obtain ⟨hm, hfree⟩ := Bool.and_eq_true_iff.mp hmark
    have hshift (i : ℕ) : h + 1 + i = h + (i + 1) := by rw [Nat.add_right_comm, Nat.add_assoc]
    simp only [hshift] at hnodes htops hmarks hapart
    refine ⟨hnodes, ?_, ?_, ?_⟩
    · exact Nat.forall_lt_succ_left.mpr ⟨fun heq => htop (Nat.beq_eq.mpr heq), htops⟩
    · exact Nat.forall_lt_succ_left'.mpr ⟨Nat.eq_of_beq_eq_true hm, hmarks⟩
    · refine Nat.forall_lt_succ_left.mpr ⟨fun hmem => ?_, hapart⟩
      have hne := List.all_eq_true.mp hfree _ hmem
      simp at hne

end climb

/-- The key of the state "owner" of a contract. -/
def ownerKey : Bytes32 :=
  ⟨Sha256.bigEndian 0x2e2789ff64fe0c71afeb643fbe69f62300558af2d26559e4dde996e8c863d64c 32, by decide⟩

theorem contractStateKey_owner : contractStateKey "BTC" "mainnet" "1" "owner" = .ok ownerKey := by
  rw [contractStateKey, smtKey, joinFields_ok (by decide)]
  refine congrArg Except.ok (Subtype.ext ?_)
  decide +kernel

/-- The leaf of its value, "alice". -/
def ownerLeaf : Bytes32 := ⟨leafHash (utf8 "alice"), length_leafHash _⟩

/-! The marks of the path, 32 levels each. -/

/-- From the leaf to level 32. -/
def marks32 : List ℕ := [
    0x6218, 0x1ef0, 0xce9c, 0xeeab, 0x95f3, 0x3415, 0x43d5, 0x91a0, 0x41bb, 0xdede, 0x5cb1, 0x9ab8,
    0x656d, 0x992f, 0x0881, 0x7b05, 0xf617, 0xdf93, 0x17d2, 0x91e3, 0xfa17, 0x0d30, 0x8191, 0x507b,
    0xed81, 0x3199, 0xa872, 0x266a, 0xfd65, 0x14ee, 0x6cc6, 0xddab]

/-- To level 64. -/
def marks64 : List ℕ := [
    0xb24e, 0xb528, 0x7d59, 0xc207, 0x51a1, 0xe268, 0xf12e, 0x1565, 0x22b7, 0x2230, 0xd7b8, 0x0b49,
    0x654e, 0xd779, 0xc3b3, 0x18c8, 0x3027, 0x66c4, 0xf1fc, 0x278b, 0x0063, 0xa00f, 0xac0e, 0x520a,
    0x3685, 0x9a77, 0xdc59, 0x98fa, 0xbb46, 0xab88, 0xeb6e, 0xf8e2]

/-- To level 96. -/
def marks96 : List ℕ := [
    0x8fa2, 0xf7e8, 0x40ee, 0x237a, 0x3200, 0x4e31, 0xc35a, 0x3484, 0x5213, 0xa301, 0x5847, 0x994d,
    0x974a, 0x89a6, 0xe560, 0x1f5b, 0xbd87, 0xb83e, 0x93f7, 0xd138, 0xccee, 0xadc2, 0xcb51, 0xb5e7,
    0x367a, 0x9364, 0x6690, 0x9759, 0xe9b0, 0x2347, 0x95bb, 0x8450]

/-- To level 128. -/
def marks128 : List ℕ := [
    0x8e1f, 0x0991, 0x89a4, 0x684e, 0xdc39, 0x1dfc, 0x64b1, 0xa736, 0x229b, 0xa4cd, 0x06fb, 0x7ddf,
    0x5db1, 0xfa7c, 0x8403, 0xcb18, 0x3e02, 0x9235, 0xa0f0, 0xfcc5, 0x29cd, 0x541d, 0x2589, 0x4c9c,
    0x4a64, 0xd5c2, 0x0cd3, 0x3f29, 0x6d0e, 0x00a2, 0x46f9, 0x9f45]

/-- To level 160. -/
def marks160 : List ℕ := [
    0x62ed, 0x7c89, 0x7a23, 0xcaaa, 0xc8bc, 0xfa34, 0xd047, 0xac42, 0xe631, 0xc7dc, 0x1dfe, 0x29bd,
    0x5ca4, 0xc93a, 0xb77c, 0xecbf, 0x445e, 0xdc5f, 0xd94e, 0x89e7, 0x31a3, 0x3d24, 0xea10, 0x931c,
    0xea80, 0x9066, 0x65ba, 0x1c62, 0x2e4a, 0x8460, 0xb75e, 0x3605]

/-- To level 192. -/
def marks192 : List ℕ := [
    0xd6db, 0xa227, 0xc378, 0xfb34, 0x66ea, 0x0ec5, 0x5405, 0xe753, 0x05d0, 0x35e1, 0xb0a1, 0x4db0,
    0x2855, 0xf10b, 0xf71e, 0x5e06, 0x2bf1, 0xee01, 0x5cf0, 0xd5e2, 0x1a25, 0xaa6e, 0x0f8e, 0xb0fd,
    0x1772, 0xcc02, 0xddf0, 0x2955, 0x0696, 0x4992, 0x0f95, 0x5e21]

/-- To level 224. -/
def marks224 : List ℕ := [
    0x76d6, 0x16a5, 0x529d, 0xea94, 0x5de0, 0x2100, 0xccc7, 0xb093, 0x70dd, 0x93ee, 0x8de6, 0x8406,
    0x5326, 0xd84e, 0x13d2, 0x9f36, 0xa1df, 0xf44b, 0x7b17, 0xc33b, 0x554a, 0x52b9, 0x7ad3, 0x238b,
    0xc657, 0x337d, 0xdd54, 0x1fca, 0xe581, 0x2edb, 0x87dc, 0x908f]

/-- To the root. -/
def marks256 : List ℕ := [
    0x6b39, 0x1472, 0x5a8f, 0x5481, 0x5665, 0x3810, 0x86fc, 0x03c0, 0x2807, 0x90a0, 0xc2d0, 0x82f8,
    0x844f, 0x8175, 0xbe01, 0x38ae, 0x74da, 0xcd28, 0x6cc4, 0xa3f5, 0x69fc, 0x477c, 0xe668, 0x8db2,
    0xf6b1, 0x462c, 0x3b78, 0x12f2, 0xece5, 0x4c99, 0x3f6d, 0xab60]

/-- The marks of the lower half. -/
def lowerMarks : List ℕ := marks32 ++ (marks64 ++ (marks96 ++ marks128))

/-- The marks of the upper half. -/
def upperMarks : List ℕ := marks160 ++ (marks192 ++ (marks224 ++ marks256))

/-- The marks of all the levels. -/
def ownerMarks : List ℕ := lowerMarks ++ upperMarks

/-- An empty subtree and a node, by their numbers. -/
def nodesOf (empty node : ℕ) : Bytes × Bytes := (Sha256.bigEndian empty 32, Sha256.bigEndian node 32)

/-! The nodes of every 32nd level. The last of the empty subtrees is the empty tree. -/

def nodes32 : Bytes × Bytes :=
  nodesOf 0x29c8e6ef5be99c0085593249a4f5beabde4515991851e4bdd5cfb7fa847e95f1
    0xddab8eb4feef1e7cbbbef05089aeb4071d9dd7f32cf97ee1a8aad164dce9f9f0

def nodes64 : Bytes × Bytes :=
  nodesOf 0x77729f9f506bf78a9df61548cf5e74a69f9888308c1ffc25929134a6af6f12dc
    0xf8e211673116996df29b2db88444365aba8bd51139d06599d07f785857cd733f

def nodes96 : Bytes × Bytes :=
  nodesOf 0x231d7beaf961b65bbba6175040778dafb71c56b67cbf469e6dd6198a2f144660
    0x845007d86863f4c2c7ddc8f95614428129ca48cca6786c5b93dbe3d7112b56a9

def nodes128 : Bytes × Bytes :=
  nodesOf 0xf966a011f2d666e02109e72bd51061829b23d83efcf812caa95e44f97aa6180a
    0x9f450821b2018d8b8f10fdcbe1914b3023a4810494f9f36673c3cdb9af26e5e4

def nodes160 : Bytes × Bytes :=
  nodesOf 0x34452d4fa956632f1069396ee274f4d8d5534e56fc7e9a630adb046a053814f8
    0x36050dc34623bbecd423c4e555b6a9f9e233d185e5292a6298f5d89de4f951e1

def nodes192 : Bytes × Bytes :=
  nodesOf 0x0f911868425af8b8b9deac5d900c1449dccfdefbe08bcddce199fa22df452941
    0x5e21ef4dbeeba60d67370cf02733dfc8a1c6c26aee81a6b466d1e7f684c1dc0e

def nodes224 : Bytes × Bytes :=
  nodesOf 0xd734ebabcdad637dd6b6acbc14f8004cc788f985fa25c75cb46267c4d1f5262a
    0x908fcd28a1e5e22a1ee5ab4e1754fe64b8b8a3e460af61e3de08d3dd23bb22bd

/-- The number of the empty tree's root. -/
def numberTop : ℕ := 0xc59a65441e85aa19393ca1ecf1c6d9e92bd5250dac74318a264eefb0dc0595a8

def nodes256 : Bytes × Bytes :=
  nodesOf numberTop
    0xab60883129295b77beec8ee39a4ab66523ed86e27c1c62da40634d9f3b3ed759

/-! The 512 hashes are evaluated in eight parts. -/

theorem climb_lower : climb numberTop ownerKey ownerMarks lowerMarks 0 (EMPTY 0, ownerLeaf) =
    some nodes128 := by
  have h32 : climb numberTop ownerKey ownerMarks marks32 0 (EMPTY 0, ownerLeaf) = some nodes32 := by
    decide +kernel
  have h64 : climb numberTop ownerKey ownerMarks marks64 32 nodes32 = some nodes64 := by
    decide +kernel
  have h96 : climb numberTop ownerKey ownerMarks marks96 64 nodes64 = some nodes96 := by
    decide +kernel
  have h128 : climb numberTop ownerKey ownerMarks marks128 96 nodes96 = some nodes128 := by
    decide +kernel
  rw [lowerMarks, climb_append (k := 32) rfl h32, climb_append (k := 64) rfl h64,
    climb_append (k := 96) rfl h96]
  exact h128

theorem climb_upper : climb numberTop ownerKey ownerMarks upperMarks 128 nodes128 = some nodes256 := by
  have h160 : climb numberTop ownerKey ownerMarks marks160 128 nodes128 = some nodes160 := by
    decide +kernel
  have h192 : climb numberTop ownerKey ownerMarks marks192 160 nodes160 = some nodes192 := by
    decide +kernel
  have h224 : climb numberTop ownerKey ownerMarks marks224 192 nodes192 = some nodes224 := by
    decide +kernel
  have h256 : climb numberTop ownerKey ownerMarks marks256 224 nodes224 = some nodes256 := by
    decide +kernel
  rw [upperMarks, climb_append (k := 160) rfl h160, climb_append (k := 192) rfl h192,
    climb_append (k := 224) rfl h224]
  exact h256

theorem climb_owner : climb numberTop ownerKey ownerMarks ownerMarks 0 (EMPTY 0, ownerLeaf) = some nodes256 := by
  have hlength : 0 + lowerMarks.length = 128 := by decide +kernel
  exact (climb_append hlength climb_lower).trans climb_upper

theorem climbed_owner : Climbed numberTop ownerKey ownerLeaf ownerMarks ownerMarks 0 nodes256 :=
  climbed climb_owner

theorem length_ownerMarks : ownerMarks.length = SMT_DEPTH := by decide +kernel

/-! ### The empty subtrees apart -/

theorem EMPTY_ne_top {h : ℕ} (hh : h < SMT_DEPTH) : EMPTY h ≠ EMPTY SMT_DEPTH := by
  have htop : Sha256.number (EMPTY SMT_DEPTH) = numberTop := by
    have hnodes := climbed_owner.empty_eq
    rw [Nat.zero_add, length_ownerMarks] at hnodes
    rw [← hnodes]
    decide +kernel
  have hne := climbed_owner.top h (length_ownerMarks ▸ hh)
  rw [Nat.zero_add] at hne
  intro heq
  rw [heq] at hne
  exact hne htop

theorem EMPTY_add {h k : ℕ} (heq : EMPTY h = EMPTY k) (n : ℕ) : EMPTY (h + n) = EMPTY (k + n) := by
  induction n with
  | zero => exact heq
  | succ n ih => rw [← Nat.add_assoc, EMPTY_succ, ih, ← EMPTY_succ, Nat.add_assoc]

/-- Two roots of empty subtrees of different heights differ: after one that came again, the top would. -/
theorem EMPTY_inj {h k : ℕ} (hh : h ≤ SMT_DEPTH) (hk : k ≤ SMT_DEPTH) (heq : EMPTY h = EMPTY k) : h = k := by
  rcases Nat.lt_trichotomy h k with hlt | rfl | hlt
  · have htop := EMPTY_add heq (SMT_DEPTH - k)
    rw [Nat.add_sub_cancel' hk] at htop
    exact absurd htop (EMPTY_ne_top (by omega))
  · rfl
  · have htop := EMPTY_add heq (SMT_DEPTH - h)
    rw [Nat.add_sub_cancel' hh] at htop
    exact absurd htop.symm (EMPTY_ne_top (by omega))

/-! ### The two stores -/

theorem mark_owner {i : ℕ} (hi : i < ownerMarks.length) :
    mark (pathNode ownerKey ownerLeaf (i + 1)) = ownerMarks[i] := by
  have hmarked := climbed_owner.marked i hi
  rwa [Nat.zero_add] at hmarked

theorem pathApart_owner : PathApart ownerKey ownerLeaf := by
  intro i hi j hj heq
  have hnodup : ownerMarks.Nodup := by decide +kernel
  have hmark := congrArg mark heq
  rw [← length_ownerMarks] at hi hj
  rw [mark_owner hi, mark_owner hj] at hmark
  exact (hnodup.getElem_inj_iff).mp hmark

theorem emptyApart_owner : EmptyApart (oneLeaf ownerKey ownerLeaf) := by
  refine emptyApart_oneLeaf fun i hi j hj heq => ?_
  rw [← length_ownerMarks] at hi hj
  have hfree := climbed_owner.apart j hj
  rw [Nat.zero_add, ← heq, mark_owner hi] at hfree
  exact absurd (List.getElem_mem hi) hfree

/-- The leaf that is the empty constant. -/
def emptyValue : Bytes32 := ⟨EMPTY 0, length_EMPTY 0⟩

/-- The tree that stores it. -/
def emptyLeaf : SparseMerkleTree := oneLeaf zeros emptyValue

/-- The store of that tree. -/
def emptyRows : NodeStore := leafRows zeros emptyValue

theorem lookup_emptyLeaf : (emptyLeaf.lookup zeros).map Subtype.val = some (EMPTY 0) := by
  rw [emptyLeaf, lookup_oneLeaf]
  rfl

theorem pathNode_emptyValue (h : ℕ) : pathNode zeros emptyValue h = EMPTY h := by
  induction h with
  | zero => rfl
  | succ h ih => rw [pathNode, nodeAbove, ih, ite_self, EMPTY_succ]

theorem pathChildren_emptyValue (h : ℕ) : pathChildren zeros emptyValue h = (EMPTY h, EMPTY h) := by
  rw [pathChildren, pathNode_emptyValue, ite_self]

theorem pathApart_emptyValue : PathApart zeros emptyValue := by
  intro i hi j hj heq
  rw [pathNode_emptyValue, pathNode_emptyValue] at heq
  exact Nat.succ.inj (EMPTY_inj (Nat.succ_le_of_lt hi) (Nat.succ_le_of_lt hj) heq)

theorem emptyApart_emptyLeaf : EmptyApart emptyLeaf := by
  refine emptyApart_oneLeaf fun i hi j hj heq => ?_
  rw [pathNode_emptyValue] at heq
  obtain rfl := Nat.succ.inj (EMPTY_inj (Nat.succ_le_of_lt hi) (Nat.succ_le_of_lt hj) heq)
  exact pathChildren_emptyValue i

end ProofServer
