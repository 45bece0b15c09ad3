import XChainExplorer.Lib.HashPath
import XChainExplorer.Lib.Hex
import XChainExplorer.Lib.Sha256

/-! # The byte layer of the Merkle proofs

    The hashes of leaves, of nodes and of the empty leaf are told apart by their first byte. A node is
    hashed over its two children with nothing between them, so which two they are is known only where
    their lengths are. -/

namespace Merkle

open Sha256 (sha256 length_sha256)

/-- A string of bytes. -/
abbrev Bytes := List UInt8

/-- A hash, or a key, of 32 bytes. -/
abbrev Bytes32 := { bytes : Bytes // bytes.length = 32 }

/-- The levels of a sparse tree. -/
def SMT_DEPTH : ℕ := 256

/-- The byte before what a leaf hashes. -/
def LEAF_PREFIX : UInt8 := 0x00

/-- The byte before what a node hashes. -/
def NODE_PREFIX : UInt8 := 0x01

/-- The byte before what the empty leaf hashes. -/
def EMPTY_PREFIX : UInt8 := 0x02

/-- The bytes of a text. -/
def toBuf (hex : String) : Bytes := Hex.decode hex

/-- The text of some bytes. -/
def toHex (bytes : Bytes) : String := Hex.encode bytes

/-- What a text is in `utf8`. -/
def utf8 (text : String) : Bytes := text.toUTF8.data.toList

/-- The hash of a leaf. -/
def leafHash (bytes : Bytes) : Bytes := sha256 (LEAF_PREFIX :: bytes)

/-- What `nodeHash` hashes. -/
def nodeBytes (children : Bytes × Bytes) : Bytes := NODE_PREFIX :: (children.1 ++ children.2)

/-- The hash of a node. -/
def nodeHash (left right : Bytes) : Bytes := sha256 (nodeBytes (left, right))

/-- `EMPTY[h]`: the root of an empty subtree `h` high. -/
def EMPTY : ℕ → Bytes
  | 0 => sha256 (EMPTY_PREFIX :: utf8 "XCHAIN_EMPTY_LEAF")
  | h + 1 => nodeHash (EMPTY h) (EMPTY h)

@[simp] theorem toBuf_toHex (bytes : Bytes) : toBuf (toHex bytes) = bytes := Hex.decode_encode bytes

@[simp] theorem toHex_inj {a b : Bytes} : toHex a = toHex b ↔ a = b := Hex.encode_inj

theorem utf8_injective : Function.Injective utf8 := by
  intro a b h
  rw [← String.toByteArray_inj]
  exact ByteArray.ext (Array.toList_inj.mp h)

@[simp] theorem length_leafHash (bytes : Bytes) : (leafHash bytes).length = 32 := length_sha256 _

@[simp] theorem length_nodeHash (left right : Bytes) : (nodeHash left right).length = 32 := length_sha256 _

@[simp] theorem length_EMPTY (h : ℕ) : (EMPTY h).length = 32 := by
  cases h <;> exact length_sha256 _

/-! ### Collisions -/

/-- The hash tells apart what two sides hash at the same level. -/
def CollisionFree (hashed hashed' : List Bytes) : Prop :=
  ∀ p ∈ hashed.zip hashed', sha256 p.1 = sha256 p.2 → p.1 = p.2

theorem collisionFree_self (hashed : List Bytes) : CollisionFree hashed hashed := by
  induction hashed with
  | nil => simp [CollisionFree]
  | cons b hashed ih =>
    intro p hp h
    rcases List.mem_cons.mp hp with rfl | hp
    · rfl
    · exact ih p hp h

theorem CollisionFree.left {a b a' b' : List Bytes} (hlen : a.length = b.length)
    (h : CollisionFree (a ++ a') (b ++ b')) : CollisionFree a b := by
  intro p hp
  rw [CollisionFree, List.zip_append hlen] at h
  exact h p (List.mem_append_left _ hp)

theorem CollisionFree.right {a b a' b' : List Bytes} (hlen : a.length = b.length)
    (h : CollisionFree (a ++ a') (b ++ b')) : CollisionFree a' b' := by
  intro p hp
  rw [CollisionFree, List.zip_append hlen] at h
  exact h p (List.mem_append_right _ hp)

/-- The hash tells apart whatever two sides hash. -/
def NoClash (hashed hashed' : List Bytes) : Prop :=
  ∀ x ∈ hashed, ∀ y ∈ hashed', sha256 x = sha256 y → x = y

theorem NoClash.mono {xs ys xs' ys' : List Bytes} (hx : xs' ⊆ xs) (hy : ys' ⊆ ys) (h : NoClash xs ys) :
    NoClash xs' ys' :=
  fun x hx' y hy' => h x (hx hx') y (hy hy')

/-- A pair of 32 bytes each is told by the bytes of its node from any pair with one child of 32 bytes. -/
theorem nodeBytes_inj {p q : Bytes × Bytes} (hp : p.1.length = 32 ∨ p.2.length = 32)
    (hq : q.1.length = 32 ∧ q.2.length = 32) (h : nodeBytes p = nodeBytes q) : p = q := by
  have happend : p.1 ++ p.2 = q.1 ++ q.2 := (List.cons.inj h).2
  have hlen := congrArg List.length happend
  rw [List.length_append, List.length_append] at hlen
  obtain ⟨hleft, hright⟩ := List.append_inj happend (by omega)
  exact Prod.ext hleft hright

/-- Where every pair has a child of 32 bytes, a collision of the nodes is one of the hash. -/
theorem noCollision_of_free {ps qs : List (Bytes × Bytes)}
    (hps : ∀ p ∈ ps, p.1.length = 32 ∨ p.2.length = 32) (hqs : ∀ q ∈ qs, q.1.length = 32 ∧ q.2.length = 32)
    (hfree : CollisionFree (ps.map nodeBytes) (qs.map nodeBytes)) :
    HashPath.NoCollision nodeHash ps qs := by
  rintro ⟨p, q⟩ hpq hnode
  obtain ⟨hp, hq⟩ := List.of_mem_zip hpq
  refine nodeBytes_inj (hps p hp) (hqs q hq) (hfree (nodeBytes p, nodeBytes q) ?_ hnode)
  rw [List.zip_map]
  exact List.mem_map_of_mem hpq

/-- A path over a leaf of 32 bytes joins nothing but pairs with a child of 32 bytes. -/
theorem length_of_mem_steps {leaf : Bytes} {path : List (Bool × Bytes)} (hleaf : leaf.length = 32) :
    ∀ p ∈ HashPath.steps nodeHash leaf path, p.1.length = 32 ∨ p.2.length = 32 := by
  induction path with
  | nil => simp [HashPath.steps]
  | cons step path ih =>
    obtain ⟨right, sib⟩ := step
    have hbelow : (HashPath.climb nodeHash leaf path).length = 32 := by
      cases path with
      | nil => exact hleaf
      | cons step path => exact length_nodeHash _ _
    intro p hp
    rcases List.mem_cons.mp hp with rfl | hp
    · cases right with
      | true => exact .inr hbelow
      | false => exact .inl hbelow
    · exact ih p hp

theorem lengths_of_mem_steps {leaf : Bytes} {path : List (Bool × Bytes)} (hleaf : leaf.length = 32)
    (hpath : ∀ step ∈ path, step.2.length = 32) :
    ∀ p ∈ HashPath.steps nodeHash leaf path, p.1.length = 32 ∧ p.2.length = 32 := by
  induction path with
  | nil => simp [HashPath.steps]
  | cons step path ih =>
    obtain ⟨right, sib⟩ := step
    have hsib : sib.length = 32 := hpath (right, sib) List.mem_cons_self
    have hrest : ∀ step ∈ path, step.2.length = 32 := fun step h => hpath step (List.mem_cons_of_mem _ h)
    have hbelow : (HashPath.climb nodeHash leaf path).length = 32 := by
      cases path with
      | nil => exact hleaf
      | cons step path => exact length_nodeHash _ _
    intro p hp
    rcases List.mem_cons.mp hp with rfl | hp
    · cases right with
      | true => exact ⟨hsib, hbelow⟩
      | false => exact ⟨hbelow, hsib⟩
    · exact ih hrest p hp

end Merkle
