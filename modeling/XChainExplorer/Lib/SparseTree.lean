import XChainExplorer.Lib.HashPath

/-! # Sparse hash trees

    A sparse tree of a fixed height over entries whose keys are told apart by their bits: an empty
    subtree has a constant root, and the entries of any other part at the bit of their height. The path
    of a key climbs to the root from what the tree holds under the key. -/

namespace SparseTree

open HashPath

variable {α D : Type*} (node : D → D → D) (empty : ℕ → D) (bit : ℕ → α → Bool)

/-- The entries on one side of a node `h + 1` high. -/
def side (right : Bool) (h : ℕ) (entries : List (α × D)) : List (α × D) :=
  entries.filter fun e => bit h e.1 == right

def root : ℕ → List (α × D) → D
  | h, [] => empty h
  | 0, e :: _ => e.2
  | h + 1, entries => node (root h (side bit false h entries)) (root h (side bit true h entries))

/-- The siblings of a key, from the root down. -/
def path : ℕ → α → List (α × D) → List (Bool × D)
  | 0, _, _ => []
  | h + 1, k, entries =>
    (bit h k, root node empty bit h (side bit (!bit h k) h entries)) ::
      path h k (side bit (bit h k) h entries)

/-- The entries whose keys have the same bits. -/
def alike : ℕ → α → List (α × D) → List (α × D)
  | 0, _, entries => entries
  | h + 1, k, entries => alike h k (side bit (bit h k) h entries)

variable {node empty bit}

theorem root_nil (h : ℕ) : root node empty bit h [] = empty h := by
  cases h <;> rfl

theorem root_succ (hempty : ∀ h, empty (h + 1) = node (empty h) (empty h)) (h : ℕ) (entries : List (α × D)) :
    root node empty bit (h + 1) entries =
      node (root node empty bit h (side bit false h entries)) (root node empty bit h (side bit true h entries)) := by
  cases entries with
  | nil => rw [root_nil, hempty, side, side, List.filter_nil, List.filter_nil, root_nil]
  | cons e entries => rfl

/-- The path of a key leads to the root. -/
theorem climb_path (hempty : ∀ h, empty (h + 1) = node (empty h) (empty h)) (k : α) (h : ℕ)
    (entries : List (α × D)) :
    climb node (root node empty bit 0 (alike bit h k entries)) (path node empty bit h k entries) =
      root node empty bit h entries := by
  induction h generalizing entries with
  | zero => rfl
  | succ h ih =>
    rw [root_succ hempty, alike, path, climb, ih]
    cases bit h k <;> rfl

theorem alike_eq_filter (k : α) (h : ℕ) (entries : List (α × D)) :
    alike bit h k entries = entries.filter fun e => (List.range h).all fun i => bit i e.1 == bit i k := by
  induction h generalizing entries with
  | zero => simp [alike]
  | succ h ih =>
    rw [alike, ih, side, List.filter_filter]
    congr 1
    funext e
    rw [List.range_succ, List.all_append]
    simp

/-- Where the bits tell the keys apart, what is left is the entry of the key. -/
theorem root_alike [DecidableEq α] {h : ℕ} (hbits : ∀ a b : α, (∀ i < h, bit i a = bit i b) → a = b) (k : α)
    (entries : List (α × D)) :
    root node empty bit 0 (alike bit h k entries) =
      ((entries.find? fun e => decide (e.1 = k)).map Prod.snd).getD (empty 0) := by
  have hkey : (fun e : α × D => (List.range h).all fun i => bit i e.1 == bit i k) =
      fun e => decide (e.1 = k) := by
    funext e
    rw [Bool.eq_iff_iff, List.all_eq_true, decide_eq_true_iff]
    constructor
    · intro hall
      exact hbits _ _ fun i hi => beq_iff_eq.mp (hall i (List.mem_range.mpr hi))
    · rintro rfl i -
      exact beq_self_eq_true _
  rw [alike_eq_filter, hkey]
  induction entries with
  | nil => rfl
  | cons e entries ih =>
    by_cases he : e.1 = k
    · simp [root, he]
    · simp [he, ih]

end SparseTree
