import Mathlib.Data.Int.Order.Basic
import Mathlib.Data.List.Infix
import XChainExplorer.Lib.Page

/-! # The indexer's blocks and actions tables

    One coin's database at one moment, as the chain its indexer has committed. Block heights and
    action indexes are contiguous, so both tables are functions of the chain. A chain lists its
    blocks newest first: a block is named by itself and everything below it, so "the block is on
    the chain" is `z <:+ c`. -/

namespace Tables

/-- A block: its action rows in order, and what else its ledger hash covers. -/
structure Block (β : Type*) where
  actions : List β
  salt : ℕ
  deriving DecidableEq, Repr

/-- The committed blocks, newest first. -/
abbrev Chain (β : Type*) := List (Block β)

/-- What the tables add to a chain: the first indexed height, and each block's ledger hash (null
    where the indexer has not computed one). -/
structure Ledger (β H : Type*) where
  start : ℕ
  hash : Chain β → Option H

/-- A row of `getActionsSince`. `blk` is the block it was read from: the row itself carries only
    the height, and no function of the explorer reads `blk`. -/
structure ActionRow (β : Type*) where
  action_index : ℤ
  block_index : ℤ
  act : β
  blk : Chain β
  deriving DecidableEq, Repr

/-- A row of `getBlocksSince`. -/
structure BlockRow (H : Type*) where
  block_index : ℤ
  block_hash : Option H
  action_count : ℤ
  deriving DecidableEq, Repr

/-- The tip row: the highest block's index and hash. -/
structure Tip (H : Type*) where
  index : ℤ
  hash : Option H
  deriving DecidableEq, Repr

/-- The ledger whose hash of a block is the block itself, indexed from height 0. -/
def plainLedger (β : Type*) : Ledger β (Chain β) := { start := 0, hash := some }

variable {β H : Type*} (L : Ledger β H)

/-- The height of a chain's newest block. -/
def Ledger.height (c : Chain β) : ℤ := L.start + c.length - 1

/-- The rows of the actions table, which is also its highest `action_index`. -/
def actionCount : Chain β → ℤ
  | [] => 0
  | x :: c => actionCount c + x.actions.length

/-- The actions table, in index order. -/
def Ledger.actionRows : Chain β → List (ActionRow β)
  | [] => []
  | x :: c => Ledger.actionRows c ++ x.actions.mapIdx fun k a =>
      { action_index := actionCount c + 1 + k, block_index := L.height (x :: c), act := a,
        blk := x :: c }

/-- The blocks table, in height order. -/
def Ledger.blockRows : Chain β → List (BlockRow H)
  | [] => []
  | x :: c => Ledger.blockRows c ++
      [{ block_index := L.height (x :: c), block_hash := L.hash (x :: c),
         action_count := x.actions.length }]

/-! ### The reads -/

/-- `MAX(block_index)`, or 0 for an empty table. -/
def Ledger.getMaxBlockIndex : Chain β → ℤ
  | [] => 0
  | x :: c => L.height (x :: c)

/-- `MAX(action_index)`, or 0 for an empty table. -/
def getMaxActionIndex (c : Chain β) : ℤ := actionCount c

def Ledger.getBlocksSince (c : Chain β) (sinceBlockIndex : ℤ) (limit : ℕ) : List (BlockRow H) :=
  Page.fetch (·.block_index) (L.blockRows c) sinceBlockIndex limit

def Ledger.getActionsSince (c : Chain β) (sinceActionIndex : ℤ) (limit : ℕ)
    (upToActionIndex : Option ℤ) : List (ActionRow β) :=
  Page.fetch (·.action_index)
    ((L.actionRows c).filter fun r => upToActionIndex.all fun u => decide (r.action_index ≤ u))
    sinceActionIndex limit

/-- The tip row of the reorg check, `none` on an empty chain. -/
def Ledger.tipRow : Chain β → Option (Tip H)
  | [] => none
  | x :: c => some { index := L.height (x :: c), hash := L.hash (x :: c) }

/-- The hash of the block standing at one height, `none` when there is no such block. -/
def Ledger.rowAt (c : Chain β) (height : ℤ) : Option (Option H) :=
  ((L.blockRows c).find? fun r => r.block_index = height).map (·.block_hash)

variable {L} {c d z : Chain β} {r r' : ActionRow β}

/-! ### Blocks -/

@[simp] theorem height_cons (x : Block β) : L.height (x :: c) = L.height c + 1 := by
  simp only [Ledger.height, List.length_cons]
  push_cast
  omega

theorem height_le_of_suffix (h : d <:+ c) : L.height d ≤ L.height c := by
  have := h.length_le
  simp only [Ledger.height]
  omega

theorem length_eq_of_height (h : L.height d = L.height z) : d.length = z.length := by
  simp only [Ledger.height] at h
  omega

/-- Two blocks of one chain at one height are the same block. -/
theorem eq_of_suffix_of_height (hd : d <:+ c) (hz : z <:+ c) (h : L.height d = L.height z) :
    d = z :=
  (List.suffix_of_suffix_length_le hd hz (length_eq_of_height h).le).eq_of_length
    (length_eq_of_height h)

theorem suffix_of_height_le (hd : d <:+ c) (hz : z <:+ c) (h : L.height d ≤ L.height z) :
    d <:+ z := by
  refine List.suffix_of_suffix_length_le hd hz ?_
  simp only [Ledger.height] at h
  omega

/-- The blocks table holds one row for each block of the chain. -/
theorem mem_blockRows {b : BlockRow H} : b ∈ L.blockRows c ↔
    ∃ x t, x :: t <:+ c ∧ b.block_index = L.height (x :: t) ∧ b.block_hash = L.hash (x :: t) ∧
      b.action_count = x.actions.length := by
  induction c with
  | nil => simp [Ledger.blockRows]
  | cons y c ih =>
    rw [Ledger.blockRows, List.mem_append, ih]
    constructor
    · rintro (⟨x, t, hs, h⟩ | h)
      · exact ⟨x, t, hs.trans (List.suffix_cons _ _), h⟩
      · simp only [List.mem_singleton] at h
        subst h
        exact ⟨y, c, List.suffix_rfl, rfl, rfl, rfl⟩
    · rintro ⟨x, t, hs, h1, h2, h3⟩
      rcases List.suffix_cons_iff.mp hs with h | h
      · obtain ⟨rfl, rfl⟩ := List.cons.inj h
        right
        rw [List.mem_singleton]
        cases b
        simp_all
      · exact .inl ⟨x, t, h, h1, h2, h3⟩

theorem blockRows_pairwise : (L.blockRows c).Pairwise (·.block_index < ·.block_index) := by
  induction c with
  | nil => exact List.Pairwise.nil
  | cons y c ih =>
    refine List.pairwise_append.mpr ⟨ih, List.pairwise_singleton _ _, ?_⟩
    rintro a ha b hb
    obtain ⟨x, t, hs, h, -⟩ := mem_blockRows.mp ha
    simp only [List.mem_singleton] at hb
    rw [hb, h, height_cons y]
    exact Int.lt_add_one_of_le (height_le_of_suffix hs)

/-- A remembered block still stands at its height exactly when it is on the chain. -/
theorem rowAt_eq_some {h : ℤ} {o : Option H} : L.rowAt c h = some o ↔
    ∃ z, z ≠ [] ∧ z <:+ c ∧ L.height z = h ∧ L.hash z = o := by
  simp only [Ledger.rowAt, Option.map_eq_some_iff]
  constructor
  · rintro ⟨b, hb, rfl⟩
    obtain ⟨x, t, hs, h1, h2, -⟩ := mem_blockRows.mp (List.mem_of_find?_eq_some hb)
    have hh := List.find?_some hb
    simp only [decide_eq_true_eq] at hh
    exact ⟨x :: t, by simp, hs, by rw [← h1, hh], h2.symm⟩
  · rintro ⟨z, hz, hs, rfl, rfl⟩
    cases z with
    | nil => exact absurd rfl hz
    | cons x t =>
      cases hf : (L.blockRows c).find? fun r => r.block_index = L.height (x :: t) with
      | none =>
        rw [List.find?_eq_none] at hf
        have := hf ⟨L.height (x :: t), L.hash (x :: t), x.actions.length⟩
          (mem_blockRows.mpr ⟨x, t, hs, rfl, rfl, rfl⟩)
        simp at this
      | some b =>
        refine ⟨b, rfl, ?_⟩
        obtain ⟨y, u, hs', h1, h2, -⟩ := mem_blockRows.mp (List.mem_of_find?_eq_some hf)
        have hh := List.find?_some hf
        simp only [decide_eq_true_eq] at hh
        rw [h2, eq_of_suffix_of_height (L := L) hs' hs (by rw [← h1, hh])]

theorem getMaxBlockIndex_of_ne_nil (hc : c ≠ []) : L.getMaxBlockIndex c = L.height c := by
  cases c with
  | nil => exact absurd rfl hc
  | cons => rfl

theorem tipRow_eq_some {t : Tip H} : L.tipRow c = some t ↔
    c ≠ [] ∧ t.index = L.height c ∧ t.hash = L.hash c := by
  cases c with
  | nil => simp [Ledger.tipRow]
  | cons x c =>
    cases t
    simp [Ledger.tipRow, eq_comm]

/-! ### Actions -/

theorem actionCount_nonneg (c : Chain β) : 0 ≤ actionCount c := by
  induction c with
  | nil => exact le_rfl
  | cons x c ih => simp only [actionCount]; omega

theorem actionCount_le_of_suffix (h : d <:+ c) : actionCount d ≤ actionCount c := by
  induction c with
  | nil => simp only [List.suffix_nil] at h; rw [h]
  | cons x c ih =>
    rcases List.suffix_cons_iff.mp h with rfl | h
    · exact le_rfl
    · have := ih h
      simp only [actionCount]
      omega

/-- The row is the `k`-th action of the block it names. -/
def IsRow (L : Ledger β H) (r : ActionRow β) : Prop :=
  ∃ (x : Block β) (t : Chain β) (k : ℕ), r.blk = x :: t ∧ x.actions[k]? = some r.act ∧
    r.action_index = actionCount t + 1 + k ∧ r.block_index = L.height (x :: t)

/-- The actions table holds the rows of the blocks on the chain. -/
theorem mem_actionRows : r ∈ L.actionRows c ↔ IsRow L r ∧ r.blk <:+ c := by
  induction c with
  | nil =>
    simp only [Ledger.actionRows, List.not_mem_nil, List.suffix_nil, false_iff, not_and]
    rintro ⟨x, t, k, h, -⟩ h'
    simp [h] at h'
  | cons y c ih =>
    rw [Ledger.actionRows, List.mem_append, ih]
    constructor
    · rintro (⟨hr, hs⟩ | h)
      · exact ⟨hr, hs.trans (List.suffix_cons _ _)⟩
      · obtain ⟨k, hk, rfl⟩ := List.mem_mapIdx.mp h
        exact ⟨⟨y, c, k, rfl, List.getElem?_eq_getElem hk, rfl, rfl⟩, List.suffix_rfl⟩
    · rintro ⟨⟨x, t, k, hb, ha, hi, hh⟩, hs⟩
      rw [hb] at hs
      rcases List.suffix_cons_iff.mp hs with h | h
      · obtain ⟨rfl, rfl⟩ := List.cons.inj h
        right
        obtain ⟨hk, ha⟩ := List.getElem?_eq_some_iff.mp ha
        refine List.mem_mapIdx.mpr ⟨k, hk, ?_⟩
        cases r
        simp_all
      · exact .inl ⟨⟨x, t, k, hb, ha, hi, hh⟩, hb ▸ h⟩

theorem IsRow.block_index_eq (hr : IsRow L r) : r.block_index = L.height r.blk := by
  obtain ⟨x, t, k, hb, -, -, hh⟩ := hr
  rw [hb, hh]

theorem IsRow.blk_ne_nil (hr : IsRow L r) : r.blk ≠ [] := by
  obtain ⟨x, t, k, hb, -⟩ := hr
  simp [hb]

theorem IsRow.index_pos (hr : IsRow L r) : 0 < r.action_index := by
  obtain ⟨x, t, k, -, -, hi, -⟩ := hr
  have := actionCount_nonneg t
  omega

theorem IsRow.index_le (hr : IsRow L r) : r.action_index ≤ actionCount r.blk := by
  obtain ⟨x, t, k, hb, ha, hi, -⟩ := hr
  obtain ⟨hk, -⟩ := List.getElem?_eq_some_iff.mp ha
  rw [hb, hi]
  simp only [actionCount]
  omega

theorem index_le_of_mem (h : r ∈ L.actionRows c) : r.action_index ≤ actionCount c :=
  (mem_actionRows.mp h).1.index_le.trans (actionCount_le_of_suffix (mem_actionRows.mp h).2)

theorem actionRows_pairwise : (L.actionRows c).Pairwise (·.action_index < ·.action_index) := by
  induction c with
  | nil => exact List.Pairwise.nil
  | cons y c ih =>
    refine List.pairwise_append.mpr ⟨ih, ?_, ?_⟩
    · rw [List.pairwise_iff_getElem]
      intro i j hi hj hij
      simp only [List.getElem_mapIdx]
      omega
    · rintro a ha b hb
      obtain ⟨k, hk, rfl⟩ := List.mem_mapIdx.mp hb
      have := index_le_of_mem ha
      simp only
      omega

/-- A chain has at most one row at an index. -/
theorem row_unique (h : r ∈ L.actionRows c) (h' : r' ∈ L.actionRows c)
    (hi : r.action_index = r'.action_index) : r = r' :=
  Page.eq_of_key_eq actionRows_pairwise h h' hi

/-- Action indexes are contiguous: every index up to the count has its row. -/
theorem exists_row {i : ℤ} (hlo : 0 < i) (hhi : i ≤ actionCount c) :
    ∃ r ∈ L.actionRows c, r.action_index = i := by
  induction c with
  | nil => simp only [actionCount] at hhi; omega
  | cons y c ih =>
    by_cases h : i ≤ actionCount c
    · obtain ⟨r, hr, hi⟩ := ih h
      exact ⟨r, List.mem_append_left _ hr, hi⟩
    · simp only [actionCount] at hhi
      have hk : (i - actionCount c - 1).toNat < y.actions.length := by omega
      refine ⟨_, List.mem_append_right _ (List.mem_mapIdx.mpr ⟨_, hk, rfl⟩), ?_⟩
      simp only
      omega

theorem actionRows_subset (h : d <:+ c) (hr : r ∈ L.actionRows d) : r ∈ L.actionRows c :=
  mem_actionRows.mpr ⟨(mem_actionRows.mp hr).1, (mem_actionRows.mp hr).2.trans h⟩

/-- The row a chain holds at an index. -/
def Ledger.rowOf (L : Ledger β H) (c : Chain β) (i : ℤ) : Option (ActionRow β) :=
  (L.actionRows c).find? fun r => r.action_index = i

/-! ### The action pages -/

theorem mem_getActionsSince {since : ℤ} {limit : ℕ} :
    r ∈ L.getActionsSince c since limit none ↔ r ∈ L.actionRows c ∧ since < r.action_index ∧
      r.action_index ≤
        Page.reached (·.action_index) since (L.getActionsSince c since limit none) := by
  have hmem : r ∈ Page.fetch (·.action_index) (L.actionRows c) since limit ↔ _ :=
    Page.mem_fetch actionRows_pairwise
  simpa [Ledger.getActionsSince] using hmem

end Tables
