import XChainExplorer.Chain.Tables

/-! # The replaced-block rule

    `blockReplaced` of the db layer: has the block seen at the last reading been replaced, given
    the tip now reads `cur`? The poll's reorg check and the request path's tip reading share it.
    It is one decision cut at its one await: what the tip row alone settles, and what the row at
    the earlier height settles. -/

namespace TipProbe
open Tables

/-- What the tip row settles: a verdict, or the earlier tip whose row has to be read. -/
inductive Replaced (H : Type*) where
  | verdict (replaced : Bool)
  | readRow (prev : Tip H)
  deriving DecidableEq

variable {β H : Type*} [DecidableEq H]

/-- Two readings of one height differ. A reading with no identity compares on height alone. -/
def hashDiffers (prev : Tip H) (atHash : Option H) : Bool :=
  decide (prev.hash ≠ none) && decide (atHash ≠ prev.hash)

def blockReplaced (prev : Option (Tip H)) (cur : Tip H) : Replaced H :=
  match prev with
  | none => .verdict false
  | some prev =>
    if cur.index < prev.index then .verdict true
    else if cur.index ≠ prev.index then .readRow prev
    else .verdict (hashDiffers prev cur.hash)

/-- The verdict once the row at the earlier height has been read, `none` when it is gone. -/
def blockReplacedRow (prev : Tip H) (row : Option (Option H)) : Bool :=
  match row with
  | none => true
  | some atHash => hashDiffers prev atHash

/-- The row is read only when the tip is above the last one seen. -/
theorem blockReplaced_readRow {lastTip : Option (Tip H)} {cur prev : Tip H}
    (h : blockReplaced lastTip cur = .readRow prev) : lastTip = some prev ∧ prev.index < cur.index := by
  unfold blockReplaced at h
  split at h
  · simp at h
  · split_ifs at h with h1 h2
    simp only [Replaced.readRow.injEq] at h
    subst h
    exact ⟨rfl, by omega⟩

/-! ### Readings of a ledger whose blocks have distinct identities -/

/-- Distinct blocks have distinct ledger hashes, and every block has one. -/
structure Distinct (L : Ledger β H) : Prop where
  inj : ∀ {z w : Chain β}, z ≠ [] → w ≠ [] → L.hash z = L.hash w → z = w
  hashed : ∀ {z : Chain β}, z ≠ [] → L.hash z ≠ none

variable {L : Ledger β H} {c d : Chain β} {prev cur : Tip H}

/-- No verdict of a reorg from the tip row alone means the two readings named one block. -/
theorem eq_of_verdict_false (hL : Distinct L) (hp : L.tipRow c = some prev)
    (hc : L.tipRow d = some cur) (hv : blockReplaced (some prev) cur = .verdict false) : c = d := by
  obtain ⟨hne, hi, hh⟩ := tipRow_eq_some.mp hp
  obtain ⟨hne', hi', hh'⟩ := tipRow_eq_some.mp hc
  simp only [blockReplaced] at hv
  split_ifs at hv with h1 h2
  · simp at hv
  · simp only [Replaced.verdict.injEq, hashDiffers, Bool.and_eq_false_iff, decide_eq_false_iff_not,
      ne_eq, not_not] at hv
    rcases hv with hv | hv
    · exact absurd (hh ▸ hv) (hL.hashed hne)
    · exact hL.inj hne hne' (by rw [← hh, ← hh', hv])

/-- A row that still matches means the block read earlier is on the chain. -/
theorem suffix_of_row_false (hL : Distinct L) (hp : L.tipRow c = some prev)
    (hv : blockReplacedRow prev (L.rowAt d prev.index) = false) : c <:+ d := by
  obtain ⟨hne, hi, hh⟩ := tipRow_eq_some.mp hp
  cases hr : L.rowAt d prev.index with
  | none => simp [hr, blockReplacedRow] at hv
  | some o =>
    obtain ⟨z, hz, hs, hzi, hzh⟩ := rowAt_eq_some.mp hr
    simp only [hr, blockReplacedRow, hashDiffers, Bool.and_eq_false_iff, decide_eq_false_iff_not,
      ne_eq, not_not] at hv
    rcases hv with hv | hv
    · exact absurd (hh ▸ hv) (hL.hashed hne)
    · rw [hL.inj hne hz (by rw [← hh, ← hv, hzh])]
      exact hs

end TipProbe
