import Mathlib.Data.Fintype.Card
import Mathlib.Data.Finset.Lattice.Fold
import Mathlib.Logic.Relation

/-! # Chains of parents

    A forest given by the parent of each element. The ancestors of an element are reached by a number
    of links; where no element is its own ancestor and only finitely many have a parent, each has one
    root, at one depth. -/

namespace ParentChain

variable {α : Type*} (parent : α → Option α)

/-- The ancestor `k` links up. -/
def up : ℕ → α → Option α
  | 0, a => some a
  | k + 1, a => (parent a).bind (up k)

/-- The root of `a`, at its depth. -/
def RootAt (k : ℕ) (a r : α) : Prop := up parent k a = some r ∧ parent r = none

/-- No element is its own ancestor. -/
def Acyclic : Prop := ∀ a, ¬Relation.TransGen (fun b c => parent b = some c) a a

variable {parent} {i j k : ℕ} {a b r : α}

@[simp] theorem up_zero : up parent 0 a = some a := rfl

theorem up_add : up parent (j + k) a = (up parent j a).bind (up parent k) := by
  induction j generalizing a with
  | zero => rw [Nat.zero_add, up_zero, Option.bind_some]
  | succ j ih =>
    rw [Nat.add_right_comm, up, up]
    cases parent a with
    | none => rfl
    | some b => exact ih

theorem up_succ_last : up parent (k + 1) a = (up parent k a).bind parent := by
  rw [up_add]
  refine congrArg _ (funext fun b => ?_)
  rw [up]
  cases parent b <;> rfl

theorem exists_up_of_le (h : up parent k a = some r) (hj : j ≤ k) : ∃ b, up parent j a = some b := by
  obtain ⟨d, rfl⟩ := Nat.exists_eq_add_of_le hj
  rw [up_add] at h
  obtain ⟨b, hb, -⟩ := Option.bind_eq_some_iff.mp h
  exact ⟨b, hb⟩

/-- A root is above nothing. -/
theorem up_of_root (hr : parent r = none) (hk : 0 < k) : up parent k r = none := by
  obtain ⟨k, rfl⟩ := Nat.exists_eq_succ_of_ne_zero hk.ne'
  rw [Nat.succ_eq_add_one, up, hr, Option.bind_none]

theorem RootAt.le (h : RootAt parent k a r) (hj : up parent j a = some b) : j ≤ k := by
  by_contra hlt
  obtain ⟨d, rfl⟩ := Nat.exists_eq_add_of_lt (not_le.mp hlt)
  rw [Nat.add_assoc, up_add, h.1, Option.bind_some, up_of_root h.2 (Nat.succ_pos d)] at hj
  cases hj

/-- Below a root no element repeats. -/
theorem RootAt.up_inj (h : RootAt parent k a r) (hi : up parent i a = some b) (hj : up parent j a = some b) :
    i = j := by
  have hstep {i j : ℕ} (hi : up parent i a = some b) (hj : up parent j a = some b) : j ≤ i := by
    obtain ⟨d, hd⟩ := Nat.exists_eq_add_of_le (h.le hi)
    have hroot : up parent d b = some r := by
      rw [← h.1, hd, up_add, hi, Option.bind_some]
    have hle : j + d ≤ k := h.le (b := r) (by rw [up_add, hj, Option.bind_some, hroot])
    omega
  exact le_antisymm (hstep hj hi) (hstep hi hj)

theorem RootAt.unique {k' : ℕ} {r' : α} (h : RootAt parent k a r) (h' : RootAt parent k' a r') :
    k = k' ∧ r = r' := by
  have hk : k = k' := le_antisymm (h'.le h.1) (h.le h'.1)
  rw [hk] at h
  exact ⟨hk, Option.some.inj (h.1.symm.trans h'.1)⟩

theorem transGen_of_up (hk : 0 < k) (h : up parent k a = some b) :
    Relation.TransGen (fun b c => parent b = some c) a b := by
  induction k generalizing b with
  | zero => exact absurd hk (Nat.lt_irrefl 0)
  | succ k ih =>
    rw [up_succ_last] at h
    obtain ⟨c, hc, hcb⟩ := Option.bind_eq_some_iff.mp h
    rcases Nat.eq_zero_or_pos k with hzero | hpos
    · rw [hzero, up_zero] at hc
      exact .single (Option.some.inj hc ▸ hcb)
    · exact .tail (ih hpos hc) hcb

/-- In a finite forest without cycles everything has a root. -/
theorem Acyclic.exists_root (h : Acyclic parent) {s : Finset α} (hs : ∀ a, parent a ≠ none → a ∈ s) (a : α) :
    ∃ k r, RootAt parent k a r := by
  by_contra hno
  push Not at hno
  have hsome (k : ℕ) : ∃ b, up parent k a = some b := by
    induction k with
    | zero => exact ⟨a, rfl⟩
    | succ k ih =>
      obtain ⟨b, hb⟩ := ih
      obtain ⟨c, hc⟩ := Option.ne_none_iff_exists'.mp fun hnone => hno k b ⟨hb, hnone⟩
      exact ⟨c, by rw [up_succ_last, hb, Option.bind_some, hc]⟩
  choose f hf using hsome
  -- one more link than there are elements with a parent
  have hmaps : ∀ k ∈ Finset.range (s.card + 1), f k ∈ s := by
    intro k _
    refine hs _ fun hnone => hno k (f k) ⟨hf k, hnone⟩
  have hcard : s.card < (Finset.range (s.card + 1)).card := by simp
  obtain ⟨i, -, j, -, hne, heq⟩ := Finset.exists_ne_map_eq_of_card_lt_of_maps_to hcard hmaps
  have hcycle {i j : ℕ} (hlt : i < j) (heq : f i = f j) : False := by
    obtain ⟨d, rfl⟩ := Nat.exists_eq_add_of_lt hlt
    have hup := hf (i + d + 1)
    rw [Nat.add_assoc, up_add, hf i, Option.bind_some, ← Nat.add_assoc, ← heq] at hup
    exact h (f i) (transGen_of_up (Nat.succ_pos d) hup)
  rcases Nat.lt_or_gt_of_ne hne with hlt | hgt
  · exact hcycle hlt heq
  · exact hcycle hgt heq.symm

/-- A forest whose links all go down in an order has no cycle. -/
theorem acyclic_of_lt [Preorder α] (h : ∀ a b, parent a = some b → b < a) : Acyclic parent := by
  intro a hcycle
  have hlt {a b : α} (hpath : Relation.TransGen (fun b c => parent b = some c) a b) : b < a := by
    induction hpath with
    | single hab => exact h _ _ hab
    | tail _ hbc ih => exact (h _ _ hbc).trans ih
  exact lt_irrefl a (hlt hcycle)

end ParentChain
