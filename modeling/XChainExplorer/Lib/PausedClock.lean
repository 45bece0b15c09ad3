import Mathlib.Algebra.Order.Group.Int
import Mathlib.Logic.Function.Basic

/-! # Stamps on a clock that stops

    Every stamp is the time something last happened. When a pause ends, the stamps it found are
    moved forward by its length, so that `now - stamp` leaves the pause out. The journal keeps what
    really happened: when each stamp was set, and every pause that ended. `Tracks` says what a stamp
    on the clock is worth in the journal's terms, and each operation keeps it. -/

namespace PausedClock

variable {ι : Type*}

/-- The stamps, and since when the clock stands still. -/
structure Clock (ι : Type*) where
  stamps : ι → Option ℤ := fun _ => none
  pausedAt : Option ℤ := none

/-- A stamp set to the time. -/
def Clock.set [DecidableEq ι] (c : Clock ι) (i : ι) (now : ℤ) : Clock ι :=
  { c with stamps := Function.update c.stamps i (some now) }

/-- A stamp taken back. -/
def Clock.clear [DecidableEq ι] (c : Clock ι) (i : ι) : Clock ι :=
  { c with stamps := Function.update c.stamps i none }

/-- The first of several pauses counts. -/
def Clock.pause (c : Clock ι) (now : ℤ) : Clock ι :=
  { c with pausedAt := c.pausedAt <|> some now }

/-- The end of a pause moves the stamps it found. -/
def Clock.resume (c : Clock ι) (now : ℤ) : Clock ι :=
  match c.pausedAt with
  | none => c
  | some p =>
    { stamps := fun i => (c.stamps i).map fun t => if t ≤ p then t + max 0 (now - p) else t
      pausedAt := none }

/-- When each stamp was set, and the pauses that ended. -/
structure Journal (ι : Type*) where
  setAt : ι → Option ℤ := fun _ => none
  pauses : List (ℤ × ℤ) := []

/-- The event of a stamp. -/
def Journal.set [DecidableEq ι] (j : Journal ι) (i : ι) (now : ℤ) : Journal ι :=
  { j with setAt := Function.update j.setAt i (some now) }

/-- The event forgotten. -/
def Journal.clear [DecidableEq ι] (j : Journal ι) (i : ι) : Journal ι :=
  { j with setAt := Function.update j.setAt i none }

/-- The pause of `c`, if there is one, is over. -/
def Journal.resume (j : Journal ι) (c : Clock ι) (now : ℤ) : Journal ι :=
  match c.pausedAt with
  | none => j
  | some p => { j with pauses := (p, now) :: j.pauses }

/-- How long the pauses that began at `a` or later lasted. -/
def paused : List (ℤ × ℤ) → ℤ → ℤ
  | [], _ => 0
  | (p, r) :: pauses, a => (if a ≤ p then r - p else 0) + paused pauses a

@[simp] theorem paused_nil (a : ℤ) : paused [] a = 0 := rfl

theorem paused_cons (p r a : ℤ) (pauses : List (ℤ × ℤ)) :
    paused ((p, r) :: pauses) a = (if a ≤ p then r - p else 0) + paused pauses a := rfl

/-- Time since `i` was set, without the pauses that ended since. -/
def Journal.silence (j : Journal ι) (i : ι) (now : ℤ) : Option ℤ :=
  (j.setAt i).map fun a => now - a - paused j.pauses a

/-- The time since a stamp. -/
def Clock.silence (c : Clock ι) (i : ι) (now : ℤ) : Option ℤ :=
  (c.stamps i).map (now - ·)

/-- What the clock's stamps are worth in the journal's terms at time `now`: every stamp is as old as
    the journal says, none is ahead of its time, and a pause finds exactly the stamps set before it. -/
structure Tracks (c : Clock ι) (j : Journal ι) (now : ℤ) : Prop where
  /-- Every stamp was moved by the pauses that began since it was set. -/
  moved : ∀ i, c.stamps i = (j.setAt i).map fun a => a + paused j.pauses a
  past : ∀ i a, j.setAt i = some a → a ≤ now ∧ a + paused j.pauses a ≤ now
  ended : ∀ p ∈ j.pauses, p.1 ≤ p.2 ∧ p.2 ≤ now
  since : ∀ p, c.pausedAt = some p → p ≤ now ∧
    ∀ i a, j.setAt i = some a → (a + paused j.pauses a ≤ p ↔ a ≤ p)

namespace Tracks

variable {c : Clock ι} {j : Journal ι} {now later : ℤ}

/-- The clock and the journal agree on how long ago a stamp was set. -/
theorem silence (h : Tracks c j now) (i : ι) (t : ℤ) : c.silence i t = j.silence i t := by
  rw [Clock.silence, Journal.silence, h.moved i, Option.map_map]
  congr 1
  funext a
  simp only [Function.comp_apply]
  omega

theorem start : Tracks ({} : Clock ι) {} now where
  moved _ := rfl
  past _ _ h := by cases h
  ended _ h := by cases h
  since _ h := by cases h

/-- Time goes by. -/
theorem wait (h : Tracks c j now) (hle : now ≤ later) : Tracks c j later where
  moved := h.moved
  past i a ha := ⟨(h.past i a ha).1.trans hle, (h.past i a ha).2.trans hle⟩
  ended p hp := ⟨(h.ended p hp).1, (h.ended p hp).2.trans hle⟩
  since p hp := ⟨(h.since p hp).1.trans hle, (h.since p hp).2⟩

/-- A pause that began at the present has no length yet. -/
theorem paused_now (h : Tracks c j now) : ∀ pauses ⊆ j.pauses, paused pauses now = 0 := by
  intro pauses hsub
  induction pauses with
  | nil => rfl
  | cons q rest ih =>
    obtain ⟨p, r⟩ := q
    have hended : p ≤ r ∧ r ≤ now := h.ended (p, r) (hsub List.mem_cons_self)
    rw [paused_cons, ih fun x hx => hsub (List.mem_cons_of_mem _ hx)]
    split_ifs <;> omega

theorem pause (h : Tracks c j now) : Tracks (c.pause now) j now where
  moved := h.moved
  past := h.past
  ended := h.ended
  since p hp := by
    cases hc : c.pausedAt with
    | some q =>
      rw [Clock.pause, hc] at hp
      exact h.since p (hc.trans hp)
    | none =>
      rw [Clock.pause, hc] at hp
      obtain rfl : now = p := Option.some.inj hp
      exact ⟨le_rfl, fun i a ha => ⟨fun _ => (h.past i a ha).1, fun _ => (h.past i a ha).2⟩⟩

theorem resume (h : Tracks c j now) : Tracks (c.resume now) (j.resume c now) now := by
  cases hc : c.pausedAt with
  | none => rw [Clock.resume, Journal.resume, hc]; exact h
  | some p =>
    obtain ⟨hp, hsince⟩ := h.since p hc
    rw [Clock.resume, Journal.resume, hc]
    refine ⟨fun i => ?_, fun i a ha => ?_, fun q hq => ?_, fun _ hnone => by cases hnone⟩
    · dsimp only
      rw [h.moved i, Option.map_map]
      cases ha : j.setAt i with
      | none => rfl
      | some a =>
        simp only [Option.map_some, Function.comp_apply, paused_cons, hsince i a ha, Option.some.injEq]
        split_ifs <;> omega
    · have hpast := h.past i a ha
      have hpaused := hsince i a ha
      rw [paused_cons]
      split_ifs <;> omega
    · rcases List.mem_cons.mp hq with rfl | hq
      · exact ⟨hp, le_rfl⟩
      · exact h.ended q hq

variable [DecidableEq ι]

theorem set (h : Tracks c j now) (i : ι) : Tracks (c.set i now) (j.set i now) now := by
  have hzero : paused j.pauses now = 0 := h.paused_now j.pauses (List.Subset.refl _)
  have hcases : ∀ k a, (j.set i now).setAt k = some a → a = now ∨ j.setAt k = some a := by
    intro k a ha
    rcases eq_or_ne k i with rfl | hk
    · exact Or.inl (by simpa [Journal.set] using ha.symm)
    · exact Or.inr (by simpa [Journal.set, hk] using ha)
  refine ⟨fun k => ?_, fun k a ha => ?_, h.ended, fun p hp => ⟨(h.since p hp).1, fun k a ha => ?_⟩⟩
  · rcases eq_or_ne k i with rfl | hk
    · simp only [Clock.set, Journal.set, Function.update_self, Option.map_some, hzero, add_zero]
    · simp only [Clock.set, Journal.set, Function.update_of_ne hk]
      exact h.moved k
  · rcases hcases k a ha with rfl | ha
    · exact ⟨le_rfl, by simp [Journal.set, hzero]⟩
    · exact h.past k a ha
  · rcases hcases k a ha with rfl | ha
    · simp [Journal.set, hzero]
    · exact (h.since p hp).2 k a ha

theorem clear (h : Tracks c j now) (i : ι) : Tracks (c.clear i) (j.clear i) now := by
  have hkept : ∀ k a, (j.clear i).setAt k = some a → j.setAt k = some a := by
    intro k a ha
    rcases eq_or_ne k i with rfl | hk
    · simp [Journal.clear] at ha
    · simpa [Journal.clear, hk] using ha
  refine ⟨fun k => ?_, fun k a ha => h.past k a (hkept k a ha), h.ended,
    fun p hp => ⟨(h.since p hp).1, fun k a ha => (h.since p hp).2 k a (hkept k a ha)⟩⟩
  rcases eq_or_ne k i with rfl | hk
  · simp [Clock.clear, Journal.clear]
  · simp only [Clock.clear, Journal.clear, Function.update_of_ne hk]
    exact h.moved k

end Tracks

end PausedClock
