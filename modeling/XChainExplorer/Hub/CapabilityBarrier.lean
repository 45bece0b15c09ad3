import XChainExplorer.Hub.OwedRepages

/-! # What the capability barrier opens over

    The barrier is to open over rows that were judged, and applied where they were not refused, or that a
    later re-page served again. It does where no question is asked and no waiter let go in two
    windows: while the re-page of an overflow runs, whose flag is cleared before it, and while a held
    row that another path than the retry pass let go is still being written. -/

namespace HubDbSync.CapabilityProof

open Journal

variable {K κ : Type*} {s s' : State K κ} {log new p q : List (Event κ)} {k : κ}

/-! ### What is asked of the barrier -/

/-- The row was judged, and refused or applied behind that. -/
def Judged (k : κ) (q : List (Event κ)) : Prop :=
  .judged k true ∈ q ∨ ∃ q₁ q₂, q = q₁ ++ .judged k false :: q₂ ∧ (.landed k ∈ q₂ ∨ .fenced k ∈ q₂)

/-- A re-page of the capability snapshots was opened, served the row and completed. -/
def ServedAgain (k : κ) (q : List (Event κ)) : Prop :=
  ∃ d, .opened d .capability_snapshots ∈ q ∧ .started d .zero ∈ q ∧ .served d k ∈ q ∧ .completed d ∈ q

/-- What has to follow a row that stayed out. -/
def Cleared : Event κ → List (Event κ) → Prop
  | .held k, q => Judged k q
  | .turnedAway k, q => Judged k q ∨ ServedAgain k q
  | _, _ => True

/-- The barrier opens over every row that stayed out before the question, and never to a question that
    saw an overflow while the re-page of one runs. -/
def OpensOverJudged (pre : List (Event κ)) (e : Event κ) : Prop :=
  ∀ asked observed repaging, e = .answered asked observed repaging →
    (∀ p x q, pre = p ++ x :: q → p.length < asked → Cleared x q) ∧ (observed = true → repaging = false)

theorem Judged.append (h : Judged k q) (new : List (Event κ)) : Judged k (q ++ new) := by
  rcases h with h | ⟨q₁, q₂, rfl, h⟩
  · exact .inl (List.mem_append_left _ h)
  · refine .inr ⟨q₁, q₂ ++ new, by simp, ?_⟩
    exact h.imp (List.mem_append_left _) (List.mem_append_left _)

theorem ServedAgain.append (h : ServedAgain k q) (new : List (Event κ)) : ServedAgain k (q ++ new) := by
  obtain ⟨d, hopened, hstarted, hserved, hcompleted⟩ := h
  exact ⟨d, List.mem_append_left _ hopened, List.mem_append_left _ hstarted,
    List.mem_append_left _ hserved, List.mem_append_left _ hcompleted⟩

/-- A row that was judged before is applied now. -/
theorem judged_of_applied (h : .judged k false ∈ q) (hnew : .landed k ∈ new ∨ .fenced k ∈ new) :
    Judged k (q ++ new) := by
  obtain ⟨q₁, q₂, rfl⟩ := List.append_of_mem h
  refine .inr ⟨q₁, q₂ ++ new, by simp, ?_⟩
  exact hnew.imp (List.mem_append_right _) (List.mem_append_right _)

/-! ### The windows -/

/-- The flag of an overflow was cleared for a re-page that has not been accounted for. -/
def State.short (s : State K κ) : Prop := (∃ d, s.retry = .repaging d) ∨ s.retry = .repaged false

/-- A row whose judgement took it out of the map is being written. -/
def State.freed (s : State K κ) (k : κ) : Prop :=
  ∃ i t, s.tasks i = some t ∧ t.key = k ∧ t.phase = .writing true

/-- A parked question goes on waiting: a row it saw is in the map, or the overflow it saw stands. -/
def State.waitsOn (s : State K κ) (holds : List κ) (w : Waiter κ) : Prop :=
  (∃ k ∈ w.holds, k ∈ holds) ∨ w.overflow = true ∧ s.overflow = true

/-- A release over this map lets no question go that saw a row on its way or the overflow of the
    window. -/
def State.Spares (s : State K κ) (holds : List κ) (freed : κ → Prop) : Prop :=
  ∀ w ∈ s.waiters, s.waitsOn holds w ∨ (w.overflow = true → ¬ s.short) ∧ ∀ k ∈ w.holds, ¬ freed k

variable [DecidableEq κ]

/-- What a step must keep to. -/
def Careful (s : State K κ) : Label K κ → Prop
  -- no question is answered or parked in a window
  | .query => s.capabilityProofSatisfied = true → ¬ s.short ∧ ∀ k, ¬ s.freed k
  | .wait => ¬ s.short ∧ ∀ k, ¬ s.freed k
  -- no waiter is let go in one
  | .timeout _ | .retryEnd => s.Spares s.holds s.freed
  | .judged i .refused => ∀ t, s.tasks i = some t → t.phase = .judging false →
      s.Spares (s.holds.filter (· ≠ t.key)) s.freed
  | .judged i .accepted => ∀ t, s.tasks i = some t → t.phase = .judging false →
      s.Spares (s.holds.filter (· ≠ t.key)) fun k => s.freed k ∨ k = t.key ∧ t.key ∈ s.holds
  -- a row the retry pass has approved is left to it
  | .judged i .held => ∀ t, s.tasks i = some t → ∀ j u, s.tasks j = some u → u.caller = .retry →
      u.key = t.key → u.phase = .judging true
  | .fence i _ => ∀ t, s.tasks i = some t → t.caller ≠ .retry → t.key ∉ s.retryApproved
  -- a row let go lands
  | .written i ok => ∀ t, s.tasks i = some t → t.phase = .writing true → ok = true
  -- the re-page of an overflow does not fail over held rows
  | .overflowChecked => s.retry = .repaged false → s.holds = []
  -- the hub still serves, from its first id, the rows it sent before
  | .complete d _ => ∀ p k q, s.log = p ++ .turnedAway k :: q → .opened d .capability_snapshots ∈ q →
      .started d .zero ∈ q → .served d k ∈ q
  | _ => True

/-! ### The invariant -/

/-- The row is on its way into the mirror behind a judgement that took it out of the map. -/
def State.Freeing (s : State K κ) (k : κ) (q : List (Event κ)) : Prop :=
  ∃ i t, s.tasks i = some t ∧ t.key = k ∧ t.phase = .writing true ∧ .judged k false ∈ q

/-- The drain reads the capability snapshots from the start, and was opened in this part of the log. -/
def Drain.Covers (d : ℕ) (q : List (Event κ)) : Drain → Prop
  | .opening T _ _ => T = .capability_snapshots
  | .resolved T _ _ lastId => T = .capability_snapshots ∧ lastId = 0
  | .accounted dr => dr.table = .capability_snapshots ∧ dr.fullTable = true ∧
      .opened d .capability_snapshots ∈ q
  | .paging dr => dr.table = .capability_snapshots ∧ .opened d .capability_snapshots ∈ q ∧
      .started d .zero ∈ q

/-- The re-page of an overflow will serve the rows that were turned away before. -/
def State.Repages (s : State K κ) (q : List (Event κ)) : Prop :=
  s.retry = .repaged false ∨
    ∃ d dr, s.retry = .repaging d ∧ s.drains d = some dr ∧ dr.Covers d q

/-- The row under way in the retry pass: behind its judge it is approved, and then written. -/
def State.Retries (s : State K κ) (i : ℕ) (t : Task κ) : Prop :=
  (∃ todo, s.retry = .running todo (some i)) ∧
    (t.phase = .judging true ∨
      (t.phase = .entering ∧ t.key ∈ s.retryApproved ∨ t.phase = .writing false) ∧
      ∀ p x q, s.log = p ++ x :: q → x = .held t.key ∨ x = .turnedAway t.key → .judged t.key false ∈ q)

/-- What a parked question saw of a row that stayed out before it. -/
def Waiter.Saw (w : Waiter κ) (x : Event κ) (q : List (Event κ)) : Prop :=
  ∀ k, (x = .held k → Judged k q ∨ k ∈ w.holds) ∧
    (x = .turnedAway k → Judged k q ∨ ServedAgain k q ∨ w.overflow = true)

structure Barrier (s : State K κ) : Prop where
  held : ∀ p k q, s.log = p ++ .held k :: q → Judged k q ∨ k ∈ s.holds ∨ s.Freeing k q
  turned : ∀ p k q, s.log = p ++ .turnedAway k :: q →
    Judged k q ∨ ServedAgain k q ∨ s.overflow = true ∨ s.Repages q
  marked : ∀ p k q, s.log = p ++ .turnedAway k :: q → ∃ p', p = p' ++ [.marked .capability_snapshots none]
  owed : ∀ p k q, s.log = p ++ .turnedAway k :: q →
    Judged k q ∨ ServedAgain k q ∨ (s.sync.repageOwed .capability_snapshots).isSome
  retrying : ∀ i t, s.tasks i = some t → t.caller = .retry → s.Retries i t
  judging : ∀ i t, s.tasks i = some t → t.phase = .judging true → t.caller = .retry
  counted : ∀ d, s.retry = .repaging d → d < s.drainCount
  asked : ∀ w ∈ s.waiters, w.asked ≤ s.log.length
  waiters : ∀ w ∈ s.waiters, ∀ p x q, s.log = p ++ x :: q → p.length < w.asked → w.Saw x q
  opens : Each OpensOverJudged s.log

/-! ### What grows with the log -/

/-- A row stays out of the mirror. -/
def Event.keepsOut : Event κ → Bool
  | .held _ | .turnedAway _ => true
  | _ => false

/-- Events that neither keep a row out nor open the barrier. -/
def Event.inert : Event κ → Bool
  | .held _ | .turnedAway _ | .answered .. => false
  | _ => true

omit [DecidableEq κ] in
theorem Event.keepsOut_of_inert {e : Event κ} (h : e.inert = true) : e.keepsOut = false := by
  cases e <;> first | rfl | cases h

omit [DecidableEq κ] in
theorem Waiter.Saw.append {w : Waiter κ} {x : Event κ} (h : w.Saw x q) (new : List (Event κ)) :
    w.Saw x (q ++ new) := by
  intro k
  constructor
  · intro hx
    exact ((h k).1 hx).imp (·.append new) id
  · intro hx
    exact ((h k).2 hx).imp (·.append new) (Or.imp (·.append new) id)

omit [DecidableEq κ] in
theorem State.Freeing.append (h : s.Freeing k q) (new : List (Event κ)) : s.Freeing k (q ++ new) := by
  obtain ⟨i, t, hi, hk, hphase, hq⟩ := h
  exact ⟨i, t, hi, hk, hphase, List.mem_append_left _ hq⟩

omit [DecidableEq κ] in
theorem Drain.Covers.append {d : ℕ} {dr : Drain} (h : dr.Covers d q) (new : List (Event κ)) :
    dr.Covers d (q ++ new) := by
  cases dr with
  | opening | resolved => exact h
  | accounted dr => exact ⟨h.1, h.2.1, List.mem_append_left _ h.2.2⟩
  | paging dr => exact ⟨h.1, List.mem_append_left _ h.2.1, List.mem_append_left _ h.2.2⟩

omit [DecidableEq κ] in
theorem State.Repages.append (h : s.Repages q) (new : List (Event κ)) : s.Repages (q ++ new) := by
  rcases h with h | ⟨d, dr, hd, hdr, hcovers⟩
  · exact .inl h
  · exact .inr ⟨d, dr, hd, hdr, hcovers.append new⟩

omit [DecidableEq κ] in
theorem opens_of_inert (h : Each OpensOverJudged log) (hnew : ∀ e ∈ new, e.inert = true) :
    Each OpensOverJudged (log ++ new) := by
  refine h.append ?_
  rintro more e he asked observed repaging rfl
  cases hnew _ he

omit [DecidableEq κ] in
/-- A row that stays out by a log that grew by other events is an old one. -/
theorem out_of_append {x : Event κ} (h : log ++ new = p ++ x :: q) (hx : x.keepsOut = true)
    (hnew : ∀ e ∈ new, e.keepsOut = false) : ∃ q', q = q' ++ new ∧ log = p ++ x :: q' := by
  rcases append_eq_append_cons h with hold | ⟨p', -, rfl⟩
  · exact hold
  · rw [hnew x (by simp)] at hx
    cases hx

omit [DecidableEq κ] in
/-- A waiter has seen what it has seen. -/
theorem saw_append {w : Waiter κ} (h : ∀ p x q, log = p ++ x :: q → p.length < w.asked → w.Saw x q)
    (hasked : w.asked ≤ log.length) {x : Event κ} (heq : log ++ new = p ++ x :: q)
    (hp : p.length < w.asked) : w.Saw x q := by
  rcases append_eq_append_cons heq with ⟨q', rfl, hlog⟩ | ⟨p', rfl, -⟩
  · exact (h p x q' hlog hp).append new
  · rw [List.length_append] at hp
    omega

omit [DecidableEq κ] in
theorem State.Retries.append {i : ℕ} {t : Task κ} (h : s.Retries i t) (hretry : s'.retry = s.retry)
    (happroved : t.key ∈ s.retryApproved → t.key ∈ s'.retryApproved) (hlog : s'.log = s.log ++ new)
    (hnew : t.phase ≠ .judging true → .held t.key ∉ new ∧ .turnedAway t.key ∉ new) : s'.Retries i t := by
  refine ⟨hretry ▸ h.1, ?_⟩
  rcases h.2 with hjudging | ⟨hphase, hout⟩
  · exact .inl hjudging
  · have hne : t.phase ≠ .judging true := by
      rcases hphase with ⟨hphase, -⟩ | hphase <;> simp [hphase]
    refine .inr ⟨hphase.imp (And.imp_right happroved) id, ?_⟩
    intro p x q heq hx
    rw [hlog] at heq
    rcases append_eq_append_cons heq with ⟨q', rfl, hold⟩ | ⟨p', -, rfl⟩
    · exact List.mem_append_left _ (hout p x q' hold hx)
    · obtain ⟨hheld, hturned⟩ := hnew hne
      rcases hx with rfl | rfl
      · simp at hheld
      · simp at hturned

omit [DecidableEq κ] in
/-- The log grows by events that keep no row out. -/
theorem Barrier.grow (h : Barrier s) (hnew : ∀ e ∈ new, e.keepsOut = false)
    (hopens : Each OpensOverJudged (s.log ++ new)) : Barrier (s.note new) where
  held := by
    intro p k q heq
    obtain ⟨q', rfl, hp⟩ := out_of_append heq rfl hnew
    exact (h.held p k q' hp).imp (·.append new) (Or.imp id (·.append new))
  turned := by
    intro p k q heq
    obtain ⟨q', rfl, hp⟩ := out_of_append heq rfl hnew
    exact (h.turned p k q' hp).imp (·.append new) (Or.imp (·.append new) (Or.imp id (·.append new)))
  marked := by
    intro p k q heq
    obtain ⟨q', rfl, hp⟩ := out_of_append heq rfl hnew
    exact h.marked p k q' hp
  owed := by
    intro p k q heq
    obtain ⟨q', rfl, hp⟩ := out_of_append heq rfl hnew
    exact (h.owed p k q' hp).imp (·.append new) (Or.imp (·.append new) id)
  retrying := by
    intro i t hi ht
    refine State.Retries.append (h.retrying i t hi ht) rfl id rfl fun _ => ⟨?_, ?_⟩
    · intro hmem
      cases hnew _ hmem
    · intro hmem
      cases hnew _ hmem
  judging := h.judging
  counted := h.counted
  asked := by
    intro w hw
    exact (h.asked w hw).trans (by simp [State.note])
  waiters := by
    intro w hw p x q heq hp
    exact saw_append (h.waiters w hw) (h.asked w hw) heq hp
  opens := hopens

omit [DecidableEq κ] in
theorem Barrier.note (h : Barrier s) (hnew : ∀ e ∈ new, e.inert = true) : Barrier (s.note new) :=
  h.grow (fun e he => Event.keepsOut_of_inert (hnew e he)) (opens_of_inert h.opens hnew)

/-! ### The hold map -/

omit [DecidableEq κ] in
/-- Starting a row of another caller than the retry pass, in a free place or behind a judge. -/
theorem Barrier.startTask {i : ℕ} {t : Task κ} (h : Barrier s) (ht : t.caller ≠ .retry)
    (hphase : t.phase ≠ .judging true) (hi : ∀ u, s.tasks i = some u → u.phase ≠ .writing true) :
    Barrier (s.startTask i t) := by
  have hfreeing {k : κ} {q : List (Event κ)} (hf : s.Freeing k q) : (s.startTask i t).Freeing k q := by
    obtain ⟨j, u, hj, hk, hu, hq⟩ := hf
    have hji : j ≠ i := by
      rintro rfl
      exact hi u hj hu
    exact ⟨j, u, (Function.update_of_ne hji _ _).trans hj, hk, hu, hq⟩
  refine { h with held := ?_, retrying := ?_, judging := ?_ }
  · intro p k q heq
    exact (h.held p k q heq).imp id (Or.imp id hfreeing)
  · intro j u hj hu
    by_cases hji : j = i
    · subst hji
      obtain rfl : t = u := by simpa [State.startTask] using hj
      exact absurd hu ht
    · exact h.retrying j u ((Function.update_of_ne hji _ _).symm.trans hj) hu
  · intro j u hj hu
    by_cases hji : j = i
    · subst hji
      obtain rfl : t = u := by simpa [State.startTask] using hj
      exact absurd hu hphase
    · exact h.judging j u ((Function.update_of_ne hji _ _).symm.trans hj) hu

theorem Barrier.dropHold (h : Barrier s)
    (hk : ∀ p q, s.log = p ++ .held k :: q → Judged k q ∨ s.Freeing k q) : Barrier (s.dropHold k) := by
  refine { h with held := ?_ }
  intro p k' q heq
  by_cases hkk : k' = k
  · subst hkk
    exact (hk p q heq).imp id .inr
  · refine (h.held p k' q heq).imp id (Or.imp (fun hmem => ?_) id)
    simpa [State.dropHold, hkk] using hmem

omit [DecidableEq κ] in
theorem State.Repages.short (h : s.Repages q) : s.short := by
  rcases h with h | ⟨d, -, hd, -⟩
  · exact .inr h
  · exact .inl ⟨d, hd⟩

omit [DecidableEq κ] in
theorem repaging_of_not_short (h : ¬ s.short) : s.repaging = false := by
  unfold State.repaging
  split
  · rename_i d hd
    exact absurd (.inl ⟨d, hd⟩) h
  · rfl

omit [DecidableEq κ] in
/-- A row a question saw, none of whose keys is held or on its way, was judged. -/
theorem judged_of_spared {holds : List κ} (h : Barrier s) (hsat : ∀ k ∈ holds, k ∉ s.holds)
    (hfreed : ∀ k ∈ holds, ¬ s.freed k) (hp : s.log = p ++ .held k :: q)
    (hsaw : Judged k q ∨ k ∈ holds) : Judged k q := by
  refine hsaw.elim id fun hk => ?_
  rcases h.held p k q hp with hj | hmem | ⟨i, t, hi, hkey, hphase, -⟩
  · exact hj
  · exact absurd hmem (hsat k hk)
  · exact absurd ⟨i, t, hi, hkey, hphase⟩ (hfreed k hk)

omit [DecidableEq κ] in
/-- Outside the window of a re-page, what was turned away is cleared where no overflow stands. -/
theorem cleared_of_spared (h : Barrier s) (hshort : ¬ s.short) (hover : s.overflow = false)
    (hp : s.log = p ++ .turnedAway k :: q) : Judged k q ∨ ServedAgain k q := by
  rcases h.turned p k q hp with hj | hserved | hover' | hrepages
  · exact .inl hj
  · exact .inr hserved
  · rw [hover] at hover'
    cases hover'
  · exact absurd hrepages.short hshort

omit [DecidableEq κ] in
/-- Fewer questions are parked. -/
theorem Barrier.unpark {waiters : List (Waiter κ)} (h : Barrier s) (hsub : ∀ w ∈ waiters, w ∈ s.waiters) :
    Barrier { s with waiters } :=
  { h with
    asked := fun w hw => h.asked w (hsub w hw)
    waiters := fun w hw => h.waiters w (hsub w hw) }

/-- The waiters a release lets go are answered over judged rows. -/
theorem Barrier.release (h : Barrier s) (hs : s.Spares s.holds s.freed) :
    Barrier s.releaseCapabilityProofWaiters := by
  have hanswer : ∀ e ∈ (s.waiters.filter s.capabilityProofWaiterSatisfied).map (Waiter.answer s.repaging),
      ∃ w ∈ s.waiters, s.capabilityProofWaiterSatisfied w = true ∧ e = .answered w.asked w.overflow s.repaging := by
    intro e he
    obtain ⟨w, hw, rfl⟩ := List.mem_map.mp he
    rw [List.mem_filter] at hw
    exact ⟨w, hw.1, hw.2, rfl⟩
  have hkept : Barrier { s with
      waiters := s.waiters.filter fun w => !s.capabilityProofWaiterSatisfied w } :=
    h.unpark fun w hw => (List.mem_filter.mp hw).1
  refine hkept.grow ?_ (h.opens.append ?_)
  · intro e he
    obtain ⟨w, -, -, rfl⟩ := hanswer e he
    rfl
  · rintro more e he asked observed repaging rfl
    obtain ⟨w, hw, hsat, heq⟩ := hanswer _ he
    cases heq
    simp only [State.capabilityProofWaiterSatisfied, Bool.and_eq_true, List.all_eq_true,
      decide_eq_true_eq, Bool.or_eq_true, Bool.not_eq_true'] at hsat
    -- a waiter that goes was spared
    have hstays : ¬ s.waitsOn s.holds w := by
      rintro (⟨k, hk, hmem⟩ | ⟨hover, hover'⟩)
      · exact hsat.1 k hk hmem
      · rcases hsat.2 with hno | hno
        · rw [hover] at hno
          cases hno
        · rw [hover'] at hno
          cases hno
    obtain ⟨hshort, hfreed⟩ := (hs w hw).resolve_left hstays
    constructor
    · intro p x q heq hp
      rcases append_eq_append_cons heq with ⟨q', rfl, hplog⟩ | ⟨p', rfl, -⟩
      · have hsaw := h.waiters w hw p x q' hplog hp
        cases x with
        | held k => exact (judged_of_spared h hsat.1 hfreed hplog ((hsaw k).1 rfl)).append more
        | turnedAway k =>
          rcases (hsaw k).2 rfl with hj | hserved | hover
          · exact .inl (hj.append more)
          · exact .inr (hserved.append more)
          · have hover' : s.overflow = false := hsat.2.resolve_left (by simp [hover])
            exact (cleared_of_spared h (hshort hover) hover' hplog).imp (·.append more) (·.append more)
        | _ => trivial
      · have := h.asked w hw
        rw [List.length_append] at hp
        omega
    · intro hover
      exact repaging_of_not_short (hshort hover)

/-! ### A hold -/

variable {cap : ℕ}

theorem subset_heldRows (s : State K κ) (k : κ) : ∀ k' ∈ s.holds, k' ∈ s.heldRows cap k := by
  intro k' hk'
  unfold State.heldRows
  split_ifs
  · exact hk'
  · exact List.mem_append_left _ hk'
  · exact hk'

/-- What a hold leaves: the row is in the map, or the map overflows and the table is owed a re-page. -/
structure Held (cap : ℕ) (s : State K κ) (k : κ) (s' : State K κ) : Prop where
  holds : s'.holds = s.heldRows cap k
  overflow : s'.overflow = (s.overflow || decide (k ∉ s.heldRows cap k))
  tasks : s'.tasks = s.tasks
  retry : s'.retry = s.retry
  approved : s'.retryApproved = s.retryApproved
  waiters : s'.waiters = s.waiters
  drains : s'.drains = s.drains
  count : s'.drainCount = s.drainCount
  log : (k ∈ s.heldRows cap k ∧ ∃ kept, s'.log = s.log ++ [.marked .capability_snapshots kept, .held k]) ∨
    k ∉ s.heldRows cap k ∧ s'.log = s.log ++ [.marked .capability_snapshots none, .turnedAway k] ∧
      (s'.sync.repageOwed .capability_snapshots).isSome
  owed : (s.sync.repageOwed .capability_snapshots).isSome → (s'.sync.repageOwed .capability_snapshots).isSome

theorem held_hold (s : State K κ) (k : κ) (retainHold : Bool) : Held cap s k (s.hold cap k retainHold) := by
  have hsome : ((s.holdCapabilitySnapshot cap k).sync.repageOwed .capability_snapshots).isSome := by
    simp [State.holdCapabilitySnapshot, Sync.markRepageOwed, Sync.markOwed]
  unfold State.hold
  dsimp only
  by_cases hkept : ((s.bootstrapping || retainHold) && decide (k ∈ s.heldRows cap k)) = true
  · rw [if_pos hkept]
    have hk : k ∈ s.heldRows cap k := by
      simp only [Bool.and_eq_true, decide_eq_true_eq] at hkept
      exact hkept.2
    refine ⟨rfl, rfl, rfl, rfl, rfl, rfl, rfl, rfl, .inl ⟨hk, some k, rfl⟩, ?_⟩
    intro howed
    simpa [State.note, State.setOwed] using howed
  · rw [if_neg hkept]
    refine ⟨rfl, rfl, rfl, rfl, rfl, rfl, rfl, rfl, ?_, fun _ => hsome⟩
    by_cases hk : k ∈ s.heldRows cap k
    · rw [if_pos hk]
      exact .inl ⟨hk, none, rfl⟩
    · rw [if_neg hk]
      exact .inr ⟨hk, rfl, hsome⟩

theorem Barrier.held_next (h : Barrier s) (hs : Held cap s k s')
    (hretry : ∀ i t, s.tasks i = some t → t.caller = .retry → t.key = k → t.phase = .judging true) :
    Barrier s' := by
  have hinert : ∀ kept : Option κ, ∀ e ∈ [Event.marked .capability_snapshots kept], e.inert = true := by
    simp [Event.inert]
  obtain ⟨x, kept, hx, hlog, hout, hturned⟩ : ∃ x kept, (x = .held k ∨ x = .turnedAway k) ∧
      s'.log = (s.note [.marked .capability_snapshots kept]).log ++ [x] ∧
      (x = .held k → k ∈ s'.holds) ∧ (x = .turnedAway k → s'.overflow = true ∧ kept = none ∧
        (s'.sync.repageOwed .capability_snapshots).isSome) := by
    rcases hs.log with ⟨hk, kept, hlog⟩ | ⟨hk, hlog, hsome⟩
    · refine ⟨.held k, kept, .inl rfl, ?_, fun _ => hs.holds ▸ hk, nofun⟩
      rw [hlog]
      exact (List.append_assoc s.log [_] [_]).symm
    · refine ⟨.turnedAway k, none, .inr rfl, ?_, nofun, fun _ => ⟨?_, rfl, hsome⟩⟩
      · rw [hlog]
        exact (List.append_assoc s.log [_] [_]).symm
      · simp [hs.overflow, hk]
  have h₁ := h.note (hinert kept)
  have hfreeing {k' : κ} {q : List (Event κ)} (hf : s.Freeing k' q) : s'.Freeing k' q := by
    rwa [State.Freeing, hs.tasks]
  have hrepages {q : List (Event κ)} (hr : s.Repages q) : s'.Repages q := by
    rwa [State.Repages, hs.retry, hs.drains]
  refine ⟨?_, ?_, ?_, ?_, ?_, ?_, ?_, ?_, ?_, ?_⟩
  · intro p k' q heq
    rw [hlog] at heq
    rcases concat_eq_append_cons heq with ⟨q', rfl, hp⟩ | ⟨-, -, hxk⟩
    · refine (h₁.held p k' q' hp).imp (·.append _) (Or.imp (fun hmem => ?_) fun hf => hfreeing (hf.append _))
      rw [hs.holds]
      exact subset_heldRows s k k' hmem
    · rcases hx with rfl | rfl
      · cases hxk
        exact .inr (.inl (hout rfl))
      · cases hxk
  · intro p k' q heq
    rw [hlog] at heq
    rcases concat_eq_append_cons heq with ⟨q', rfl, hp⟩ | ⟨-, -, hxk⟩
    · refine (h₁.turned p k' q' hp).imp (·.append _)
        (Or.imp (·.append _) (Or.imp (fun hover => ?_) fun hr => hrepages (hr.append _)))
      have hover : s.overflow = true := hover
      simp [hs.overflow, hover]
    · rcases hx with rfl | rfl
      · cases hxk
      · exact .inr (.inr (.inl (hturned rfl).1))
  · intro p k' q heq
    rw [hlog] at heq
    rcases concat_eq_append_cons heq with ⟨q', rfl, hp⟩ | ⟨-, rfl, hxk⟩
    · exact h₁.marked p k' q' hp
    · rcases hx with rfl | rfl
      · cases hxk
      · obtain ⟨-, rfl, -⟩ := hturned rfl
        exact ⟨s.log, rfl⟩
  · intro p k' q heq
    rw [hlog] at heq
    rcases concat_eq_append_cons heq with ⟨q', rfl, hp⟩ | ⟨-, -, hxk⟩
    · exact (h₁.owed p k' q' hp).imp (·.append _) (Or.imp (·.append _) hs.owed)
    · rcases hx with rfl | rfl
      · cases hxk
      · exact .inr (.inr (hturned rfl).2.2)
  · intro i t hi ht
    rw [hs.tasks] at hi
    refine State.Retries.append (h₁.retrying i t hi ht) hs.retry (fun hmem => hs.approved ▸ hmem) hlog ?_
    intro hphase
    have hne : t.key ≠ k := fun hk => hphase (hretry i t hi ht hk)
    rcases hx with rfl | rfl <;> simp [hne]
  · rw [hs.tasks]
    exact h.judging
  · rw [hs.retry, hs.count]
    exact h.counted
  · rw [hs.waiters, hlog]
    intro w hw
    exact (h₁.asked w hw).trans (by simp)
  · intro w hw p y q heq hp
    rw [hs.waiters] at hw
    rw [hlog] at heq
    exact saw_append (h₁.waiters w hw) (h₁.asked w hw) heq hp
  · rw [hlog, each_concat]
    refine ⟨h₁.opens, ?_⟩
    rintro asked observed repaging rfl
    rcases hx with hx | hx <;> cases hx

/-! ### The end of a row -/

omit [DecidableEq κ] in
theorem Drain.Covers.rowDone {d : ℕ} {dr : Drain} (h : dr.Covers d q) (thrown : Bool) :
    (dr.rowDone thrown).Covers d q := by
  cases dr <;> exact h

omit [DecidableEq κ] in
/-- What a row's end leaves: its place is free, and a flush's drain goes on. -/
structure Finished (s : State K κ) (i : ℕ) (s' : State K κ) : Prop where
  holds : s'.holds = s.holds
  overflow : s'.overflow = s.overflow
  tasks : s'.tasks = Function.update s.tasks i none
  waiters : s'.waiters = s.waiters
  count : s'.drainCount = s.drainCount
  log : s'.log = s.log
  owed : s'.sync.repageOwed = s.sync.repageOwed
  retryApproved : s'.retryApproved = s.retryApproved

omit [DecidableEq κ] in
theorem finished_finish (s : State K κ) (i : ℕ) (t : Task κ) (thrown : Bool) :
    Finished s i (s.finish i t thrown) := by
  unfold State.finish
  cases t.caller <;> exact ⟨rfl, rfl, rfl, rfl, rfl, rfl, rfl, rfl⟩

omit [DecidableEq κ] in
/-- The place of a row is freed that is not on its way any more. -/
theorem Barrier.finished {i : ℕ} {t : Task κ} (h : Barrier s) (hs : Finished s i s')
    (hi : s.tasks i = some t)
    (hdone : t.phase = .writing true → ∀ p q, s.log = p ++ .held t.key :: q → .judged t.key false ∈ q →
      Judged t.key q)
    (hretry : ∀ j u, j ≠ i → s.tasks j = some u → u.caller = .retry → s'.retry = s.retry)
    (hrepages : ∀ q, s.Repages q → s'.Repages q)
    (hcounted : ∀ d, s'.retry = .repaging d → s.retry = .repaging d) : Barrier s' := by
  have hother {j : ℕ} {u : Task κ} (hj : s'.tasks j = some u) : j ≠ i ∧ s.tasks j = some u := by
    rw [hs.tasks] at hj
    by_cases hji : j = i
    · subst hji
      simp at hj
    · exact ⟨hji, (Function.update_of_ne hji _ _).symm.trans hj⟩
  refine ⟨?_, ?_, ?_, ?_, ?_, ?_, ?_, ?_, ?_, ?_⟩
  · intro p k q heq
    rw [hs.log] at heq
    rw [hs.holds]
    rcases h.held p k q heq with hj | hmem | ⟨j, u, hj, hkey, hphase, hq⟩
    · exact .inl hj
    · exact .inr (.inl hmem)
    · by_cases hji : j = i
      · subst hji
        obtain rfl : t = u := Option.some.inj (hi.symm.trans hj)
        subst hkey
        exact .inl (hdone hphase p q heq hq)
      · refine .inr (.inr ⟨j, u, ?_, hkey, hphase, hq⟩)
        rw [hs.tasks, Function.update_of_ne hji, hj]
  · intro p k q heq
    rw [hs.log] at heq
    rw [hs.overflow]
    exact (h.turned p k q heq).imp id (Or.imp id (Or.imp id (hrepages q)))
  · intro p k q heq
    rw [hs.log] at heq
    exact h.marked p k q heq
  · intro p k q heq
    rw [hs.log] at heq
    rw [hs.owed]
    exact h.owed p k q heq
  · intro j u hj hu
    obtain ⟨hji, hj⟩ := hother hj
    refine State.Retries.append (h.retrying j u hj hu) (hretry j u hji hj hu)
      (fun hmem => hs.retryApproved ▸ hmem) (hs.log.trans (List.append_nil s.log).symm) (by simp)
  · intro j u hj hu
    exact h.judging j u (hother hj).2 hu
  · intro d hd
    rw [hs.count]
    exact h.counted d (hcounted d hd)
  · rw [hs.waiters, hs.log]
    exact h.asked
  · rw [hs.waiters, hs.log]
    exact h.waiters
  · rw [hs.log]
    exact h.opens

omit [DecidableEq κ] in
theorem Barrier.finish {i : ℕ} {t : Task κ} (h : Barrier s) (ht : t.caller ≠ .retry)
    (hi : s.tasks i = some t)
    (hdone : t.phase = .writing true → ∀ p q, s.log = p ++ .held t.key :: q → .judged t.key false ∈ q →
      Judged t.key q) (thrown : Bool) : Barrier (s.finish i t thrown) := by
  have hretry : (s.finish i t thrown).retry = s.retry := by
    unfold State.finish
    cases hc : t.caller with
    | live | flush => rfl
    | retry => exact absurd hc ht
  refine h.finished (finished_finish s i t thrown) hi hdone (fun _ _ _ _ _ => hretry) ?_ ?_
  · rintro q (hr | ⟨d, dr, hd, hdr, hcovers⟩)
    · exact .inl (hretry.trans hr)
    · refine .inr ?_
      cases hc : t.caller with
      | live => exact ⟨d, dr, hretry.trans hd, by simpa [State.finish, hc] using hdr, hcovers⟩
      | retry => exact absurd hc ht
      | flush e =>
        by_cases hde : d = e
        · subst hde
          exact ⟨d, dr.rowDone thrown, hretry.trans hd, by simp [State.finish, hc, hdr], hcovers.rowDone thrown⟩
        · exact ⟨d, dr, hretry.trans hd, by simp [State.finish, hc, hdr, hde], hcovers⟩
  · intro d hd
    exact hretry ▸ hd

omit [DecidableEq κ] in
theorem Barrier.finishRetry {i : ℕ} {t : Task κ} (h : Barrier s) (ht : t.caller = .retry)
    (hi : s.tasks i = some t) (approved : List κ) (thrown : Bool) :
    Barrier ({ s with retryApproved := approved }.finish i t thrown) := by
  obtain ⟨⟨todo, hrunning⟩, hphase⟩ := h.retrying i t hi ht
  have hwriting : t.phase ≠ .writing true := by
    rcases hphase with hphase | ⟨⟨hphase, -⟩ | hphase, -⟩ <;> simp [hphase]
  -- nothing else is under way in the pass, so nothing rests on the approvals
  have hnone (j : ℕ) (u : Task κ) (hji : j ≠ i) (hj : s.tasks j = some u) : u.caller ≠ .retry := by
    intro hu
    obtain ⟨⟨todo', hrunning'⟩, -⟩ := h.retrying j u hj hu
    rw [hrunning] at hrunning'
    cases hrunning'
    exact hji rfl
  have hfree : Barrier (s.finish i t thrown) := by
    refine h.finished (finished_finish s i t thrown) hi (fun hw => absurd hw hwriting) ?_ ?_ ?_
    · intro j u hji hj hu
      exact absurd hu (hnone j u hji hj)
    · rintro q (hr | ⟨d, -, hd, -⟩)
      · rw [hrunning] at hr
        cases hr
      · rw [hrunning] at hd
        cases hd
    · intro d hd
      simp only [State.finish, ht, hrunning] at hd
      split at hd <;> cases hd
  have heq : { s with retryApproved := approved }.finish i t thrown =
      { s.finish i t thrown with retryApproved := approved } := by
    unfold State.finish
    cases t.caller <;> rfl
  rw [heq]
  refine { hfree with retrying := ?_ }
  intro j u hj hu
  have hj : (s.finish i t thrown).tasks j = some u := hj
  rw [(finished_finish s i t thrown).tasks] at hj
  by_cases hji : j = i
  · subst hji
    simp at hj
  · exact absurd hu (hnone j u hji ((Function.update_of_ne hji _ _).symm.trans hj))

/-- A row ends: one that was on its way has been applied, and one of the retry pass that is not thrown has
    been judged. -/
theorem Barrier.endApply {i : ℕ} {t : Task κ} (h : Barrier s) (hi : s.tasks i = some t) {thrown : Bool}
    (hdone : t.phase = .writing true → ∀ p q, s.log = p ++ .held t.key :: q → .judged t.key false ∈ q →
      Judged t.key q)
    (hretry : t.caller = .retry → thrown = false → ∀ p q, s.log = p ++ .held t.key :: q → Judged t.key q) :
    Barrier (s.endApply i t thrown) := by
  unfold State.endApply
  split
  · rename_i hcaller
    cases thrown with
    | true => exact h.finishRetry hcaller hi _ true
    | false =>
      have hdropped : Barrier (s.dropHold t.key) :=
        h.dropHold fun p q hp => .inl (hretry hcaller rfl p q hp)
      exact hdropped.finishRetry hcaller hi _ false
  · rename_i hcaller
    exact h.finish hcaller hi hdone thrown

/-! ### The steps of a row -/

variable {i : ℕ} {t : Task κ}

omit [DecidableEq κ] in
/-- What the retry pass judged and has now landed or refused is settled. -/
theorem judged_of_retries (h : Barrier s) (hi : s.tasks i = some t) (ht : t.caller = .retry)
    (hphase : t.phase ≠ .judging true) {e : Event κ} (he : e = .landed t.key ∨ e = .fenced t.key)
    (heq : s.log ++ [e] = p ++ .held t.key :: q) : Judged t.key q := by
  obtain ⟨-, hjudging | ⟨-, hout⟩⟩ := h.retrying i t hi ht
  · exact absurd hjudging hphase
  · rcases concat_eq_append_cons heq with ⟨q', rfl, hp⟩ | ⟨-, -, rfl⟩
    · refine judged_of_applied (hout p _ q' hp (.inl rfl)) ?_
      rcases he with rfl | rfl <;> simp
    · rcases he with he | he <;> cases he

theorem Barrier.fence (h : Barrier s) (hi : s.tasks i = some t) (hphase : t.phase = .entering)
    (happroved : t.caller ≠ .retry → t.key ∉ s.retryApproved) (refused : Bool) :
    Barrier (s.fence i t refused) := by
  unfold State.fence
  split_ifs with hrefused hkey
  · refine (h.note (by simp [Event.inert])).endApply hi (by simp [hphase]) ?_
    intro ht _ p q hp
    exact judged_of_retries h hi ht (by simp [hphase]) (.inr rfl) hp
  · have ht : t.caller = .retry := by_contra fun hne => happroved hne hkey
    obtain ⟨hrunning, hjudging | ⟨-, hout⟩⟩ := h.retrying i t hi ht
    · rw [hphase] at hjudging
      cases hjudging
    · have hother {j : ℕ} {u : Task κ} (hji : j ≠ i) (hu : (({ s with
          retryApproved := s.retryApproved.filter (· ≠ t.key) } : State K κ).startTask i
            { t with phase := .writing false }).tasks j = some u) : s.tasks j = some u :=
        (Function.update_of_ne hji _ _).symm.trans hu
      refine { h with held := ?_, retrying := ?_, judging := ?_ }
      · intro p k q heq
        refine (h.held p k q heq).imp id (Or.imp id ?_)
        rintro ⟨j, u, hj, hk, hu, hq⟩
        have hji : j ≠ i := by
          rintro rfl
          rw [hi] at hj
          cases hj
          rw [hphase] at hu
          cases hu
        exact ⟨j, u, (Function.update_of_ne hji _ _).trans hj, hk, hu, hq⟩
      · intro j u hj hu
        by_cases hji : j = i
        · subst hji
          obtain rfl : { t with phase := .writing false } = u := by simpa [State.startTask] using hj
          exact ⟨hrunning, .inr ⟨.inr rfl, hout⟩⟩
        · obtain ⟨⟨todo', hrunning'⟩, -⟩ := h.retrying j u (hother hji hj) hu
          obtain ⟨todo, hrunning⟩ := hrunning
          rw [hrunning] at hrunning'
          cases hrunning'
          exact absurd rfl hji
      · intro j u hj hu
        by_cases hji : j = i
        · subst hji
          obtain rfl : { t with phase := .writing false } = u := by simpa [State.startTask] using hj
          cases hu
        · exact h.judging j u (hother hji hj) hu
  · have ht : t.caller ≠ .retry := by
      intro ht
      obtain ⟨-, hjudging | ⟨⟨-, hmem⟩ | hwriting, -⟩⟩ := h.retrying i t hi ht
      · rw [hphase] at hjudging
        cases hjudging
      · exact hkey hmem
      · rw [hphase] at hwriting
        cases hwriting
    refine h.startTask ht (by simp) ?_
    intro u hu
    rw [hi] at hu
    cases hu
    simp [hphase]

omit [DecidableEq κ] in
/-- A row outside the retry pass's own look is not the pass's. -/
theorem caller_of_judging (h : Barrier s) (hi : s.tasks i = some t) (hphase : t.phase = .judging false) :
    t.caller ≠ .retry := by
  intro ht
  obtain ⟨-, hjudging | ⟨⟨hentering, -⟩ | hwriting, -⟩⟩ := h.retrying i t hi ht
  · rw [hphase] at hjudging
    cases hjudging
  · rw [hphase] at hentering
    cases hentering
  · rw [hphase] at hwriting
    cases hwriting

omit [DecidableEq κ] in
theorem judged_of_refused (heq : s.log ++ [.judged k true] = p ++ .held k :: q) : Judged k q := by
  rcases concat_eq_append_cons heq with ⟨q', rfl, -⟩ | ⟨-, -, hno⟩
  · exact .inl (by simp)
  · cases hno

theorem Barrier.judgedRow {v : Verdict} (h : Barrier s) (hi : s.tasks i = some t)
    (hphase : t.phase = .judging false) (hcare : Careful s (.judged i v)) :
    Barrier (s.judgedRow cap i t v) := by
  have hcaller := caller_of_judging h hi hphase
  have hold : ∀ u, s.tasks i = some u → u.phase ≠ .writing true := by
    intro u hu
    rw [hi] at hu
    cases hu
    simp [hphase]
  cases v with
  | held =>
    have hheld : Held cap s t.key (s.hold cap t.key false) := held_hold s t.key false
    refine (h.held_next hheld (hcare t hi)).endApply (hheld.tasks ▸ hi) (by simp [hphase]) ?_
    intro ht
    exact absurd ht hcaller
  | refused =>
    have hnoted : Barrier (s.note [.judged t.key true]) := h.note (by simp [Event.inert])
    have hdropped := hnoted.dropHold (k := t.key) fun p q hp => .inl (judged_of_refused hp)
    have hreleased := hdropped.release (hcare t hi hphase)
    refine hreleased.endApply hi (by simp [hphase]) ?_
    intro ht
    exact absurd ht hcaller
  | accepted =>
    have hnoted : Barrier (s.note [.judged t.key false]) := h.note (by simp [Event.inert])
    -- the write begins before the hold goes: nothing reads the one while the other changes
    let writing : Task κ := { t with phase := .writing (t.key ∈ s.holds) }
    have hstarted : Barrier ((s.note [.judged t.key false]).startTask i writing) :=
      hnoted.startTask hcaller (by simp [writing]) hold
    have hself : ((s.note [.judged t.key false]).startTask i writing).tasks i = some writing :=
      Function.update_self _ _ _
    have hdropped := hstarted.dropHold (k := t.key) (by
      intro p q heq
      by_cases hmem : t.key ∈ s.holds
      · refine .inr ⟨i, writing, hself, rfl, by simp [writing, hmem], ?_⟩
        rcases concat_eq_append_cons heq with ⟨q', rfl, -⟩ | ⟨-, -, hno⟩
        · simp
        · cases hno
      · rcases hstarted.held p t.key q heq with hj | hin | hf
        · exact .inl hj
        · exact absurd hin hmem
        · exact .inr hf)
    refine hdropped.release ?_
    intro w hw
    refine (hcare t hi hphase w hw).imp id fun hfree => ⟨hfree.1, ?_⟩
    rintro k hk ⟨j, u, hj, hkey, hu⟩
    by_cases hji : j = i
    · subst hji
      obtain rfl : writing = u := Option.some.inj (hself.symm.trans hj)
      exact hfree.2 k hk (.inr ⟨hkey.symm, by simpa [writing] using hu⟩)
    · exact hfree.2 k hk (.inl ⟨j, u, (Function.update_of_ne hji _ _).symm.trans hj, hkey, hu⟩)
  | unchecked =>
    have hnoted : Barrier (s.note [.judged t.key false]) := h.note (by simp [Event.inert])
    exact hnoted.startTask hcaller (by simp) hold

theorem Barrier.judgedAgain {v : Verdict} (h : Barrier s) (hi : s.tasks i = some t)
    (hphase : t.phase = .judging true) (hcare : Careful s (.judged i v)) :
    Barrier (s.judgedAgain cap i t v) := by
  have ht := h.judging i t hi hphase
  obtain ⟨hrunning, -⟩ := h.retrying i t hi ht
  have hpass : Barrier ({ s.note [.judged t.key false] with
      retryApproved := t.key :: s.retryApproved }.startTask i { t with phase := .entering }) := by
    have hnoted : Barrier (s.note [.judged t.key false]) := h.note (by simp [Event.inert])
    have hother {j : ℕ} {u : Task κ} (hji : j ≠ i) (hu : (({ s.note [.judged t.key false] with
        retryApproved := t.key :: s.retryApproved } : State K κ).startTask i
          { t with phase := .entering }).tasks j = some u) : s.tasks j = some u :=
      (Function.update_of_ne hji _ _).symm.trans hu
    refine { hnoted with held := ?_, retrying := ?_, judging := ?_ }
    · intro p k q heq
      refine (hnoted.held p k q heq).imp id (Or.imp id ?_)
      rintro ⟨j, u, hj, hk, hu, hq⟩
      have hji : j ≠ i := by
        rintro rfl
        have hj : s.tasks j = some u := hj
        rw [hi] at hj
        cases hj
        rw [hphase] at hu
        cases hu
      exact ⟨j, u, (Function.update_of_ne hji _ _).trans hj, hk, hu, hq⟩
    · intro j u hj hu
      by_cases hji : j = i
      · subst hji
        obtain rfl : { t with phase := .entering } = u := by simpa [State.startTask] using hj
        refine ⟨hrunning, .inr ⟨.inl ⟨rfl, List.mem_cons_self⟩, ?_⟩⟩
        intro p x q heq hx
        rcases concat_eq_append_cons heq with ⟨q', rfl, -⟩ | ⟨-, -, rfl⟩
        · simp
        · rcases hx with hx | hx <;> cases hx
      · obtain ⟨⟨todo', hrunning'⟩, -⟩ := h.retrying j u (hother hji hj) hu
        obtain ⟨todo, hrunning⟩ := hrunning
        rw [hrunning] at hrunning'
        cases hrunning'
        exact absurd rfl hji
    · intro j u hj hu
      by_cases hji : j = i
      · subst hji
        obtain rfl : { t with phase := .entering } = u := by simpa [State.startTask] using hj
        cases hu
      · exact h.judging j u (hother hji hj) hu
  cases v with
  | held =>
    have hheld : Held cap s t.key (s.hold cap t.key true) := held_hold s t.key true
    exact (h.held_next hheld (hcare t hi)).finishRetry ht (hheld.tasks ▸ hi) _ false
  | refused =>
    have hnoted : Barrier (s.note [.judged t.key true]) := h.note (by simp [Event.inert])
    have hdropped := hnoted.dropHold (k := t.key) fun p q hp => .inl (judged_of_refused hp)
    exact hdropped.finishRetry ht hi _ false
  | accepted => exact hpass
  | unchecked => exact hpass

theorem Barrier.written {letGo ok : Bool} (h : Barrier s) (hi : s.tasks i = some t)
    (hphase : t.phase = .writing letGo) (hok : t.phase = .writing true → ok = true) :
    Barrier (s.written i t ok) := by
  unfold State.written
  split_ifs with hlands
  · refine (h.note (by simp [Event.inert])).endApply hi ?_ ?_
    · intro _ p q heq hq
      rcases concat_eq_append_cons heq with ⟨q', rfl, -⟩ | ⟨-, -, hno⟩
      · exact judged_of_applied (by simpa using hq) (.inl (by simp))
      · cases hno
    · intro ht _ p q heq
      exact judged_of_retries h hi ht (by simp [hphase]) (.inl rfl) heq
  · refine h.endApply hi ?_ nofun
    intro hwriting
    exact absurd (hok hwriting) hlands

theorem Barrier.rowStep {l : Label K κ} (h : Barrier s) (hcare : Careful s l)
    (hs : s.rowStep cap l = some s') : Barrier s' := by
  cases l with
  | live i k =>
    simp only [State.rowStep] at hs
    split at hs
    case h_1 hi =>
      refine Option.some.inj hs ▸ h.startTask (by simp) (by simp) ?_
      intro u hu
      rw [hi] at hu
      cases hu
    · cases hs
  | fence i refused =>
    simp only [State.rowStep] at hs
    split at hs
    case h_1 hi => exact Option.some.inj hs ▸ h.fence hi rfl (hcare _ hi) refused
    · cases hs
  | judged i v =>
    simp only [State.rowStep] at hs
    split at hs
    case h_1 hi => exact Option.some.inj hs ▸ h.judgedRow hi rfl hcare
    case h_2 hi => exact Option.some.inj hs ▸ h.judgedAgain hi rfl hcare
    · cases hs
  | written i ok =>
    simp only [State.rowStep] at hs
    split at hs
    case h_1 hi => exact Option.some.inj hs ▸ h.written hi rfl (hcare _ hi)
    · cases hs
  | _ => cases hs

end HubDbSync.CapabilityProof
