import XChainExplorer.Lib.Runs
import Mathlib.Algebra.GroupWithZero.Nat
import Mathlib.Algebra.Order.BigOperators.Group.List
import Mathlib.Data.List.Lemmas
import Mathlib.Logic.Function.Basic

/-! # Workers that share a cursor

    Some workers take the items of a list one after the other by a cursor they share. An item is worked on
    in steps, between which every other worker may go on, and its result is kept under the item. Whatever
    the order of the steps, all items are worked on and each keeps its own result. -/

namespace WorkerPool

open Runs

/-- A piece of work: what a step makes of it, what it comes to, and how many steps that takes at most. -/
structure Task (β γ : Type*) where
  advance : β → β ⊕ γ
  outcome : β → γ
  left : β → ℕ
  outcome_inl : ∀ b b', advance b = .inl b' → outcome b' = outcome b
  outcome_inr : ∀ b c, advance b = .inr c → c = outcome b
  left_inl : ∀ b b', advance b = .inl b' → left b' < left b

inductive Worker (α β : Type*) where
  | idle
  | busy (item : α) (work : β)
  | finished
  deriving DecidableEq

structure Pool (α β γ : Type*) where
  cursor : ℕ
  workers : List (Worker α β)
  results : α → Option γ

variable {α β γ : Type*} (items : List α) (start : α → β) (task : Task β γ)

def init (n : ℕ) : Pool α β γ := ⟨0, List.replicate n .idle, fun _ => none⟩

/-- One worker goes on by one step. -/
def step [DecidableEq α] (p : Pool α β γ) (i : ℕ) : Option (Pool α β γ) :=
  match p.workers[i]? with
  | some .idle =>
    match items[p.cursor]? with
    | some item =>
      some { p with cursor := p.cursor + 1, workers := p.workers.set i (.busy item (start item)) }
    | none => some { p with cursor := p.cursor + 1, workers := p.workers.set i .finished }
  | some (.busy item work) =>
    match task.advance work with
    | .inl work => some { p with workers := p.workers.set i (.busy item work) }
    | .inr result =>
      some { p with workers := p.workers.set i .idle, results := Function.update p.results item (some result) }
  | _ => none

/-- Every worker came to the end of the list. -/
def Done (p : Pool α β γ) : Prop := ∀ w ∈ p.workers, w = .finished

/-! ### What each step keeps -/

/-- An item behind the cursor is being worked on or has its result, and work and results are what the item
    comes to. -/
structure Inv (p : Pool α β γ) : Prop where
  taken : ∀ j item, j < p.cursor → items[j]? = some item →
    (p.results item).isSome ∨ ∃ work, Worker.busy item work ∈ p.workers
  results : ∀ item result, p.results item = some result → result = task.outcome (start item)
  busy : ∀ item work, Worker.busy item work ∈ p.workers → task.outcome work = task.outcome (start item)
  finished : Worker.finished ∈ p.workers → items.length ≤ p.cursor

variable {items start task} {p p' : Pool α β γ} {i n : ℕ} {u v w : Worker α β}

theorem Inv.init : Inv items start task (WorkerPool.init n : Pool α β γ) where
  taken _ _ hj _ := absurd hj (Nat.not_lt_zero _)
  results _ _ h := by cases h
  busy item work h := by cases List.eq_of_mem_replicate h
  finished h := by cases List.eq_of_mem_replicate h

theorem mem_set_of_ne (hi : p.workers[i]? = some u) (hne : w ≠ u) (hw : w ∈ p.workers) : w ∈ p.workers.set i v := by
  obtain ⟨j, hj⟩ := List.mem_iff_getElem?.mp hw
  have hij : i ≠ j := by
    rintro rfl
    exact hne (Option.some.inj (hj.symm.trans hi))
  exact List.mem_iff_getElem?.mpr ⟨j, by rw [List.getElem?_set_ne hij, hj]⟩

theorem mem_set_self (hi : p.workers[i]? = some u) : v ∈ p.workers.set i v :=
  List.mem_set (List.getElem?_eq_some_iff.mp hi).1 v

section Steps

variable [DecidableEq α]

/-- A worker takes an item, finds none, goes on with its item, or files its result. -/
theorem step_cases (h : step items start task p i = some p') :
    (∃ item, p.workers[i]? = some .idle ∧ items[p.cursor]? = some item ∧
      p' = { p with cursor := p.cursor + 1, workers := p.workers.set i (.busy item (start item)) }) ∨
    (p.workers[i]? = some .idle ∧ items[p.cursor]? = none ∧
      p' = { p with cursor := p.cursor + 1, workers := p.workers.set i .finished }) ∨
    (∃ item work work', p.workers[i]? = some (.busy item work) ∧ task.advance work = .inl work' ∧
      p' = { p with workers := p.workers.set i (.busy item work') }) ∨
    ∃ item work result, p.workers[i]? = some (.busy item work) ∧ task.advance work = .inr result ∧
      p' = { p with workers := p.workers.set i .idle, results := Function.update p.results item (some result) } := by
  unfold step at h
  split at h
  case h_1 hi =>
    split at h
    case h_1 item hitem => exact .inl ⟨item, hi, hitem, (Option.some.inj h).symm⟩
    case h_2 hitem => exact .inr (.inl ⟨hi, hitem, (Option.some.inj h).symm⟩)
  case h_2 item work hi =>
    split at h
    case h_1 work' hwork => exact .inr (.inr (.inl ⟨item, work, work', hi, hwork, (Option.some.inj h).symm⟩))
    case h_2 result hwork => exact .inr (.inr (.inr ⟨item, work, result, hi, hwork, (Option.some.inj h).symm⟩))
  case h_3 => cases h

theorem Inv.step (hinv : Inv items start task p) (h : step items start task p i = some p') :
    Inv items start task p' := by
  obtain ⟨item, hi, hitem, rfl⟩ | ⟨hi, hitem, rfl⟩ | ⟨item, work, work', hi, hwork, rfl⟩ |
    ⟨item, work, result, hi, hwork, rfl⟩ := step_cases h
  · refine ⟨fun j other hj hother => ?_, hinv.results, fun other work hmem => ?_, fun hmem => ?_⟩
    · rcases Nat.lt_succ_iff_lt_or_eq.mp hj with hj | rfl
      · refine (hinv.taken j other hj hother).imp_right ?_
        rintro ⟨work, hmem⟩
        exact ⟨work, mem_set_of_ne hi (by simp) hmem⟩
      · obtain rfl := Option.some.inj (hother.symm.trans hitem)
        exact .inr ⟨_, mem_set_self hi⟩
    · rcases List.mem_or_eq_of_mem_set hmem with hmem | heq
      · exact hinv.busy other work hmem
      · cases heq
        rfl
    · rcases List.mem_or_eq_of_mem_set hmem with hmem | heq
      · exact (hinv.finished hmem).trans (Nat.le_succ _)
      · cases heq
  · have hlen : items.length ≤ p.cursor := List.getElem?_eq_none_iff.mp hitem
    refine ⟨fun j other hj hother => ?_, hinv.results, fun other work hmem => ?_, fun _ => hlen.trans (Nat.le_succ _)⟩
    · have hlt : j < p.cursor := (List.getElem?_eq_some_iff.mp hother).1.trans_le hlen
      refine (hinv.taken j other hlt hother).imp_right ?_
      rintro ⟨work, hmem⟩
      exact ⟨work, mem_set_of_ne hi (by simp) hmem⟩
    · rcases List.mem_or_eq_of_mem_set hmem with hmem | heq
      · exact hinv.busy other work hmem
      · cases heq
  · refine ⟨fun j other hj hother => ?_, hinv.results, fun other work hmem => ?_, fun hmem => ?_⟩
    · refine (hinv.taken j other hj hother).imp_right ?_
      rintro ⟨busy, hmem⟩
      by_cases hsame : Worker.busy other busy = Worker.busy item work
      · cases hsame
        exact ⟨work', mem_set_self hi⟩
      · exact ⟨busy, mem_set_of_ne hi hsame hmem⟩
    · rcases List.mem_or_eq_of_mem_set hmem with hmem | heq
      · exact hinv.busy other work hmem
      · cases heq
        exact (task.outcome_inl _ _ hwork).trans (hinv.busy item work (List.mem_of_getElem? hi))
    · rcases List.mem_or_eq_of_mem_set hmem with hmem | heq
      · exact hinv.finished hmem
      · cases heq
  · have hresult : result = task.outcome (start item) :=
      (task.outcome_inr _ _ hwork).trans (hinv.busy item work (List.mem_of_getElem? hi))
    refine ⟨fun j other hj hother => ?_, fun other answer hanswer => ?_, fun other work hmem => ?_, fun hmem => ?_⟩
    · by_cases hsame : other = item
      · subst hsame
        exact .inl (by simp)
      · simp only [Function.update_of_ne hsame]
        refine (hinv.taken j other hj hother).imp_right ?_
        rintro ⟨busy, hmem⟩
        exact ⟨busy, mem_set_of_ne hi (by rintro heq; cases heq; exact hsame rfl) hmem⟩
    · by_cases hsame : other = item
      · subst hsame
        simp only [Function.update_self] at hanswer
        rw [← hresult, Option.some.inj hanswer]
      · simp only [Function.update_of_ne hsame] at hanswer
        exact hinv.results other answer hanswer
    · rcases List.mem_or_eq_of_mem_set hmem with hmem | heq
      · exact hinv.busy other work hmem
      · cases heq
    · rcases List.mem_or_eq_of_mem_set hmem with hmem | heq
      · exact hinv.finished hmem
      · cases heq

/-- At the end every item has its own result. -/
theorem results_of_done {es : List ℕ} (hn : 0 < n) (hrun : run (step items start task) (init n) es = some p)
    (hdone : Done p) {item : α} (hitem : item ∈ items) : p.results item = some (task.outcome (start item)) := by
  have hinv : Inv items start task p := run_inv' (fun _ _ _ hi hs => hi.step hs) Inv.init hrun
  have hworkers : p.workers.length = n :=
    run_inv' (I := fun p => p.workers.length = n) (fun q i q' hq hs => by
      obtain ⟨_, -, -, rfl⟩ | ⟨-, -, rfl⟩ | ⟨_, _, _, -, -, rfl⟩ | ⟨_, _, _, -, -, rfl⟩ := step_cases hs
      all_goals rw [← hq, List.length_set]) (List.length_replicate ..) hrun
  obtain ⟨w, hw⟩ := List.exists_mem_of_length_pos (hworkers ▸ hn : 0 < p.workers.length)
  have hend : items.length ≤ p.cursor := hinv.finished (hdone w hw ▸ hw)
  obtain ⟨j, hj⟩ := List.mem_iff_getElem?.mp hitem
  have hlt : j < p.cursor := (List.getElem?_eq_some_iff.mp hj).1.trans_le hend
  rcases hinv.taken j item hlt hj with hsome | ⟨work, hbusy⟩
  · obtain ⟨result, hresult⟩ := Option.isSome_iff_exists.mp hsome
    rw [hresult, hinv.results item result hresult]
  · cases hdone _ hbusy

/-! ### Every run ends -/

def Worker.weight (task : Task β γ) : Worker α β → ℕ
  | .idle => 1
  | .busy _ work => task.left work + 2
  | .finished => 0

/-- A bound on the steps that are left. -/
def left (items : List α) (start : α → β) (task : Task β γ) (p : Pool α β γ) : ℕ :=
  ((items.drop p.cursor).map fun item => task.left (start item) + 2).sum + (p.workers.map (Worker.weight task)).sum

omit [DecidableEq α] in
theorem sum_set {ws : List (Worker α β)} (hi : ws[i]? = some u) (f : Worker α β → ℕ) :
    ((ws.set i v).map f).sum + f u = (ws.map f).sum + f v := by
  induction ws generalizing i with
  | nil => cases hi
  | cons w ws ih =>
    cases i with
    | zero =>
      cases hi
      simp only [List.set_cons_zero, List.map_cons, List.sum_cons]
      omega
    | succ i =>
      have := ih hi
      simp only [List.set_cons_succ, List.map_cons, List.sum_cons]
      omega

theorem left_step (h : step items start task p i = some p') : left items start task p' < left items start task p := by
  obtain ⟨item, hi, hitem, rfl⟩ | ⟨hi, hitem, rfl⟩ | ⟨item, work, work', hi, hwork, rfl⟩ |
    ⟨item, work, result, hi, hwork, rfl⟩ := step_cases h
  · have hsum := sum_set (v := .busy item (start item)) hi (Worker.weight task)
    obtain ⟨hlt, hget⟩ := List.getElem?_eq_some_iff.mp hitem
    simp only [left, List.drop_eq_getElem_cons hlt, hget, List.map_cons, List.sum_cons]
    simp only [Worker.weight] at hsum
    omega
  · have hsum := sum_set (v := .finished) hi (Worker.weight task)
    have hlen : items.length ≤ p.cursor := List.getElem?_eq_none_iff.mp hitem
    simp only [left, List.drop_eq_nil_of_le hlen, List.drop_eq_nil_of_le (hlen.trans (Nat.le_succ _))]
    simp only [Worker.weight] at hsum
    omega
  · have hsum := sum_set (v := .busy item work') hi (Worker.weight task)
    have hleft := task.left_inl _ _ hwork
    simp only [left]
    simp only [Worker.weight] at hsum
    omega
  · have hsum := sum_set (v := .idle) hi (Worker.weight task)
    simp only [left]
    simp only [Worker.weight] at hsum
    omega

/-- No run goes on for ever. -/
theorem length_run_le {es : List ℕ} (hrun : run (step items start task) p es = some p') :
    es.length + left items start task p' ≤ left items start task p := by
  induction es generalizing p with
  | nil =>
    cases hrun
    simp
  | cons i es ih =>
    obtain ⟨q, hq, hrest⟩ := run_cons.mp hrun
    have := ih hrest
    have := left_step hq
    simp only [List.length_cons]
    omega

/-- A pool that is not done goes on. -/
theorem exists_step (items : List α) (start : α → β) (task : Task β γ) (h : ¬ Done p) :
    ∃ i p', step items start task p i = some p' := by
  obtain ⟨w, hw, hne⟩ : ∃ w ∈ p.workers, w ≠ .finished := by
    simpa [Done] using h
  obtain ⟨i, hi⟩ := List.mem_iff_getElem?.mp hw
  refine ⟨i, ?_⟩
  unfold step
  rw [hi]
  cases w with
  | idle =>
    cases items[p.cursor]? with
    | none => exact ⟨_, rfl⟩
    | some item => exact ⟨_, rfl⟩
  | busy item work =>
    simp only
    cases task.advance work with
    | inl work => exact ⟨_, rfl⟩
    | inr result => exact ⟨_, rfl⟩
  | finished => exact absurd rfl hne

/-- Every run can be brought to its end. -/
theorem exists_completion (p : Pool α β γ) : ∃ es p', run (step items start task) p es = some p' ∧ Done p' := by
  induction hleft : left items start task p using Nat.strong_induction_on generalizing p with
  | h k ih =>
    by_cases hdone : Done p
    · exact ⟨[], p, rfl, hdone⟩
    · obtain ⟨i, q, hq⟩ := exists_step items start task hdone
      obtain ⟨es, p', hrun, hdone'⟩ := ih _ (hleft ▸ left_step hq) q rfl
      exact ⟨i :: es, p', run_cons.mpr ⟨q, hq, hrun⟩, hdone'⟩

end Steps

end WorkerPool
