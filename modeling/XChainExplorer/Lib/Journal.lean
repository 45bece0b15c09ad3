import Mathlib.Data.List.Basic
import Mathlib.Data.List.Induction

/-! # Journals

    A journal is a list that only grows at its end. `Each P` says that every entry satisfies `P`
    together with what was written before it; writing one entry more is one obligation more. -/

namespace Journal

variable {α : Type*} {P Q : List α → α → Prop} {log : List α} {x : α}

/-- `P` holds of every entry and what stands before it. -/
def Each (P : List α → α → Prop) (log : List α) : Prop := ∀ pre e post, log = pre ++ e :: post → P pre e

theorem each_nil : Each P [] := by
  intro pre e post h
  simp at h

/-- An entry of a journal that has grown is an old one or one of those that it grew by. -/
theorem append_eq_append_cons {new pre post : List α} {e : α} (h : log ++ new = pre ++ e :: post) :
    (∃ post', post = post' ++ new ∧ log = pre ++ e :: post') ∨
      ∃ pre', pre = log ++ pre' ∧ new = pre' ++ e :: post := by
  rcases List.append_eq_append_iff.mp h with ⟨pre', hpre, hnew⟩ | ⟨mid, hlog, hmid⟩
  · exact .inr ⟨pre', hpre, hnew⟩
  · cases mid with
    | nil => exact .inr ⟨[], by simpa using hlog.symm, by simpa using hmid.symm⟩
    | cons e' mid =>
      obtain ⟨rfl, rfl⟩ := List.cons.inj hmid
      exact .inl ⟨mid, rfl, hlog⟩

/-- An entry of a journal that has just grown is an old one, or the one that it grew by. -/
theorem concat_eq_append_cons {pre post : List α} {e : α} (h : log ++ [x] = pre ++ e :: post) :
    (∃ post', post = post' ++ [x] ∧ log = pre ++ e :: post') ∨ post = [] ∧ pre = log ∧ e = x := by
  cases post using List.reverseRecOn with
  | nil =>
    obtain ⟨hlog, hx⟩ := List.append_inj' h rfl
    exact .inr ⟨rfl, hlog.symm, (List.singleton_inj.mp hx).symm⟩
  | append_singleton post y _ =>
    rw [← List.cons_append, ← List.append_assoc] at h
    obtain ⟨hlog, hy⟩ := List.append_inj' h rfl
    exact .inl ⟨post, by rw [List.singleton_inj.mp hy], hlog⟩

theorem each_concat : Each P (log ++ [x]) ↔ Each P log ∧ P log x := by
  constructor
  · intro h
    refine ⟨?_, h log x [] rfl⟩
    intro pre e post heq
    exact h pre e (post ++ [x]) (by rw [heq, List.append_assoc, List.cons_append])
  · rintro ⟨h, hx⟩ pre e post heq
    rcases concat_eq_append_cons heq with ⟨post', -, hlog⟩ | ⟨-, rfl, rfl⟩
    · exact h pre e post' hlog
    · exact hx

theorem Each.mono (h : Each P log) (hPQ : ∀ pre e, P pre e → Q pre e) : Each Q log := by
  intro pre e post heq
  exact hPQ pre e (h pre e post heq)

/-- Entries that satisfy `P` after any beginning that extends the journal. -/
theorem Each.append (h : Each P log) {new : List α} (hnew : ∀ more, ∀ e ∈ new, P (log ++ more) e) :
    Each P (log ++ new) := by
  induction new using List.reverseRecOn with
  | nil => rwa [List.append_nil]
  | append_singleton new e ih =>
    rw [← List.append_assoc, each_concat]
    refine ⟨ih ?_, hnew new e (by simp)⟩
    intro more e' he'
    exact hnew more e' (by simp [he'])

end Journal
