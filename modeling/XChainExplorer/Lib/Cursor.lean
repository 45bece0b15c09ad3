import Mathlib.Data.List.Pairwise
import Mathlib.Order.Basic

/-! # Rows behind a cursor

    A list in strict order of a key is read on from one of its rows by the rows whose keys come after
    that row's. What is read is exactly what follows the row in the list, so pages that are asked for
    behind the last row of the page before take the list apart. -/

namespace Cursor

variable {α κ : Type*} (r : κ → κ → Prop) [DecidableRel r] (key : α → κ)

/-- The rows whose key comes after `c`. -/
def beyond (rows : List α) (c : κ) : List α := rows.filter fun x => r c (key x)

variable {r key} {rows before rest : List α} {x : α}

/-- Behind a row of the list stands the rest of the list. -/
theorem beyond_append_cons (hasymm : ∀ a b, r a b → ¬ r b a)
    (h : (before ++ x :: rest).Pairwise fun a b => r (key a) (key b)) :
    beyond r key (before ++ x :: rest) (key x) = rest := by
  obtain ⟨-, hrest, hbefore⟩ := List.pairwise_append.mp h
  obtain ⟨hx, -⟩ := List.pairwise_cons.mp hrest
  have hnone : before.filter (fun y => decide (r (key x) (key y))) = [] := by
    rw [List.filter_eq_nil_iff]
    intro y hy hr
    exact hasymm _ _ (hbefore y hy x List.mem_cons_self) (of_decide_eq_true hr)
  have hself : ¬ r (key x) (key x) := fun hr => hasymm _ _ hr hr
  have hall : rest.filter (fun y => decide (r (key x) (key y))) = rest := by
    rw [List.filter_eq_self]
    intro y hy
    exact decide_eq_true (hx y hy)
  rw [beyond, List.filter_append, hnone, List.filter_cons_of_neg (by simpa using hself), hall,
    List.nil_append]

/-- A page ends at its last row, behind which the rest of the list stands. -/
theorem beyond_of_getLast_take (hasymm : ∀ a b, r a b → ¬ r b a)
    (h : rows.Pairwise fun a b => r (key a) (key b)) {n : ℕ} (hx : (rows.take n).getLast? = some x) :
    beyond r key rows (key x) = rows.drop n := by
  obtain ⟨before, htake⟩ := List.getLast?_eq_some_iff.mp hx
  have hrows : rows = before ++ x :: rows.drop n := by
    rw [← List.singleton_append, ← List.append_assoc, ← htake, List.take_append_drop]
  rw [hrows] at h
  have hbeyond := beyond_append_cons hasymm h
  rwa [← hrows] at hbeyond

/-- A part of the list that is closed towards its end is read on as the list is. -/
theorem beyond_filter (htrans : ∀ a b c, r a b → r b c → r a c) {c : κ} (hc : r c (key x)) :
    beyond r key (beyond r key rows c) (key x) = beyond r key rows (key x) := by
  rw [beyond, beyond, List.filter_filter]
  refine List.filter_congr fun y _ => ?_
  by_cases hxy : r (key x) (key y)
  · simp only [hxy, htrans _ _ _ hc hxy, decide_true, Bool.and_true]
  · simp only [hxy, decide_false, Bool.false_and]

/-- The rows of a part of the list are those whose keys are among its keys. -/
theorem filter_mem_map {part : List α} [DecidableEq κ] (hpart : part.Sublist rows)
    (h : (rows.map key).Nodup) : rows.filter (fun x => decide (key x ∈ part.map key)) = part := by
  induction hpart with
  | slnil => rfl
  | @cons part rows y hsub ih =>
    obtain ⟨hy, hrows⟩ := List.nodup_cons.mp h
    have hnot : key y ∉ part.map key := fun hmem => hy ((hsub.map key).subset hmem)
    rw [List.filter_cons_of_neg (by simpa using hnot), ih hrows]
  | @cons_cons part rows y hsub ih =>
    obtain ⟨hy, hrows⟩ := List.nodup_cons.mp h
    rw [List.filter_cons_of_pos (by simp), List.cons_eq_cons]
    refine ⟨rfl, (List.filter_congr fun x hx => ?_).trans (ih hrows)⟩
    have hne : key x ≠ key y := fun heq => hy (heq ▸ List.mem_map_of_mem hx)
    simp only [List.map_cons, List.mem_cons, hne, false_or]

/-! ### Pages that are cut

    A test that holds up to some row of a list in order and of none after it keeps a page whole where
    it holds of the page's last row, and it keeps no more than `n` rows where it fails on row `n`. -/

section cut
variable {s : α → α → Prop} {p : α → Bool} {n : ℕ}

theorem filter_eq_nil_of_head (h : (x :: rows).Pairwise s) (hp : ∀ a b, s a b → p b → p a)
    (hx : ¬ p x = true) : (x :: rows).filter p = [] := by
  obtain ⟨hafter, -⟩ := List.pairwise_cons.mp h
  rw [List.filter_eq_nil_iff]
  intro y hy hpy
  rcases List.mem_cons.mp hy with rfl | hy
  · exact hx hpy
  · exact hx (hp _ _ (hafter y hy) hpy)

theorem take_filter_eq_take_iff (h : rows.Pairwise s) (hp : ∀ a b, s a b → p b → p a) :
    (rows.filter p).take n = rows.take n ↔ ∀ b ∈ (rows.take n).getLast?, p b = true := by
  induction rows generalizing n with
  | nil => simp
  | cons x rows ih =>
    cases n with
    | zero => simp
    | succ n =>
      by_cases hx : p x = true
      · obtain ⟨-, hrows⟩ := List.pairwise_cons.mp h
        rw [List.filter_cons_of_pos hx, List.take_succ_cons, List.take_succ_cons, List.cons_inj_right,
          ih hrows]
        cases hpage : rows.take n with
        | nil => simp [hx]
        | cons y page => rw [List.getLast?_cons_cons]
      · rw [filter_eq_nil_of_head h hp hx, List.take_nil]
        refine iff_of_false (fun heq => ?_) fun hlast => ?_
        · cases heq
        · -- the last row of the page comes after the first, of which the test does not hold
          have hmem := List.getLast_mem (List.cons_ne_nil x (rows.take n))
          have hp' := hlast _ (List.getLast?_eq_some_getLast (List.cons_ne_nil x (rows.take n)))
          have hnil := filter_eq_nil_of_head h hp hx
          have hsub : (x :: rows.take n).Sublist (x :: rows) := (List.take_sublist n rows).cons_cons x
          exact List.filter_eq_nil_iff.mp hnil _ (hsub.subset hmem) hp'

theorem getElem?_filter (h : rows.Pairwise s) (hp : ∀ a b, s a b → p b → p a) :
    (rows.filter p)[n]? = rows[n]?.filter p := by
  induction rows generalizing n with
  | nil => rfl
  | cons y rows ih =>
    by_cases hy : p y = true
    · rw [List.filter_cons_of_pos hy]
      cases n with
      | zero => rw [List.getElem?_cons_zero, List.getElem?_cons_zero, Option.filter_some, if_pos hy]
      | succ n => rw [List.getElem?_cons_succ, List.getElem?_cons_succ, ih (List.pairwise_cons.mp h).2]
    · have hnil := filter_eq_nil_of_head h hp hy
      rw [hnil, List.getElem?_nil]
      cases hx : (y :: rows)[n]? with
      | none => rfl
      | some x =>
        have hpx := List.filter_eq_nil_iff.mp hnil x (List.mem_of_getElem? hx)
        rw [Option.filter_some, if_neg hpx]

/-- Row `n` fails the test where no more than `n` rows pass it. -/
theorem length_filter_le_iff (h : rows.Pairwise s) (hp : ∀ a b, s a b → p b → p a) :
    (rows.filter p).length ≤ n ↔ ∀ x ∈ rows[n]?, ¬ p x = true := by
  rw [← List.getElem?_eq_none_iff, getElem?_filter h hp, Option.filter_eq_none_iff]
  exact Iff.rfl

end cut

end Cursor
