import Mathlib.Data.List.Basic
import Mathlib.Data.List.Pairwise
import Mathlib.Data.List.Perm.Subperm
import Mathlib.Data.Nat.Init

/-! # Groups in the order of their first members

    A loop that files rows in a `Map` under a key leaves one list of rows for each key, and the keys in
    the order in which they first came up. -/

namespace Grouping

theorem nodup_eraseDups {κ : Type*} [BEq κ] [LawfulBEq κ] (l : List κ) : l.eraseDups.Nodup := by
  induction h : l.length using Nat.strong_induction_on generalizing l with
  | h n ih =>
    cases l with
    | nil => simp
    | cons a l =>
      rw [List.eraseDups_cons, List.nodup_cons]
      refine ⟨by simp, ih _ ?_ _ rfl⟩
      rw [← h, List.length_cons]
      exact Nat.lt_succ_of_le (List.length_filter_le _ _)

theorem eraseDups_sublist {κ : Type*} [BEq κ] [LawfulBEq κ] (l : List κ) : l.eraseDups.Sublist l := by
  induction h : l.length using Nat.strong_induction_on generalizing l with
  | h n ih =>
    cases l with
    | nil => exact List.Sublist.refl _
    | cons a l =>
      rw [List.eraseDups_cons]
      have hlen := List.length_filter_le (fun b => !b == a) l
      rw [List.length_cons] at h
      exact ((ih _ (by omega) _ rfl).trans List.filter_sublist).cons_cons a

/-- The distinct members that pass a test are the distinct ones of those that pass it. -/
theorem filter_eraseDups {κ : Type*} [BEq κ] [LawfulBEq κ] (p : κ → Bool) (l : List κ) :
    l.eraseDups.filter p = (l.filter p).eraseDups := by
  induction h : l.length using Nat.strong_induction_on generalizing l with
  | h n ih =>
    cases l with
    | nil => rfl
    | cons a l =>
      have hlen := List.length_filter_le (fun b => !b == a) l
      rw [List.length_cons] at h
      have hrest := ih _ (by omega) (l.filter fun b => !b == a) rfl
      rw [List.eraseDups_cons, List.filter_cons, List.filter_cons, hrest, List.filter_filter]
      by_cases hp : p a
      · rw [if_pos hp, if_pos hp, List.eraseDups_cons, List.filter_filter]
        simp only [Bool.and_comm]
      · rw [if_neg hp, if_neg hp]
        refine congrArg List.eraseDups (List.filter_congr fun b _ => ?_)
        by_cases hb : b == a
        · rw [LawfulBEq.eq_of_beq hb]
          simp [hp]
        · simp [hb]

variable {α κ : Type*} [DecidableEq κ] {key : α → κ} {l g : List α} {a : α}

/-- Of rows that carry the key of what they come from, those of a key come from what has it. -/
theorem filter_flatMap {β : Type*} {key' : β → κ} {l : List β} {f : β → List α}
    (h : ∀ x ∈ l, ∀ y ∈ f x, key y = key' x) (k : κ) :
    (l.flatMap f).filter (key · = k) = (l.filter (key' · = k)).flatMap f := by
  induction l with
  | nil => rfl
  | cons x l ih =>
    have hx := h x List.mem_cons_self
    rw [List.flatMap_cons, List.filter_append, ih fun y hy => h y (List.mem_cons_of_mem _ hy)]
    by_cases hk : key' x = k
    · have hall : (f x).filter (key · = k) = f x :=
        List.filter_eq_self.mpr fun y hy => decide_eq_true ((hx y hy).trans hk)
      have hcons : (x :: l).filter (key' · = k) = x :: l.filter (key' · = k) :=
        List.filter_cons_of_pos (by simpa using hk)
      rw [hall, hcons, List.flatMap_cons]
    · have hnone : (f x).filter (key · = k) = [] :=
        List.filter_eq_nil_iff.mpr fun y hy => by simpa [hx y hy] using hk
      have hcons : (x :: l).filter (key' · = k) = l.filter (key' · = k) := List.filter_cons_of_neg (by simpa using hk)
      rw [hnone, hcons, List.nil_append]

/-- The rows of `l` filed under their keys. -/
def classes (key : α → κ) (l : List α) : List (List α) :=
  (l.map key).eraseDups.map fun k => l.filter (key · = k)

theorem mem_classes : g ∈ classes key l ↔ ∃ a ∈ l, g = l.filter (key · = key a) := by
  simp only [classes, List.mem_map, List.mem_eraseDups]
  constructor
  · rintro ⟨k, ⟨a, ha, rfl⟩, rfl⟩
    exact ⟨a, ha, rfl⟩
  · rintro ⟨a, ha, rfl⟩
    exact ⟨key a, ⟨a, ha, rfl⟩, rfl⟩

theorem length_classes_le (key : α → κ) (l : List α) : (classes key l).length ≤ l.length := by
  have hsub : (l.map key).eraseDups ⊆ l.map key := fun k hk => List.mem_eraseDups.mp hk
  have hlen := ((nodup_eraseDups (l.map key)).subperm hsub).length_le
  rw [List.length_map] at hlen
  rwa [classes, List.length_map]

theorem class_ne_nil (hg : g ∈ classes key l) : g ≠ [] := by
  obtain ⟨a, ha, rfl⟩ := mem_classes.mp hg
  exact List.ne_nil_of_mem (List.mem_filter.mpr ⟨ha, by simp⟩)

theorem mem_of_mem_class (hg : g ∈ classes key l) (ha : a ∈ g) : a ∈ l := by
  obtain ⟨b, -, rfl⟩ := mem_classes.mp hg
  exact (List.mem_filter.mp ha).1

theorem exists_class (ha : a ∈ l) : ∃ g ∈ classes key l, a ∈ g :=
  ⟨_, mem_classes.mpr ⟨a, ha, rfl⟩, List.mem_filter.mpr ⟨ha, by simp⟩⟩

theorem key_eq_of_class (hg : g ∈ classes key l) {b : α} (ha : a ∈ g) (hb : b ∈ g) : key a = key b := by
  obtain ⟨c, -, rfl⟩ := mem_classes.mp hg
  have ha := (List.mem_filter.mp ha).2
  have hb := (List.mem_filter.mp hb).2
  rw [decide_eq_true_eq] at ha hb
  rw [ha, hb]

/-- Rows of two classes have different keys. -/
theorem classes_pairwise : (classes key l).Pairwise fun g g' => ∀ a ∈ g, ∀ b ∈ g', key a ≠ key b := by
  rw [classes, List.pairwise_map]
  refine (nodup_eraseDups _).imp fun {k k'} hne a ha b hb => ?_
  have ha := (List.mem_filter.mp ha).2
  have hb := (List.mem_filter.mp hb).2
  rw [decide_eq_true_eq] at ha hb
  rwa [ha, hb]

end Grouping
