import Mathlib.Algebra.GroupWithZero.Nat
import Mathlib.Data.List.Basic
import Mathlib.Data.List.TakeDrop

/-! # Texts with placeholders

    A text of a statement is run with a list of values, which its placeholders take from left to right. A text
    that is given one value as often as it has placeholders says what it says of that value. -/

/-- A text: how many placeholders it has, and what it says once they have their values. -/
structure Prepared (ν α : Type*) where
  placeholders : ℕ
  value : List ν → α

namespace Prepared

variable {ν α β γ : Type*}

/-- A text without a placeholder. -/
def text (a : α) : Prepared ν α := ⟨0, fun _ => a⟩

/-- A text with one placeholder; a value that is missing is none. -/
def hole (f : Option ν → α) : Prepared ν α := ⟨1, fun values => f values.head?⟩

/-- One text after another. -/
def both (op : α → β → γ) (a : Prepared ν α) (b : Prepared ν β) : Prepared ν γ :=
  ⟨a.placeholders + b.placeholders,
    fun values => op (a.value (values.take a.placeholders)) (b.value (values.drop a.placeholders))⟩

def map (f : α → β) (a : Prepared ν α) : Prepared ν β := ⟨a.placeholders, fun values => f (a.value values)⟩

/-- The conditions of a `WHERE`, one after another. -/
def all {ρ : Type*} : List (Prepared ν (ρ → Bool)) → Prepared ν (ρ → Bool)
  | [] => text fun _ => true
  | a :: rest => both (fun p q row => p row && q row) a (all rest)

/-- The text with one value for all its placeholders. -/
def filled (v : ν) (a : Prepared ν α) : α := a.value (List.replicate a.placeholders v)

variable {v : ν}

@[simp] theorem filled_text (a : α) : (text a : Prepared ν α).filled v = a := rfl

@[simp] theorem filled_hole (f : Option ν → α) : (hole f).filled v = f (some v) := rfl

@[simp] theorem filled_map (f : α → β) (a : Prepared ν α) : (a.map f).filled v = f (a.filled v) := rfl

@[simp] theorem filled_both (op : α → β → γ) (a : Prepared ν α) (b : Prepared ν β) :
    (both op a b).filled v = op (a.filled v) (b.filled v) := by
  simp only [filled, both, List.take_replicate, List.drop_replicate, Nat.min_eq_left (Nat.le_add_right _ _),
    Nat.add_sub_cancel_left]

theorem filled_all {ρ : Type*} (parts : List (Prepared ν (ρ → Bool))) (row : ρ) :
    (all parts).filled v row = parts.all fun part => part.filled v row := by
  induction parts with
  | nil => rfl
  | cons a rest ih =>
    rw [all, filled_both, List.all_cons, ih]

theorem placeholders_all {ρ : Type*} (parts : List (Prepared ν (ρ → Bool))) :
    (all parts).placeholders = (parts.map placeholders).sum := by
  induction parts with
  | nil => rfl
  | cons a rest ih => rw [all, List.map_cons, List.sum_cons, ← ih]; rfl

end Prepared
