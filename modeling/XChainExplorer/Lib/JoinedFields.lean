import Mathlib.Algebra.GroupWithZero.Nat
import Mathlib.Data.List.Basic

/-! # Fields joined by a separator

    A text of fields that are joined by one character, none of which holds that character, can be
    split at it again, so it determines the list of its fields. -/

namespace JoinedFields

/-- None of the fields holds the separator. -/
def Free (sep : Char) (fields : List String) : Prop := ∀ f ∈ fields, sep ∉ f.toList

variable {sep : Char} {l m : List String}

@[simp] theorem free_nil : Free sep [] := List.forall_mem_nil _

@[simp] theorem free_cons {f : String} : Free sep (f :: l) ↔ sep ∉ f.toList ∧ Free sep l :=
  List.forall_mem_cons

@[simp] theorem free_append : Free sep (l ++ m) ↔ Free sep l ∧ Free sep m :=
  List.forall_mem_append

/-- Equal texts are joined from equal fields. -/
theorem intercalate_inj {s : String} (hs : s.toList = [sep]) (hl : Free sep l) (hm : Free sep m)
    (hlne : l ≠ []) (hmne : m ≠ []) (h : s.intercalate l = s.intercalate m) : l = m := by
  have hsplit {k : List String} (hk : Free sep k) (hne : k ≠ []) :
      (s.intercalate k).toList.splitOn sep = k.map String.toList := by
    rw [String.toList_intercalate, hs]
    refine List.splitOn_intercalate sep (fun f hf => ?_) (mt List.map_eq_nil_iff.mp hne)
    obtain ⟨t, ht, rfl⟩ := List.mem_map.mp hf
    exact hk t ht
  have hmap : l.map String.toList = m.map String.toList := by
    rw [← hsplit hl hlne, h, hsplit hm hmne]
  exact List.map_injective_iff.mpr (fun _ _ => String.toList_injective) hmap

/-- A field more is the field, the separator and the rest. -/
theorem toList_intercalate_cons {s f : String} (hs : s.toList = [sep]) (hl : l ≠ []) :
    (s.intercalate (f :: l)).toList = f.toList ++ sep :: (s.intercalate l).toList := by
  rw [String.intercalate_cons_of_ne_nil hl, String.toList_append, String.toList_append, hs, List.append_assoc,
    List.singleton_append]

/-- A text holds the separators between its fields and those inside them. -/
theorem count_intercalate {s : String} (hs : s.toList = [sep]) (hl : l ≠ []) :
    (s.intercalate l).toList.count sep + 1 = l.length + (l.map fun f => f.toList.count sep).sum := by
  induction l with
  | nil => exact absurd rfl hl
  | cons f l ih =>
    rcases eq_or_ne l [] with hnil | hne
    · rw [hnil, String.intercalate_singleton]
      simp [Nat.add_comm]
    · rw [toList_intercalate_cons hs hne, List.count_append, List.count_cons_self, List.length_cons, List.map_cons,
        List.sum_cons]
      have hrest := ih hne
      omega

theorem free_iff_sum : Free sep l ↔ (l.map fun f => f.toList.count sep).sum = 0 := by
  rw [List.sum_eq_zero_iff_forall_eq_nat]
  simp [Free, List.count_eq_zero]

/-- It is enough that the fields of one side are free of the separator where there are as many of
    them on the other. -/
theorem intercalate_inj_of_length {s : String} (hs : s.toList = [sep]) (hl : Free sep l)
    (hlen : l.length = m.length) (h : s.intercalate l = s.intercalate m) : l = m := by
  rcases eq_or_ne l [] with hnil | hlne
  · rw [hnil] at hlen ⊢
    exact (List.length_eq_zero_iff.mp hlen.symm).symm
  have hmne : m ≠ [] := List.ne_nil_of_length_pos (hlen ▸ List.length_pos_of_ne_nil hlne)
  have hcount := count_intercalate hs hlne
  rw [free_iff_sum.mp hl, h, count_intercalate hs hmne, hlen] at hcount
  have hm : Free sep m := free_iff_sum.mpr (by omega)
  exact intercalate_inj hs hl hm hlne hmne h

/-- A text is cut in one way at its first separator. -/
theorem cut_inj {α : Type*} {a : α} {x x' y y' : List α} (hx : a ∉ x) (hx' : a ∉ x')
    (h : x ++ a :: y = x' ++ a :: y') : x = x' ∧ y = y' := by
  rcases List.append_eq_append_iff.mp h with ⟨rest, hrest, hy⟩ | ⟨rest, hrest, hy⟩
  all_goals
    cases rest with
    | nil => simp_all
    | cons b rest => simp_all

/-- Of two characters one comes first. -/
theorem cut_ne {α : Type*} {a b : α} {x x' y y' : List α} (hx : b ∉ x) (hx' : a ∉ x') (hne : a ≠ b) :
    x ++ a :: y ≠ x' ++ b :: y' := by
  intro h
  rcases List.append_eq_append_iff.mp h with ⟨rest, hrest, hy⟩ | ⟨rest, hrest, hy⟩
  all_goals
    cases rest with
    | nil => simp_all
    | cons c rest => simp_all

/-- Leading fields that are free of the separator are read off whatever follows them. -/
theorem intercalate_append_inj {s : String} (hs : s.toList = [sep]) {l' m' : List String} (hl : Free sep l)
    (hl' : Free sep l') (hlen : l.length = l'.length) (hm : m ≠ []) (hm' : m' ≠ [])
    (h : s.intercalate (l ++ m) = s.intercalate (l' ++ m')) :
    l = l' ∧ s.intercalate m = s.intercalate m' := by
  induction l generalizing l' with
  | nil =>
    have hnil : l' = [] := List.length_eq_zero_iff.mp hlen.symm
    rw [hnil] at h ⊢
    exact ⟨rfl, h⟩
  | cons a l ih =>
    cases l' with
    | nil => cases hlen
    | cons b l' =>
      obtain ⟨ha, hl⟩ := free_cons.mp hl
      obtain ⟨hb, hl'⟩ := free_cons.mp hl'
      have hchars := congrArg String.toList h
      rw [List.cons_append, List.cons_append, toList_intercalate_cons hs (List.append_ne_nil_of_right_ne_nil l hm),
        toList_intercalate_cons hs (List.append_ne_nil_of_right_ne_nil l' hm')] at hchars
      obtain ⟨hab, hrest⟩ := cut_inj ha hb hchars
      obtain ⟨htail, hjoin⟩ := ih hl hl' (Nat.succ.inj hlen) (String.toList_inj.mp hrest)
      exact ⟨by rw [String.toList_inj.mp hab, htail], hjoin⟩

theorem separator_notMem_repr (hsep : sep.isDigit = false) (n : ℕ) : sep ∉ n.repr.toList := by
  intro h
  rw [Nat.toList_repr] at h
  rw [Nat.isDigit_of_mem_toDigits (by decide) (Nat.le_refl 10) h] at hsep
  cases hsep

theorem repr_injective : Function.Injective Nat.repr := by
  intro n m h
  have hdigits := congrArg String.toList h
  rw [Nat.toList_repr, Nat.toList_repr] at hdigits
  rw [← Nat.ofDigitChars_ten_toDigits (n := n), hdigits, Nat.ofDigitChars_ten_toDigits]

/-! ### Words run together -/

/-- Words none of which another begins with are told apart without a separator. -/
theorem flatten_inj {α : Type*} {words : List (List α)} (hne : [] ∉ words)
    (hfree : ∀ a ∈ words, ∀ b ∈ words, a <+: b → a = b) {l m : List (List α)} (hl : l ⊆ words) (hm : m ⊆ words)
    (h : l.flatten = m.flatten) : l = m := by
  induction l generalizing m with
  | nil =>
    cases m with
    | nil => rfl
    | cons b m =>
      have hb : b = [] := (List.append_eq_nil_iff.mp h.symm).1
      exact absurd (hb ▸ hm List.mem_cons_self) hne
  | cons a l ih =>
    obtain ⟨ha, hl⟩ := List.cons_subset.mp hl
    cases m with
    | nil =>
      have hnil : a = [] := (List.append_eq_nil_iff.mp h).1
      exact absurd (hnil ▸ ha) hne
    | cons b m =>
      obtain ⟨hb, hm⟩ := List.cons_subset.mp hm
      have happend : a ++ l.flatten = b ++ m.flatten := h
      have hwords : a <+: b ∨ b <+: a :=
        List.prefix_or_prefix_of_prefix (List.prefix_append a l.flatten) (happend ▸ List.prefix_append b m.flatten)
      have hab : a = b := hwords.elim (hfree a ha b hb) fun hba => (hfree b hb a ha hba).symm
      rw [hab] at happend ⊢
      have hrest : l.flatten = m.flatten := List.append_cancel_left happend
      rw [ih hl hm hrest]

end JoinedFields
