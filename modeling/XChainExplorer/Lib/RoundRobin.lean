import Mathlib.Data.List.Rotate
import Mathlib.Order.Lattice

/-! # Taking turns

    The members of an ascending list take turns, a few at a time, and only the last one served is
    remembered. The next round goes on above it and wraps around. Members may leave between two rounds.
    Beside it a walk along a list that ends at the first member with a mark. -/

namespace RoundRobin

variable {α : Type*} [LinearOrder α]

/-- Whose turn it is after `c`: the members above it, then the others. -/
def after (c : α) (l : List α) : List α :=
  l.filter (c < ·) ++ l.filter (· ≤ c)

variable {c : α} {l left right : List α}

theorem after_append (hleft : ∀ x ∈ left, x ≤ c) (hright : ∀ x ∈ right, c < x) :
    after c (left ++ right) = right ++ left := by
  have hl : left.filter (c < ·) = [] :=
    List.filter_eq_nil_iff.mpr fun x hx => by simpa using hleft x hx
  have hr : right.filter (· ≤ c) = [] :=
    List.filter_eq_nil_iff.mpr fun x hx => by simpa using hright x hx
  have hl' : left.filter (· ≤ c) = left := List.filter_eq_self.mpr fun x hx => by simpa using hleft x hx
  have hr' : right.filter (c < ·) = right := List.filter_eq_self.mpr fun x hx => by simpa using hright x hx
  unfold after
  rw [List.filter_append, List.filter_append, hl, hr, hl', hr', List.nil_append, List.append_nil]

theorem after_filter (p : α → Bool) : after c (l.filter p) = (after c l).filter p := by
  simp only [after, List.filter_append, List.filter_filter, Bool.and_comm]

/-- An ascending list falls into what is not above `c` and what is. -/
theorem split_at (hl : l.Pairwise (· < ·)) (c : α) :
    ∃ left right, l = left ++ right ∧ (∀ x ∈ left, x ≤ c) ∧ ∀ x ∈ right, c < x := by
  induction l with
  | nil => exact ⟨[], [], rfl, by simp, by simp⟩
  | cons a rest ih =>
    obtain ⟨ha, hrest⟩ := List.pairwise_cons.mp hl
    rcases lt_or_ge c a with hca | hca
    · refine ⟨[], a :: rest, rfl, by simp, fun x hx => ?_⟩
      rcases List.mem_cons.mp hx with rfl | hx
      · exact hca
      · exact hca.trans (ha x hx)
    · obtain ⟨left, right, rfl, hleft, hright⟩ := ih hrest
      refine ⟨a :: left, right, rfl, fun x hx => ?_, hright⟩
      rcases List.mem_cons.mp hx with rfl | hx
      · exact hca
      · exact hleft x hx

/-- Starting over at the first member above `c`, or at the first of all, is going on after `c`. -/
theorem rotate_findIdx (hl : l.Pairwise (· < ·)) (c : α) :
    l.rotate ((l.findIdx? (c < ·)).getD 0) = after c l := by
  obtain ⟨left, right, rfl, hleft, hright⟩ := split_at hl c
  have hnone : left.findIdx? (c < ·) = none :=
    List.findIdx?_eq_none_iff.mpr fun x hx => by simpa using hleft x hx
  rw [after_append hleft hright, List.findIdx?_append, hnone]
  cases right with
  | nil => simp
  | cons a rest =>
    have ha : c < a := hright a List.mem_cons_self
    simp [List.findIdx?_cons, ha, List.rotate_append_length_eq]

theorem le_last (hl : l.Pairwise (· < ·)) (hlast : l.getLast? = some c) {x : α} (hx : x ∈ l) : x ≤ c := by
  obtain ⟨first, rfl⟩ := List.getLast?_eq_some_iff.mp hlast
  rcases List.mem_append.mp hx with hx | hx
  · exact ((List.pairwise_append.mp hl).2.2 x hx c List.mem_cons_self).le
  · exact (List.mem_singleton.mp hx).le

omit [LinearOrder α] in
theorem findIdx?_congr {p q : α → Bool} (h : ∀ x ∈ l, p x = q x) : l.findIdx? p = l.findIdx? q := by
  induction l with
  | nil => rfl
  | cons a l ih =>
    rw [List.findIdx?_cons, List.findIdx?_cons, h a List.mem_cons_self, ih fun x hx => h x (List.mem_cons_of_mem _ hx)]

/-- A round that served `served` and stopped at `c` is followed by the rest and then by `served`. -/
theorem after_served {served rest : List α} (hl : l.Pairwise (· < ·)) (hrot : l ~r served ++ rest)
    (hlast : served.getLast? = some c) : after c l = rest ++ served := by
  obtain ⟨n, hn⟩ := hrot
  rw [List.rotate_eq_drop_append_take_mod] at hn
  generalize n % l.length = m at hn
  rw [← List.take_append_drop m l] at hl ⊢
  generalize l.take m = top at hl hn ⊢
  generalize l.drop m = bottom at hl hn ⊢
  obtain ⟨htop, hbottom, hacross⟩ := List.pairwise_append.mp hl
  rcases List.append_eq_append_iff.mp hn with ⟨tail, rfl, rfl⟩ | ⟨tail, rfl, rfl⟩
  · -- the round served all of `bottom`, and then some of `top` or none
    rcases tail.eq_nil_or_concat with rfl | ⟨init, last, rfl⟩
    · rw [List.append_nil] at hlast ⊢
      have hle : ∀ x ∈ rest ++ bottom, x ≤ c := by
        rintro x hx
        have hc : c ∈ bottom := List.mem_of_getLast? hlast
        rcases List.mem_append.mp hx with hx | hx
        · exact (hacross x hx c hc).le
        · exact le_last hbottom hlast hx
      have hafter : after c ((rest ++ bottom) ++ []) = [] ++ (rest ++ bottom) := after_append hle (by simp)
      simpa using hafter
    · obtain rfl : last = c := by simpa [← List.append_assoc] using hlast
      obtain ⟨htail, -, hrest⟩ := List.pairwise_append.mp htop
      rw [List.append_assoc, after_append (fun x hx => le_last htail (by simp) hx), List.append_assoc]
      intro x hx
      rcases List.mem_append.mp hx with hx | hx
      · exact hrest last (by simp) x hx
      · exact hacross last (by simp) x hx
  · -- the round stayed within `bottom`
    obtain ⟨hserved, -, htail⟩ := List.pairwise_append.mp hbottom
    have hc : c ∈ served := List.mem_of_getLast? hlast
    rw [← List.append_assoc, after_append _ (htail c hc), List.append_assoc]
    intro x hx
    rcases List.mem_append.mp hx with hx | hx
    · exact (hacross x hx c (List.mem_append_left _ hc)).le
    · exact le_last hserved hlast hx

omit [LinearOrder α] in
/-- A round serves the first `w`. Nobody beyond the first `k` was waiting, nobody served waits any
    more, and nobody leaves unserved: then nobody beyond the first `k - w` waits for the next. -/
theorem waiting_drop {order : List α} {waiting waiting' : α → Prop} {keep : α → Bool} {k w : ℕ}
    (hwaiting : ∀ x ∈ order.drop k, ¬ waiting x) (hserved : ∀ x, waiting' x → waiting x ∧ x ∉ order.take w)
    (hkeep : ∀ x ∈ order.drop w, keep x) :
    ∀ x ∈ ((order.drop w ++ order.take w).filter keep).drop (k - w), ¬ waiting' x := by
  intro x hx hx'
  obtain ⟨hbefore, hnot⟩ := hserved x hx'
  rw [List.filter_append, List.filter_eq_self.mpr hkeep, List.drop_append, List.mem_append] at hx
  rcases hx with hx | hx
  · rw [List.drop_drop] at hx
    exact hwaiting x (List.drop_subset_drop_left _ (by omega) hx) hbefore
  · exact hnot (List.mem_filter.mp (List.drop_subset _ _ hx)).1

/-! ### Up to the first mark -/

section walk

variable {β : Type*} (p : β → Bool) {r : β → β → Prop} {items : List β} {x : β}

/-- The members in front of the first marked one, and that one. -/
def walked (items : List β) : List β := items.takeWhile (!p ·) ++ (items.dropWhile (!p ·)).take 1

/-- The members behind the first marked one. -/
def beyond (items : List β) : List β := (items.dropWhile (!p ·)).tail

theorem walked_append_beyond (items : List β) : walked p items ++ beyond p items = items := by
  rw [walked, beyond, List.append_assoc, ← List.drop_one, List.take_append_drop, List.takeWhile_append_dropWhile]

theorem notMem_beyond (hnd : items.Nodup) (hx : x ∈ walked p items) : x ∉ beyond p items := by
  rw [← walked_append_beyond p items] at hnd
  exact fun hb => (List.nodup_append.mp hnd).2.2 x hx x hb rfl

theorem mem_beyond [Std.Asymm r] (hr : items.Pairwise r) : x ∈ beyond p items ↔ x ∈ items ∧ ∃ b ∈ items, p b ∧ r b x := by
  induction items with
  | nil => simp [beyond]
  | cons a rest ih =>
    obtain ⟨ha, hrest⟩ := List.pairwise_cons.mp hr
    have hfirst : ∀ b ∈ a :: rest, ¬ r b a := by
      intro b hb hba
      rcases List.mem_cons.mp hb with rfl | hb
      · exact Std.Asymm.asymm _ _ hba hba
      · exact Std.Asymm.asymm _ _ hba (ha b hb)
    by_cases hp : p a
    · have hbeyond : beyond p (a :: rest) = rest := by simp [beyond, hp]
      rw [hbeyond]
      constructor
      · exact fun hx => ⟨List.mem_cons_of_mem _ hx, a, List.mem_cons_self, hp, ha x hx⟩
      · rintro ⟨hx, b, hb, -, hbx⟩
        rcases List.mem_cons.mp hx with rfl | hx
        · exact absurd hbx (hfirst b hb)
        · exact hx
    · have hbeyond : beyond p (a :: rest) = beyond p rest := by simp [beyond, hp]
      rw [hbeyond, ih hrest]
      constructor
      · rintro ⟨hx, b, hb, hpb, hbx⟩
        exact ⟨List.mem_cons_of_mem _ hx, b, List.mem_cons_of_mem _ hb, hpb, hbx⟩
      · rintro ⟨hx, b, hb, hpb, hbx⟩
        have hx' : x ∈ rest := by
          rcases List.mem_cons.mp hx with rfl | hx
          · exact absurd hbx (hfirst b hb)
          · exact hx
        rcases List.mem_cons.mp hb with rfl | hb
        · exact absurd hpb hp
        · exact ⟨hx', b, hb, hpb, hbx⟩

/-- The members between the first marked one and the last. -/
def between (items : List β) : List β := (beyond p (beyond p items).reverse).reverse

theorem between_sublist (items : List β) : (between p items).Sublist items := by
  have hsub : ∀ l : List β, (beyond p l).Sublist l := fun l =>
    (List.tail_sublist _).trans (List.dropWhile_sublist _)
  have hrev := (hsub (beyond p items).reverse).reverse
  rw [List.reverse_reverse] at hrev
  exact hrev.trans (hsub items)

theorem mem_between [Std.Asymm r] [IsTrans β r] (hr : items.Pairwise r) :
    x ∈ between p items ↔ x ∈ items ∧ (∃ b ∈ items, p b ∧ r b x) ∧ ∃ b ∈ items, p b ∧ r x b := by
  have hbeyond : (beyond p items).Pairwise r :=
    hr.sublist ((List.tail_sublist _).trans (List.dropWhile_sublist _))
  have hswap : (beyond p items).reverse.Pairwise (Function.swap r) := List.pairwise_reverse.mpr hbeyond
  have hasymm : Std.Asymm (Function.swap r) := ⟨fun a b hab hba => Std.Asymm.asymm (r := r) _ _ hab hba⟩
  rw [between, List.mem_reverse, mem_beyond p hswap, List.mem_reverse, mem_beyond p hr]
  constructor
  · rintro ⟨⟨hx, hbelow⟩, b, hb, hpb, hxb⟩
    exact ⟨hx, hbelow, b, ((mem_beyond p hr).mp (List.mem_reverse.mp hb)).1, hpb, hxb⟩
  · rintro ⟨hx, ⟨a, ha, hpa, hax⟩, b, hb, hpb, hxb⟩
    refine ⟨⟨hx, a, ha, hpa, hax⟩, b, List.mem_reverse.mpr ((mem_beyond p hr).mpr ⟨hb, a, ha, hpa, ?_⟩), hpb, hxb⟩
    exact IsTrans.trans _ _ _ hax hxb

/-- Two walks, one from each end, leave just the members between. -/
theorem mem_walked_or_between (hx : x ∈ items) :
    x ∈ walked p items ∨ x ∈ walked p (beyond p items).reverse ∨ x ∈ between p items := by
  rw [← walked_append_beyond p items, List.mem_append] at hx
  rcases hx with hx | hx
  · exact Or.inl hx
  rw [← List.mem_reverse, ← walked_append_beyond p (beyond p items).reverse, List.mem_append] at hx
  rcases hx with hx | hx
  · exact Or.inr (Or.inl hx)
  · exact Or.inr (Or.inr (List.mem_reverse.mpr hx))

theorem between_subset_beyond (items : List β) : between p items ⊆ beyond p items := by
  intro x hx
  rw [← List.mem_reverse, ← walked_append_beyond p (beyond p items).reverse]
  exact List.mem_append_right _ (List.mem_reverse.mp hx)

theorem notMem_between (hnd : items.Nodup) (hx : x ∈ walked p items ∨ x ∈ walked p (beyond p items).reverse) :
    x ∉ between p items := by
  rcases hx with hx | hx
  · exact fun hb => notMem_beyond p hnd hx (between_subset_beyond p items hb)
  · have hnd' : (beyond p items).reverse.Nodup := by
      rw [← walked_append_beyond p items] at hnd
      exact List.nodup_reverse.mpr (List.nodup_append.mp hnd).2.1
    exact fun hb => notMem_beyond p hnd' hx (List.mem_reverse.mp hb)

/-- A member between two marked ones leaves these two out. -/
theorem length_between_le (items : List β) : (between p items).length + 2 ≤ items.length ∨ between p items = [] := by
  have hlen : ∀ l : List β, (beyond p l).length + 1 ≤ l.length ∨ beyond p l = [] := by
    intro l
    rcases hl : l.dropWhile (!p ·) with _ | ⟨a, rest⟩
    · exact Or.inr (by rw [beyond, hl, List.tail_nil])
    · refine Or.inl ?_
      have := (List.dropWhile_sublist (!p ·) (l := l)).length_le
      rw [hl, List.length_cons] at this
      rwa [beyond, hl, List.tail_cons]
  rcases hlen (beyond p items).reverse with hsecond | hsecond
  · rcases hlen items with hfirst | hfirst
    · rw [List.length_reverse] at hsecond
      rw [between, List.length_reverse]
      exact Or.inl (by omega)
    · rw [hfirst] at hsecond
      simp at hsecond
  · exact Or.inr (by rw [between, hsecond, List.reverse_nil])

end walk

end RoundRobin
