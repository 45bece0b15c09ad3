import XChainExplorer.Lib.Grouping
import Mathlib.Data.List.Sort

/-! # Rows in the order of a key

    `ORDER BY key` over rows of which several may have one key: rows of one key keep the order in which
    they were read. -/

namespace OrderBy

variable {ρ κ : Type*} (r : κ → κ → Prop) [DecidableRel r] (key : ρ → κ)

def orderBy (rows : List ρ) : List ρ := rows.insertionSort fun a b => r (key a) (key b)

theorem map_orderBy {σ : Type*} {key' : σ → κ} {f : ρ → σ} (h : ∀ x, key' (f x) = key x) (rows : List ρ) :
    (orderBy r key rows).map f = orderBy r key' (rows.map f) :=
  List.map_insertionSort _ _ f rows fun a _ b _ => by rw [h, h]

variable {r key} {rows rows' : List ρ} {keys : List κ}

theorem orderBy_perm (rows : List ρ) : (orderBy r key rows).Perm rows := List.perm_insertionSort _ _

theorem mem_orderBy {x : ρ} : x ∈ orderBy r key rows ↔ x ∈ rows := List.mem_insertionSort _

theorem orderBy_pairwise [Std.Total r] [IsTrans κ r] (rows : List ρ) :
    (orderBy r key rows).Pairwise fun a b => r (key a) (key b) := by
  have htotal : Std.Total fun a b : ρ => r (key a) (key b) := ⟨fun a b => Std.Total.total (key a) (key b)⟩
  have htrans : IsTrans ρ fun a b => r (key a) (key b) := ⟨fun _ _ _ => IsTrans.trans _ _ _⟩
  exact List.pairwise_insertionSort _ _

/-- Rows of one key keep their order. -/
theorem filter_orderBy [Std.Refl r] [DecidableEq κ] (rows : List ρ) (k : κ) :
    (orderBy r key rows).filter (key · = k) = rows.filter (key · = k) := by
  have hinsert : ∀ (x : ρ) (l : List ρ), (l.orderedInsert (fun a b => r (key a) (key b)) x).filter (key · = k) =
      (x :: l).filter (key · = k) := by
    intro x l
    induction l with
    | nil => rfl
    | cons a l ih =>
      rw [List.orderedInsert]
      split
      · rfl
      · rename_i hxa
        rw [List.filter_cons, ih]
        by_cases hx : key x = k
        · -- a row of the same key is not passed
          have ha : key a ≠ k := fun ha => hxa (by rw [hx, ha]; exact Std.Refl.refl _)
          simp [ha, hx]
        · by_cases ha : key a = k <;> simp [ha, hx]
  induction rows with
  | nil => rfl
  | cons x rows ih =>
    rw [orderBy, List.insertionSort_cons, hinsert, List.filter_cons, List.filter_cons]
    change (if _ then x :: (orderBy r key rows).filter _ else (orderBy r key rows).filter _) = _
    rw [ih]

omit [DecidableRel r] in
/-- Rows in order are determined by the rows of each key. -/
theorem eq_of_filter [Std.Refl r] [Std.Antisymm r] [DecidableEq κ]
    (h : rows.Pairwise fun a b => r (key a) (key b)) (h' : rows'.Pairwise fun a b => r (key a) (key b))
    (heq : ∀ k, rows.filter (key · = k) = rows'.filter (key · = k)) : rows = rows' := by
  have hmem : ∀ x, x ∈ rows ↔ x ∈ rows' := by
    intro x
    have := congrArg (x ∈ ·) (heq (key x))
    simpa using this
  induction rows generalizing rows' with
  | nil => exact (List.eq_nil_iff_forall_not_mem.mpr fun x hx => by simpa using (hmem x).mpr hx).symm
  | cons a rows ih =>
    cases rows' with
    | nil => simpa using (hmem a).mp List.mem_cons_self
    | cons b rows' =>
      obtain ⟨ha, hrows⟩ := List.pairwise_cons.mp h
      obtain ⟨hb, hrows'⟩ := List.pairwise_cons.mp h'
      have hfirst : ∀ x ∈ a :: rows, r (key a) (key x) := by
        intro x hx
        rcases List.mem_cons.mp hx with rfl | hx
        · exact Std.Refl.refl _
        · exact ha x hx
      have hfirst' : ∀ x ∈ b :: rows', r (key b) (key x) := by
        intro x hx
        rcases List.mem_cons.mp hx with rfl | hx
        · exact Std.Refl.refl _
        · exact hb x hx
      have hkey : key a = key b := Std.Antisymm.antisymm _ _
        (hfirst b ((hmem b).mpr List.mem_cons_self)) (hfirst' a ((hmem a).mp List.mem_cons_self))
      have hhead := heq (key a)
      rw [List.filter_cons_of_pos (by simp), List.filter_cons_of_pos (by simp [hkey]), List.cons.injEq] at hhead
      obtain ⟨rfl, -⟩ := hhead
      have htail : ∀ k, rows.filter (key · = k) = rows'.filter (key · = k) := by
        intro k
        have hk := heq k
        by_cases hak : key a = k
        · rw [List.filter_cons_of_pos (by simpa using hak), List.filter_cons_of_pos (by simpa using hak)] at hk
          exact List.tail_eq_of_cons_eq hk
        · rwa [List.filter_cons_of_neg (by simpa using hak), List.filter_cons_of_neg (by simpa using hak)] at hk
      refine congrArg (a :: ·) (ih hrows hrows' htail fun x => ?_)
      have := congrArg (x ∈ ·) (htail (key x))
      simpa using this

/-- Rows in order are the rows of one key after the other. -/
theorem orderBy_eq_flatMap [Std.Total r] [IsTrans κ r] [Std.Antisymm r] [DecidableEq κ] (hkeys : keys.Pairwise r)
    (hnodup : keys.Nodup) (hmem : ∀ x ∈ rows, key x ∈ keys) :
    orderBy r key rows = keys.flatMap fun k => rows.filter (key · = k) := by
  have hrefl : Std.Refl r := ⟨fun k => (Std.Total.total k k).elim id id⟩
  refine eq_of_filter (orderBy_pairwise rows) ?_ fun k => ?_
  · rw [List.pairwise_flatMap]
    refine ⟨fun k _ => ?_, hkeys.imp fun {k k'} hkk x hx y hy => ?_⟩
    · refine List.pairwise_of_forall_mem_list ?_
      intro x hx y hy
      rw [List.mem_filter, decide_eq_true_eq] at hx hy
      rw [hx.2, hy.2]
      exact hrefl.refl _
    · rw [List.mem_filter, decide_eq_true_eq] at hx hy
      rwa [hx.2, hy.2]
  · rw [filter_orderBy]
    -- the rows of `k` stand in its own block and in no other
    have hblock : ∀ keys : List κ, keys.Nodup →
        (keys.flatMap fun k' => rows.filter (key · = k')).filter (key · = k) =
          if k ∈ keys then rows.filter (key · = k) else [] := by
      intro keys hnd
      induction keys with
      | nil => simp
      | cons k' keys ih =>
        obtain ⟨hk', hnd⟩ := List.nodup_cons.mp hnd
        rw [List.flatMap_cons, List.filter_append, ih hnd, List.filter_filter]
        by_cases hkk : k = k'
        · subst hkk
          simp [hk']
        · have hnone : rows.filter (fun x => decide (key x = k) && decide (key x = k')) = [] :=
            List.filter_eq_nil_iff.mpr fun x _ => by
              rw [Bool.and_eq_true, decide_eq_true_eq, decide_eq_true_eq]
              exact fun hx => hkk (hx.1.symm.trans hx.2)
          simp [hnone, hkk]
    rw [hblock keys hnodup]
    split
    · rfl
    · rename_i hk
      exact List.filter_eq_nil_iff.mpr fun x hx => by
        rw [decide_eq_true_eq]
        exact fun heq => hk (heq ▸ hmem x hx)

/-- The distinct rows in order are the distinct ones of the rows in order. -/
theorem orderBy_eraseDups [DecidableEq ρ] [Std.Total r] [IsTrans κ r] [Std.Antisymm r] [DecidableEq κ] (rows : List ρ) :
    orderBy r key rows.eraseDups = (orderBy r key rows).eraseDups := by
  have hrefl : Std.Refl r := ⟨fun k => (Std.Total.total k k).elim id id⟩
  refine eq_of_filter (orderBy_pairwise _) ((orderBy_pairwise rows).sublist (Grouping.eraseDups_sublist _)) fun k => ?_
  rw [filter_orderBy, Grouping.filter_eraseDups, Grouping.filter_eraseDups, filter_orderBy]

/-- The rows that pass a test are in the order they have by themselves. -/
theorem filter_orderBy_of [Std.Total r] [IsTrans κ r] [Std.Antisymm r] [DecidableEq κ] (p : ρ → Bool) (rows : List ρ) :
    (orderBy r key rows).filter p = orderBy r key (rows.filter p) := by
  have hrefl : Std.Refl r := ⟨fun k => (Std.Total.total k k).elim id id⟩
  refine eq_of_filter ((orderBy_pairwise rows).sublist List.filter_sublist) (orderBy_pairwise _) fun k => ?_
  rw [filter_orderBy, List.filter_comm, filter_orderBy, List.filter_comm]

end OrderBy
