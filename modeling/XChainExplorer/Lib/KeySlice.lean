import Mathlib.Data.List.Sort
import Mathlib.Data.List.Count
import Mathlib.Data.List.Perm.Subperm
import Mathlib.Order.Basic

/-! # Pages by their keys

    `ORDER BY key LIMIT … OFFSET …` over rows of which several may have one key: those come in any order, but
    which keys a page holds does not depend on it. Picking the keys first and the rows of these keys after gives
    the page itself exactly where every key picked is that of one row. -/

namespace KeySlice

variable {ρ σ κ : Type*}

/-- The rows in the order of their keys. -/
structure Ordered (r : κ → κ → Prop) (key : ρ → κ) (rows out : List ρ) : Prop where
  perm : out.Perm rows
  pairwise : (out.map key).Pairwise r

def slice {α : Type*} (offset : ℕ) (limit : Option ℕ) (l : List α) : List α :=
  match limit with
  | some n => (l.drop offset).take n
  | none => l.drop offset

variable {r : κ → κ → Prop} {key : ρ → κ} {key' : σ → κ} {rows out dec : List ρ} {rows' out' : List σ} {keys ids : List κ}
  {offset : ℕ} {limit : Option ℕ}

theorem map_slice {α β : Type*} (f : α → β) (l : List α) : (slice offset limit l).map f = slice offset limit (l.map f) := by
  cases limit with
  | none => exact List.map_drop
  | some n => rw [slice, slice, List.map_take, List.map_drop]

theorem slice_sublist {α : Type*} (l : List α) : (slice offset limit l).Sublist l := by
  cases limit with
  | none => exact List.drop_sublist _ _
  | some n => exact (List.take_sublist _ _).trans (List.drop_sublist _ _)

theorem Ordered.keys_eq [Std.Antisymm r] (h : Ordered r key rows out) (h' : Ordered r key' rows' out')
    (hkeys : (rows.map key).Perm (rows'.map key')) : out.map key = out'.map key' :=
  List.Perm.eq_of_pairwise (fun _ _ _ _ => Std.Antisymm.antisymm _ _) h.pairwise h'.pairwise
    (((h.perm.map key).trans hkeys).trans (h'.perm.map key').symm)

theorem eq_of_map_eq (hkeys : out.map key = dec.map key) (hone : ∀ x ∈ out, ∀ y ∈ dec, key x = key y → x = y) :
    out = dec := by
  induction out generalizing dec with
  | nil => exact (List.map_eq_nil_iff.mp hkeys.symm).symm
  | cons x out ih =>
    cases dec with
    | nil => cases hkeys
    | cons y dec =>
      obtain ⟨hxy, hkeys⟩ := List.cons_eq_cons.mp hkeys
      rw [hone x List.mem_cons_self y List.mem_cons_self hxy, ih hkeys fun a ha b hb =>
        hone a (List.mem_cons_of_mem _ ha) b (List.mem_cons_of_mem _ hb)]

variable [DecidableEq κ]

theorem filter_perm_iff (hids : ids.Nodup) : (keys.filter (· ∈ ids)).Perm ids ↔ ∀ k ∈ ids, keys.count k = 1 := by
  rw [List.perm_iff_count]
  refine forall_congr' fun k => ?_
  by_cases hk : k ∈ ids
  · have hcount : (keys.filter (· ∈ ids)).count k = keys.count k := List.count_filter (by simpa using hk)
    rw [hcount, List.count_eq_one_of_mem hids hk]
    exact ⟨fun h _ => h, fun h => h hk⟩
  · have hnot : k ∉ keys.filter (· ∈ ids) := fun h => hk (of_decide_eq_true (List.mem_filter.mp h).2)
    rw [List.count_eq_zero_of_not_mem hk, List.count_eq_zero_of_not_mem hnot]
    exact iff_of_true rfl fun h => absurd h hk

theorem eq_of_count_one {x y : ρ} {l : List ρ} (hx : x ∈ l) (hy : y ∈ l) (hkey : key x = key y)
    (hone : (l.map key).count (key x) = 1) : x = y := by
  induction l with
  | nil => cases hx
  | cons a l ih =>
    rw [List.map_cons, List.count_cons] at hone
    have hzero (z : ρ) (hz : z ∈ l) (hzx : key z = key x) : (l.map key).count (key x) ≠ 0 :=
      (List.count_pos_iff.mpr (List.mem_map.mpr ⟨z, hz, hzx⟩)).ne'
    rcases List.mem_cons.mp hx with rfl | hxl <;> rcases List.mem_cons.mp hy with rfl | hyl
    · rfl
    · rw [if_pos (beq_self_eq_true _)] at hone
      exact absurd (Nat.succ.inj hone) (hzero y hyl hkey.symm)
    · rw [hkey, if_pos (beq_self_eq_true _)] at hone
      exact absurd (Nat.succ.inj (hkey ▸ hone)) (hzero x hxl rfl)
    · refine ih hxl hyl ?_
      have hle : (l.map key).count (key x) ≤ 1 := hone ▸ Nat.le_add_right _ _
      have := hzero x hxl rfl
      omega

/-- The rows of the keys of a page, in order, against the page itself. -/
theorem decorated_iff [Std.Antisymm r] {β : Type*} {all : List ρ} {p : ρ → Bool} (columns : ρ → β)
    (hout : Ordered r key (all.filter p) out) (hids : ids = (slice offset limit out).map key) (hnodup : ids.Nodup)
    (hdec : Ordered r key (all.filter fun x => key x ∈ ids) dec) :
    dec.map columns = (slice offset limit out).map columns ↔ ∀ k ∈ ids, (all.map key).count k = 1 := by
  have hpage : ∀ x ∈ slice offset limit out, x ∈ all := fun x hx =>
    (List.mem_filter.mp (hout.perm.subset ((slice_sublist _).subset hx))).1
  have hkeys : (all.filter fun x => key x ∈ ids).map key = (all.map key).filter (· ∈ ids) := by
    rw [List.filter_map]
    rfl
  have hperm : (dec.map key).Perm ((all.map key).filter (· ∈ ids)) := hkeys ▸ hdec.perm.map key
  rw [← filter_perm_iff hnodup]
  constructor
  · intro heq
    have hlength : dec.length = ids.length := by
      rw [hids, List.length_map, ← List.length_map columns, heq, List.length_map]
    have hsub : ids ⊆ (all.map key).filter (· ∈ ids) := by
      intro k hk
      refine List.mem_filter.mpr ⟨?_, decide_eq_true hk⟩
      rw [hids] at hk
      obtain ⟨x, hx, rfl⟩ := List.mem_map.mp hk
      exact List.mem_map_of_mem (hpage x hx)
    refine ((List.subperm_of_subset hnodup hsub).perm_of_length_le ?_).symm
    rw [← hperm.length_eq, List.length_map, hlength]
  · intro hcount
    have hone := (filter_perm_iff hnodup).mp hcount
    have hsorted : ids.Pairwise r := by
      rw [hids, map_slice]
      exact hout.pairwise.sublist (slice_sublist _)
    have hkeys : dec.map key = (slice offset limit out).map key := by
      rw [← hids]
      exact List.Perm.eq_of_pairwise (fun _ _ _ _ => Std.Antisymm.antisymm _ _) hdec.pairwise hsorted
        (hperm.trans hcount)
    rw [eq_of_map_eq hkeys fun x hx y hy hxy => ?_]
    have hx := List.mem_filter.mp (hdec.perm.subset hx)
    exact eq_of_count_one hx.1 (hpage y hy) hxy (hone _ (of_decide_eq_true hx.2))

end KeySlice
