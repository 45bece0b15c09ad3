import Mathlib.Data.List.Induction
import Mathlib.Algebra.Order.Group.Int
import Mathlib.Order.Basic

/-! # Keyset pages

    `WHERE key > since ORDER BY key ASC LIMIT limit`, over rows held in key order. A page is
    exactly the rows between where it was asked from and the last key it `reached`, and a page
    that came back short reached every row there was. -/

namespace Page

variable {α κ : Type*} (key : α → κ)

/-- The rows above `since`, at most `limit` of them, lowest keys first. -/
def fetch [LinearOrder κ] (rows : List α) (since : κ) (limit : ℕ) : List α :=
  (rows.filter fun x => decide (since < key x)).take limit

/-- The last key of a page, or where an empty page was asked from. -/
def reached (since : κ) (page : List α) : κ :=
  (page.getLast?.map key).getD since

variable {key} {rows page : List α} {since : κ} {limit : ℕ} {x : α}

@[simp] theorem reached_nil : reached key since [] = since := rfl

theorem reached_concat : reached key since (page ++ [x]) = key x := by
  simp [reached]

theorem reached_append (page rest : List α) :
    reached key since (page ++ rest) = reached key (reached key since page) rest := by
  unfold reached
  rw [List.getLast?_append]
  cases rest.getLast? <;> rfl

theorem reached_mem (key : α → κ) (since : κ) (hp : page ≠ []) : ∃ x ∈ page, key x = reached key since page := by
  induction page using List.reverseRecOn with
  | nil => exact absurd rfl hp
  | append_singleton ys y _ => exact ⟨y, by simp, reached_concat.symm⟩

variable [LinearOrder κ]

theorem mem_of_mem_fetch (hx : x ∈ fetch key rows since limit) : x ∈ rows ∧ since < key x := by
  simpa using List.mem_filter.mp (List.mem_of_mem_take hx)

theorem fetch_pairwise (hs : rows.Pairwise (key · < key ·)) :
    (fetch key rows since limit).Pairwise (key · < key ·) :=
  (hs.filter _).sublist (List.take_sublist _ _)

/-- In an ascending page every key is at most the one it reached. -/
theorem le_reached (hs : page.Pairwise (key · < key ·)) (hx : x ∈ page) :
    key x ≤ reached key since page := by
  induction page using List.reverseRecOn with
  | nil => simp at hx
  | append_singleton ys y _ =>
    rw [reached_concat]
    rcases List.mem_append.mp hx with hx | hx
    · exact (List.pairwise_append.mp hs).2.2 x hx y (by simp) |>.le
    · simp only [List.mem_singleton] at hx
      exact hx ▸ le_rfl

/-- A table in key order has one row for a key. -/
theorem eq_of_key_eq (hs : rows.Pairwise (key · < key ·)) {y : α} (hx : x ∈ rows) (hy : y ∈ rows)
    (hk : key x = key y) : x = y := by
  induction rows with
  | nil => simp at hx
  | cons a rows ih =>
    obtain ⟨ha, hs⟩ := List.pairwise_cons.mp hs
    rcases List.mem_cons.mp hx with rfl | hx' <;> rcases List.mem_cons.mp hy with rfl | hy'
    · rfl
    · exact absurd hk (ha y hy').ne
    · exact absurd hk (ha x hx').ne'
    · exact ih hs hx' hy'

/-- The rows up to a key are the first rows of a table in key order. -/
theorem filter_le_prefix (hs : rows.Pairwise (key · < key ·)) {k : κ} :
    rows.filter (fun x => decide (key x ≤ k)) <+: rows := by
  induction rows with
  | nil => exact List.prefix_rfl
  | cons x rows ih =>
    obtain ⟨hx, hs⟩ := List.pairwise_cons.mp hs
    by_cases hk : key x ≤ k
    · rw [List.filter_cons_of_pos (by simpa using hk)]
      exact List.cons_prefix_cons.mpr ⟨rfl, ih hs⟩
    · have hnone : (x :: rows).filter (fun x => decide (key x ≤ k)) = [] := by
        rw [List.filter_eq_nil_iff]
        intro y hy
        rw [decide_eq_true_eq]
        rcases List.mem_cons.mp hy with rfl | hy
        · exact hk
        · exact fun hle => hk ((hx y hy).le.trans hle)
      rw [hnone]
      exact List.nil_prefix

theorem since_le_reached : since ≤ reached key since (fetch key rows since limit) := by
  by_cases hp : fetch key rows since limit = []
  · rw [hp, reached_nil]
  · obtain ⟨x, hx, hk⟩ := reached_mem key since hp
    rw [← hk]
    exact (mem_of_mem_fetch hx).2.le

theorem since_lt_reached (hp : fetch key rows since limit ≠ []) :
    since < reached key since (fetch key rows since limit) := by
  obtain ⟨x, hx, hk⟩ := reached_mem key since hp
  rw [← hk]
  exact (mem_of_mem_fetch hx).2

/-- A page holds exactly the rows between its two ends. -/
theorem mem_fetch (hs : rows.Pairwise (key · < key ·)) :
    x ∈ fetch key rows since limit ↔
      x ∈ rows ∧ since < key x ∧ key x ≤ reached key since (fetch key rows since limit) := by
  constructor
  · intro hx
    exact ⟨(mem_of_mem_fetch hx).1, (mem_of_mem_fetch hx).2, le_reached (fetch_pairwise hs) hx⟩
  · rintro ⟨hx, hlo, hhi⟩
    have hall : x ∈ rows.filter fun x => decide (since < key x) := by simp [hx, hlo]
    rw [← List.take_append_drop limit (rows.filter _)] at hall
    rcases List.mem_append.mp hall with h | h
    · exact h
    -- a row left out lies above every row of the page, so above what it reached
    have hsep := List.pairwise_append.mp
      ((List.take_append_drop limit (rows.filter _)).symm ▸ hs.filter fun x => decide (since < key x))
    by_cases hp : fetch key rows since limit = []
    · rw [hp, reached_nil] at hhi
      exact absurd hlo hhi.not_gt
    · obtain ⟨y, hy, hk⟩ := reached_mem key since hp
      rw [← hk] at hhi
      exact absurd (hsep.2.2 y hy x h) hhi.not_gt

/-- A page shorter than its limit left no row out. -/
theorem mem_fetch_of_short (hl : (fetch key rows since limit).length < limit) :
    x ∈ fetch key rows since limit ↔ x ∈ rows ∧ since < key x := by
  have hall : fetch key rows since limit = rows.filter fun x => decide (since < key x) := by
    apply List.take_of_length_le
    rw [fetch, List.length_take] at hl
    omega
  rw [hall]
  simp

/-- A row a page left out lies above a page that came back full. -/
theorem mem_fetch_or_above (hs : rows.Pairwise (key · < key ·)) (hx : x ∈ rows) (hk : since < key x) :
    x ∈ fetch key rows since limit ∨
      limit ≤ (fetch key rows since limit).length ∧ ∀ y ∈ fetch key rows since limit, key y < key x := by
  by_cases hl : (fetch key rows since limit).length < limit
  · exact .inl ((mem_fetch_of_short hl).mpr ⟨hx, hk⟩)
  · by_cases hle : key x ≤ reached key since (fetch key rows since limit)
    · exact .inl ((mem_fetch hs).mpr ⟨hx, hk, hle⟩)
    · refine .inr ⟨Nat.le_of_not_lt hl, fun y hy => ?_⟩
      exact (le_reached (fetch_pairwise hs) hy).trans_lt (not_le.mp hle)

/-- A walk that has read exactly the rows up to where it stands still does after its next page. -/
theorem mem_append_fetch (hs : rows.Pairwise (key · < key ·)) {read : List α} {start : κ}
    (hread : ∀ x, x ∈ read ↔ x ∈ rows ∧ key x ≤ reached key start read) :
    ∀ x, x ∈ read ++ fetch key rows (reached key start read) limit ↔
      x ∈ rows ∧ key x ≤ reached key start (read ++ fetch key rows (reached key start read) limit) := by
  intro x
  rw [List.mem_append, hread, mem_fetch hs, reached_append]
  have hle : reached key start read ≤
      reached key (reached key start read) (fetch key rows (reached key start read) limit) :=
    since_le_reached
  constructor
  · rintro (⟨hx, hk⟩ | ⟨hx, -, hk⟩)
    · exact ⟨hx, hk.trans hle⟩
    · exact ⟨hx, hk⟩
  · rintro ⟨hx, hk⟩
    by_cases hlow : key x ≤ reached key start read
    · exact .inl ⟨hx, hlow⟩
    · exact .inr ⟨hx, not_le.mp hlow, hk⟩

/-- A walk that ends with a short page has read every row. -/
theorem mem_append_fetch_of_short {read : List α} {start : κ}
    (hread : ∀ x, x ∈ read ↔ x ∈ rows ∧ key x ≤ reached key start read)
    (hl : (fetch key rows (reached key start read) limit).length < limit) :
    ∀ x, x ∈ read ++ fetch key rows (reached key start read) limit ↔ x ∈ rows := by
  intro x
  rw [List.mem_append, hread, mem_fetch_of_short hl]
  constructor
  · rintro (⟨hx, -⟩ | ⟨hx, -⟩) <;> exact hx
  · intro hx
    by_cases hlow : key x ≤ reached key start read
    · exact .inl ⟨hx, hlow⟩
    · exact .inr ⟨hx, not_le.mp hlow⟩

theorem fetch_ne_nil (hl : 0 < limit) (hx : x ∈ rows) (hk : since < key x) :
    fetch key rows since limit ≠ [] := by
  intro h
  by_cases hlen : (fetch key rows since limit).length < limit
  · have := (mem_fetch_of_short hlen).mpr ⟨hx, hk⟩
    simp [h] at this
  · simp [h] at hlen
    omega

/-- An ascending page of integer keys spans at least its own length. -/
theorem length_le_reached {key : α → ℤ} {since : ℤ} {page : List α}
    (hs : page.Pairwise (key · < key ·)) (hlo : ∀ x ∈ page, since < key x) :
    (page.length : ℤ) ≤ reached key since page - since := by
  induction page using List.reverseRecOn with
  | nil => simp
  | append_singleton ys y ih =>
    obtain ⟨hys, -, hy⟩ := List.pairwise_append.mp hs
    have hlen := ih hys fun x hx => hlo x (List.mem_append_left _ hx)
    rw [reached_concat, List.length_append, List.length_singleton]
    by_cases hnil : ys = []
    · have := hlo y (by simp)
      simp only [hnil, List.length_nil]
      omega
    · obtain ⟨x, hx, hk⟩ := reached_mem key since hnil
      have := hy x hx y (by simp)
      push_cast
      omega

end Page
