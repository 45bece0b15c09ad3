import Mathlib.Data.List.DropRight
import Mathlib.Data.List.TakeDrop
import Mathlib.Data.List.Induction
import Mathlib.Order.Lattice

/-! # Pages of whole groups

    Rows in order, read a page at a time by a cursor that names a group of them. One row more than the
    page holds is read to tell whether there are more, and a page that there is more of is trimmed at its
    end to whole groups. A group that is longer than a page cannot be trimmed: the page is kept as it is,
    and the cursor skips the rest of the group. -/

namespace GroupPage

variable {α κ ι : Type*} [LinearOrder κ] [LinearOrder ι] (group : α → κ) (place : α → ι) (limit : ℕ)

/-! ### A page -/

/-- What is kept of the rows that were read. -/
def kept (read : List α) : List α :=
  match read[limit]? with
  | none => read
  | some probe =>
    if (read.take limit).rdropWhile (fun r => group r = group probe) = [] then read.take limit
    else (read.take limit).rdropWhile (fun r => group r = group probe)

/-- Where the next page is asked from, if there is one. -/
def next (read : List α) : Option κ :=
  read[limit]?.bind fun _ => (kept group limit read).getLast?.map group

def beyond (rows : List α) : Option κ → List α
  | none => rows
  | some g => rows.filter fun r => g < group r

/-- The pages from a cursor on. -/
def walk (rows : List α) : ℕ → Option κ → Option (List (List α))
  | 0, _ => none
  | fuel + 1, after =>
    match next group limit ((beyond group rows after).take (limit + 1)) with
    | none => some [kept group limit ((beyond group rows after).take (limit + 1))]
    | some g => (walk rows fuel (some g)).map (kept group limit ((beyond group rows after).take (limit + 1)) :: ·)

/-! ### What the pages hold -/

/-- The rows of its group before a row. -/
def rank (rows : List α) (r : α) : ℕ := rows.countP fun s => group s = group r ∧ place s < place r

/-- Of each group, as many rows as a page holds. -/
def capped (rows : List α) : List α := rows.filter fun r => rank group place rows r < limit

/-- By group, and by place within a group. -/
def Ordered (a b : α) : Prop := group a < group b ∨ group a = group b ∧ place a < place b

variable {group place limit} {rows page rest : List α} {r : α}

theorem Ordered.le {a b : α} (h : Ordered group place a b) : group a ≤ group b := by
  rcases h with h | ⟨h, -⟩
  · exact h.le
  · exact h.le

theorem Ordered.not_before {a b : α} (h : Ordered group place a b) :
    ¬ (group b = group a ∧ place b < place a) := by
  rintro ⟨hgroup, hplace⟩
  rcases h with h | ⟨-, h⟩
  · exact h.ne' hgroup
  · exact lt_asymm h hplace

theorem rank_lt_length (hr : r ∈ rows) : rank group place rows r < rows.length := by
  refine lt_of_le_of_ne List.countP_le_length fun h => ?_
  have hself := of_decide_eq_true (List.countP_eq_length.mp h r hr)
  exact lt_irrefl _ hself.2

theorem capped_of_length_le (h : rows.length ≤ limit) : capped group place limit rows = rows := by
  refine List.filter_eq_self.mpr fun r hr => decide_eq_true ?_
  exact (rank_lt_length hr).trans_le h

theorem countP_group_eq_zero (hne : ∀ s ∈ rows, group s ≠ group r) : rank group place rows r = 0 := by
  refine List.countP_eq_zero.mpr fun s hs h => ?_
  exact hne s hs (of_decide_eq_true h).1

/-- Parts that share no group are capped each by itself. -/
theorem capped_append (hne : ∀ a ∈ page, ∀ b ∈ rest, group a ≠ group b) :
    capped group place limit (page ++ rest) = capped group place limit page ++ capped group place limit rest := by
  rw [capped, List.filter_append]
  refine congrArg₂ (· ++ ·) (List.filter_congr fun a ha => ?_) (List.filter_congr fun b hb => ?_)
  · have hzero : rank group place rest a = 0 := countP_group_eq_zero fun b hb h => hne a ha b hb h.symm
    rw [rank] at hzero
    rw [rank, List.countP_append, hzero, Nat.add_zero, ← rank]
  · have hzero : rank group place page b = 0 := countP_group_eq_zero fun a ha h => hne a ha b hb h
    rw [rank] at hzero
    rw [rank, List.countP_append, hzero, Nat.zero_add, ← rank]

/-- Of one group the first rows are kept. -/
theorem capped_group (hs : rows.Pairwise (Ordered group place)) (hall : ∀ a ∈ rows, ∀ b ∈ rows, group a = group b) :
    capped group place limit rows = rows.take limit := by
  induction rows using List.reverseRecOn with
  | nil => rw [List.take_nil, capped, List.filter_nil]
  | append_singleton rows x ih =>
    obtain ⟨hrows, -, hx⟩ := List.pairwise_append.mp hs
    have hgroup : ∀ a ∈ rows, group a = group x := fun a ha => hall a (by simp [ha]) x (by simp)
    have hearlier : ∀ a ∈ rows, rank group place (rows ++ [x]) a = rank group place rows a := by
      intro a ha
      have hzero := (hx a ha x (by simp)).not_before
      rw [rank, List.countP_append, List.countP_singleton, if_neg (by simpa using hzero), Nat.add_zero, rank]
    have hlast : rank group place (rows ++ [x]) x = rows.length := by
      rw [rank, List.countP_append, List.countP_singleton, if_neg (by simp), Nat.add_zero, List.countP_eq_length]
      intro a ha
      refine decide_eq_true ⟨hgroup a ha, ?_⟩
      rcases hx a ha x (by simp) with h | ⟨-, h⟩
      · exact absurd (hgroup a ha) h.ne
      · exact h
    rw [capped, List.filter_append, List.take_append]
    refine congrArg₂ (· ++ ·) ?_ ?_
    · rw [← ih hrows fun a ha b hb => hall a (by simp [ha]) b (by simp [hb]), capped]
      exact List.filter_congr fun a ha => by rw [hearlier a ha]
    · rw [List.filter_singleton, hlast]
      by_cases hlt : rows.length < limit
      · have hone : 0 < limit - rows.length := by omega
        rw [decide_eq_true hlt, List.take_of_length_le (by rw [List.length_singleton]; exact hone)]
        rfl
      · rw [decide_eq_false hlt, Nat.sub_eq_zero_of_le (Nat.le_of_not_lt hlt)]
        rfl

theorem rank_filter {g : κ} (hr : group r = g) :
    rank group place (rows.filter fun s => group s = g) r = rank group place rows r := by
  subst hr
  rw [rank, List.countP_filter, rank]
  refine List.countP_congr fun s _ => ?_
  simp only [Bool.and_eq_true, decide_eq_true_eq]
  exact ⟨fun h => h.1, fun h => ⟨h, h.1⟩⟩

/-- All the rows are kept where no group is longer than a page, and only there. -/
theorem capped_eq_self_iff (hs : rows.Pairwise (Ordered group place)) :
    capped group place limit rows = rows ↔ ∀ r ∈ rows, rows.countP (fun s => group s = group r) ≤ limit := by
  rw [capped, List.filter_eq_self]
  constructor
  · intro h r hr
    let own := rows.filter fun s => group s = group r
    have hown : ∀ s ∈ own, s ∈ rows ∧ group s = group r := fun s hs => by simpa [own] using hs
    have hcapped : capped group place limit own = own := by
      refine List.filter_eq_self.mpr fun s hs => ?_
      rw [rank_filter (hown s hs).2]
      exact h s (hown s hs).1
    have htake : own.take limit = own :=
      (capped_group (hs.filter _) fun a ha b hb => (hown a ha).2.trans (hown b hb).2.symm).symm.trans hcapped
    rw [List.countP_eq_length_filter]
    exact (List.take_eq_self_iff _).mp htake
  · intro h r hr
    have hown : r ∈ rows.filter fun s => group s = group r := List.mem_filter.mpr ⟨hr, by simp⟩
    have hlt : rank group place (rows.filter fun s => group s = group r) r < _ := rank_lt_length hown
    rw [rank_filter rfl, ← List.countP_eq_length_filter] at hlt
    exact decide_eq_true (hlt.trans_le (h r hr))

/-! ### One page after another -/

/-- A page that holds all there is. -/
theorem kept_of_le (h : rows.length ≤ limit) : kept group limit (rows.take (limit + 1)) = rows ∧
    next group limit (rows.take (limit + 1)) = none := by
  rw [List.take_of_length_le (by omega), next, kept, List.getElem?_eq_none h]
  exact ⟨rfl, rfl⟩

/-- What is beyond the last group of a part of the rows is the rest of them, where the rest has other groups. -/
theorem beyond_append (hle : ∀ a ∈ page, group a ≤ group r) (hlt : ∀ b ∈ rest, group r < group b) :
    (page ++ rest).filter (fun s => group r < group s) = rest := by
  have hnone : page.filter (fun s => group r < group s) = [] := by
    rw [List.filter_eq_nil_iff]
    exact fun a ha h => (hle a ha).not_gt (of_decide_eq_true h)
  have hall : rest.filter (fun s => group r < group s) = rest :=
    List.filter_eq_self.mpr fun b hb => decide_eq_true (hlt b hb)
  rw [List.filter_append, hnone, hall, List.nil_append]

/-- Rows that begin with a group are that group and what is beyond it. -/
theorem eq_group_append_beyond (hs : rows.Pairwise (Ordered group place)) {g : κ} (hge : ∀ a ∈ rows, g ≤ group a) :
    rows.filter (fun s => group s = g) ++ rows.filter (fun s => g < group s) = rows := by
  induction rows with
  | nil => rfl
  | cons a rows ih =>
    obtain ⟨ha, hs⟩ := List.pairwise_cons.mp hs
    rcases (hge a List.mem_cons_self).eq_or_lt with heq | hlt
    · rw [List.filter_cons_of_pos (by simp [heq]), List.filter_cons_of_neg (by simp [heq]), List.cons_append,
        ih hs fun b hb => hge b (List.mem_cons_of_mem _ hb)]
    · have hbeyond : ∀ b ∈ a :: rows, g < group b := by
        intro b hb
        rcases List.mem_cons.mp hb with rfl | hb
        · exact hlt
        · exact hlt.trans_le (ha b hb).le
      have hnone : (a :: rows).filter (fun s => group s = g) = [] := by
        rw [List.filter_eq_nil_iff]
        exact fun b hb h => (hbeyond b hb).ne' (of_decide_eq_true h)
      rw [hnone, List.nil_append, List.filter_eq_self]
      exact fun b hb => decide_eq_true (hbeyond b hb)

section More

variable {front back : List α} {probe : α}

theorem kept_append_cons : kept group front.length ((front ++ probe :: back).take (front.length + 1)) =
    (if front.rdropWhile (fun r => group r = group probe) = [] then front
      else front.rdropWhile (fun r => group r = group probe)) ∧
    next group front.length ((front ++ probe :: back).take (front.length + 1)) =
      (if front.rdropWhile (fun r => group r = group probe) = [] then front
        else front.rdropWhile (fun r => group r = group probe)).getLast?.map group := by
  have htake : (front ++ probe :: back).take (front.length + 1) = front ++ [probe] := by
    rw [List.take_append, List.take_of_length_le (Nat.le_succ _), Nat.add_sub_cancel_left]
    rfl
  have hprobe : (front ++ [probe])[front.length]? = some probe := by
    rw [List.getElem?_append_right le_rfl, Nat.sub_self]
    rfl
  have hfront : (front ++ [probe]).take front.length = front := List.take_left
  rw [htake, next, kept, hprobe, hfront]
  exact ⟨rfl, rfl⟩

/-- Rows in order are in order of their groups from the probe on. -/
theorem probe_le (hs : (front ++ probe :: back).Pairwise (Ordered group place)) :
    ∀ b ∈ probe :: back, group probe ≤ group b := by
  obtain ⟨-, hback, -⟩ := List.pairwise_append.mp hs
  intro b hb
  rcases List.mem_cons.mp hb with rfl | hb
  · exact le_rfl
  · exact ((List.pairwise_cons.mp hback).1 b hb).le

/-- A page of one group, which goes on behind the page. -/
theorem capped_filled (hs : (front ++ probe :: back).Pairwise (Ordered group place))
    (hall : ∀ a ∈ front, group a = group probe) :
    capped group place front.length (front ++ probe :: back) = front ++
      capped group place front.length ((front ++ probe :: back).filter fun s => group probe < group s) := by
  have hge : ∀ a ∈ front ++ probe :: back, group probe ≤ group a := by
    intro a ha
    rcases List.mem_append.mp ha with ha | ha
    · exact (hall a ha).ge
    · exact probe_le hs a ha
  have hown : (front ++ probe :: back).filter (fun s => group s = group probe) =
      front ++ (probe :: back).filter (fun s => group s = group probe) := by
    rw [List.filter_append, List.filter_eq_self.mpr fun a ha => decide_eq_true (hall a ha)]
  have hparts := eq_group_append_beyond hs hge
  conv_lhs => rw [← hparts]
  rw [capped_append, capped_group (hs.filter _)]
  · rw [hown, List.take_left]
  · intro a ha b hb
    rw [of_decide_eq_true (List.mem_filter.mp ha).2, of_decide_eq_true (List.mem_filter.mp hb).2]
  · intro a ha b hb
    rw [of_decide_eq_true (List.mem_filter.mp ha).2]
    exact (of_decide_eq_true (List.mem_filter.mp hb).2).ne

/-- A page that is trimmed to whole groups, the last of them `r`'s. -/
theorem capped_trimmed (hs : (front ++ probe :: back).Pairwise (Ordered group place)) {whole : List α} {r : α}
    (hwhole : front.rdropWhile (fun s => group s = group probe) = whole ++ [r]) :
    (∀ a ∈ whole ++ [r], group a ≤ group r) ∧
      capped group place front.length (front ++ probe :: back) = (whole ++ [r]) ++
        capped group place front.length ((front ++ probe :: back).filter fun s => group r < group s) := by
  have hfront : (whole ++ [r]) ++ front.rtakeWhile (fun s => group s = group probe) = front := by
    rw [← hwhole, List.rdropWhile_append_rtakeWhile]
  obtain ⟨hpage, -, hcross⟩ := List.pairwise_append.mp hs
  have hle : ∀ a ∈ whole ++ [r], group a ≤ group r := by
    have hord := (List.pairwise_append.mp (hfront ▸ hpage)).1
    intro a ha
    rcases List.mem_append.mp ha with ha | ha
    · exact ((List.pairwise_append.mp hord).2.2 a ha r (by simp)).le
    · rw [List.mem_singleton.mp ha]
  have hr : group r < group probe := by
    refine lt_of_le_of_ne (hcross r (hfront ▸ by simp) probe List.mem_cons_self).le fun heq => ?_
    have hlast := List.rdropWhile_last_not (fun s => decide (group s = group probe)) front (by rw [hwhole]; simp)
    simp only [hwhole, List.getLast_append_singleton] at hlast
    exact hlast (decide_eq_true heq)
  have hlt : ∀ b ∈ front.rtakeWhile (fun s => group s = group probe) ++ probe :: back, group r < group b := by
    intro b hb
    rcases List.mem_append.mp hb with hb | hb
    · have hgroup := List.mem_rtakeWhile_imp hb
      exact hr.trans_eq (of_decide_eq_true hgroup).symm
    · exact hr.trans_le (probe_le hs b hb)
  have hparts : front ++ probe :: back =
      (whole ++ [r]) ++ (front.rtakeWhile (fun s => group s = group probe) ++ probe :: back) := by
    rw [← List.append_assoc, hfront]
  have hlen : (whole ++ [r]).length ≤ front.length := by
    rw [← hwhole]
    exact (List.rdropWhile_prefix _ _).length_le
  refine ⟨hle, ?_⟩
  rw [hparts, beyond_append hle hlt, capped_append fun a ha b hb => ((hle a ha).trans_lt (hlt b hb)).ne,
    capped_of_length_le hlen]

end More

/-- A page that there is more of ends at a group, and the rest is beyond that group. -/
theorem kept_of_lt (hs : rows.Pairwise (Ordered group place)) (hlimit : 0 < limit) (h : limit < rows.length) :
    ∃ r ∈ rows, next group limit (rows.take (limit + 1)) = some (group r) ∧
      (∀ a ∈ kept group limit (rows.take (limit + 1)), group a ≤ group r) ∧
      capped group place limit rows = kept group limit (rows.take (limit + 1)) ++
        capped group place limit (rows.filter fun s => group r < group s) := by
  obtain ⟨front, probe, back, rfl, rfl⟩ : ∃ front probe back, rows = front ++ probe :: back ∧ limit = front.length := by
    refine ⟨rows.take limit, rows[limit], rows.drop (limit + 1), ?_, ?_⟩
    · rw [List.cons_getElem_drop_succ, List.take_append_drop]
    · rw [List.length_take, Nat.min_eq_left h.le]
  obtain ⟨hkept, hnext⟩ := @kept_append_cons α κ _ group front back probe
  rw [hkept, hnext]
  split_ifs with hwhole
  · have hall : ∀ a ∈ front, group a = group probe := fun a ha =>
      of_decide_eq_true (List.rdropWhile_eq_nil_iff.mp hwhole a ha)
    refine ⟨probe, by simp, ?_, fun a ha => (hall a ha).le, capped_filled hs hall⟩
    have hne : front ≠ [] := List.ne_nil_of_length_pos hlimit
    rw [List.getLast?_eq_getLast_of_ne_nil hne, Option.map_some, hall _ (List.getLast_mem hne)]
  · obtain ⟨whole, r, hr⟩ := List.eq_nil_or_concat' _ |>.resolve_left hwhole
    obtain ⟨hle, hcapped⟩ := capped_trimmed hs hr
    have hmem : r ∈ front := (List.rdropWhile_prefix _ _).subset (by rw [hr]; simp)
    rw [hr]
    exact ⟨r, List.mem_append_left _ hmem, by rw [List.getLast?_concat, Option.map_some], hle, hcapped⟩

theorem beyond_some (rows : List α) {after : Option κ} {g : κ} (hg : ∀ c ∈ after, c < g) :
    (beyond group rows after).filter (fun s => g < group s) = beyond group rows (some g) := by
  cases after with
  | none => rfl
  | some c =>
    rw [beyond, beyond, List.filter_filter]
    refine List.filter_congr fun s _ => ?_
    by_cases hs : g < group s
    · simp [hs, (hg c rfl).trans hs]
    · simp [hs]

theorem lt_of_mem_beyond {after : Option κ} (hr : r ∈ beyond group rows after) : ∀ c ∈ after, c < group r := by
  intro c hc
  cases after with
  | none => cases hc
  | some d =>
    cases hc
    exact of_decide_eq_true (List.mem_filter.mp hr).2

theorem beyond_sublist (after : Option κ) : (beyond group rows after).Sublist rows := by
  cases after with
  | none => exact List.Sublist.refl _
  | some c => exact List.filter_sublist

/-- The pages come to an end, and hold of each group as many rows as fit a page, in order and with no
    group over two pages. -/
theorem walk_eq (hs : rows.Pairwise (Ordered group place)) (hlimit : 0 < limit) (after : Option κ) :
    ∃ pages, (∀ fuel > (beyond group rows after).length, walk group limit rows fuel after = some pages) ∧
      pages.flatten = capped group place limit (beyond group rows after) ∧
      pages.Pairwise fun page page' => ∀ a ∈ page, ∀ b ∈ page', group a < group b := by
  generalize hlen : (beyond group rows after).length = n
  induction n using Nat.strong_induction_on generalizing after with
  | _ n ih =>
    have hord := hs.sublist (@beyond_sublist α κ _ group rows after)
    rcases Nat.lt_or_ge limit (beyond group rows after).length with hlt | hle
    · obtain ⟨r, hr, hnext, hpage, hcapped⟩ := kept_of_lt hord hlimit hlt
      rw [beyond_some rows (lt_of_mem_beyond hr)] at hcapped
      have hshort : (beyond group rows (some (group r))).length < n := by
        rw [← hlen, ← beyond_some rows (lt_of_mem_beyond hr)]
        exact List.length_filter_lt_length_iff_exists.mpr ⟨r, hr, by simp⟩
      obtain ⟨pages, hwalk, hflatten, hgroups⟩ := ih _ hshort (some (group r)) rfl
      refine ⟨kept group limit ((beyond group rows after).take (limit + 1)) :: pages, ?_, ?_, ?_⟩
      · intro fuel hfuel
        obtain ⟨fuel, rfl⟩ := Nat.exists_eq_succ_of_ne_zero (Nat.ne_zero_of_lt hfuel)
        rw [walk, hnext]
        dsimp only
        rw [hwalk fuel (by omega), Option.map_some]
      · rw [List.flatten_cons, hflatten, hcapped]
      · refine List.pairwise_cons.mpr ⟨fun page' hpage' a ha b hb => ?_, hgroups⟩
        have hmem : b ∈ capped group place limit (beyond group rows (some (group r))) :=
          hflatten ▸ List.mem_flatten_of_mem hpage' hb
        exact (hpage a ha).trans_lt (lt_of_mem_beyond (List.mem_of_mem_filter hmem) _ rfl)
    · obtain ⟨hkept, hnext⟩ := @kept_of_le α κ _ group limit _ hle
      refine ⟨[beyond group rows after], ?_, ?_, List.pairwise_singleton _ _⟩
      · intro fuel hfuel
        obtain ⟨fuel, rfl⟩ := Nat.exists_eq_succ_of_ne_zero (Nat.ne_zero_of_lt hfuel)
        rw [walk, hnext]
        dsimp only
        rw [hkept]
      · rw [List.flatten_singleton, capped_of_length_le hle]

end GroupPage
