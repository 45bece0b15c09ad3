import Mathlib.Data.List.Basic
import Mathlib.Order.Lattice

/-! # Pages of intervals

    Intervals in the order of where they start, those that reach into a range read a page at a time, each
    page resumed behind the end of the last interval of the one before. What a page leaves out starts no
    earlier than its last interval, so it adds nothing in front of that interval's end. -/

namespace IntervalPage

variable {ι α : Type*} [LinearOrder α] (lo hi : ι → α)

/-- The intervals that reach into a range. -/
def overlapping (rows : List ι) (first last : α) : List ι := rows.filter fun x => lo x ≤ last ∧ first ≤ hi x

def Covers (xs : List ι) (r : α) : Prop := ∃ x ∈ xs, lo x ≤ r ∧ r ≤ hi x

variable {lo hi} {rows xs ys : List ι} {first last r : α} {n : ℕ} {x y : ι}

theorem mem_overlapping : x ∈ overlapping lo hi rows first last ↔ x ∈ rows ∧ lo x ≤ last ∧ first ≤ hi x := by
  simp [overlapping]

theorem Covers.mono (hr : Covers lo hi xs r) (hsub : xs ⊆ ys) : Covers lo hi ys r := by
  obtain ⟨x, hx, hin⟩ := hr
  exact ⟨x, hsub hx, hin⟩

theorem covers_overlapping (hfirst : first ≤ r) (hlast : r ≤ last) :
    Covers lo hi (overlapping lo hi rows first last) r ↔ Covers lo hi rows r := by
  refine ⟨fun hr => hr.mono (List.filter_subset_self _), ?_⟩
  rintro ⟨x, hx, hlo, hhi⟩
  exact ⟨x, mem_overlapping.mpr ⟨hx, hlo.trans hlast, hfirst.trans hhi⟩, hlo, hhi⟩

/-- A page that came back short left nothing out. -/
theorem covers_of_short (hshort : (xs.take n).length < n) (hr : Covers lo hi xs r) : Covers lo hi (xs.take n) r := by
  rw [List.length_take] at hshort
  rwa [List.take_of_length_le (by omega)]

/-- A point is in an interval of the page, or behind the end of its last one. -/
theorem covers_or_behind (hxs : xs.Pairwise (lo · ≤ lo ·)) (hy : (xs.take n).getLast? = some y)
    (hr : Covers lo hi xs r) : Covers lo hi (xs.take n) r ∨ hi y < r := by
  obtain ⟨x, hx, hlo, hhi⟩ := hr
  have hypage : y ∈ xs.take n := List.mem_of_getLast? hy
  rw [← List.take_append_drop n xs] at hx hxs
  rcases List.mem_append.mp hx with hin | hout
  · exact .inl ⟨x, hin, hlo, hhi⟩
  · refine (lt_or_ge (hi y) r).symm.imp_left fun hry => ⟨y, hypage, ?_, hry⟩
    exact ((List.pairwise_append.mp hxs).2.2 y hypage x hout).trans hlo

end IntervalPage
