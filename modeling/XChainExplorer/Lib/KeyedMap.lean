import Mathlib.Data.List.AList
import Mathlib.Data.List.Sort

/-! # Keyed maps

    Operations on `AList` as a JavaScript `Map` has them: keeping the entries whose key passes a
    test, walking the keys in ascending order, and setting an entry without moving it. -/

namespace KeyedMap

variable {α ν : Type*}

section first
variable [LinearOrder α]

/-- The keys in ascending order. -/
def sortedKeys (m : AList fun _ : α => ν) : List α := m.keys.insertionSort (· ≤ ·)

theorem mem_sortedKeys {m : AList fun _ : α => ν} {a : α} : a ∈ sortedKeys m ↔ a ∈ m := by
  rw [sortedKeys, List.mem_insertionSort, AList.mem_keys]

theorem head_sortedKeys_le {m : AList fun _ : α => ν} {a b : α}
    (ha : (sortedKeys m).head? = some a) (hb : b ∈ m) : a ≤ b := by
  have hsort : (sortedKeys m).Pairwise (· ≤ ·) := List.pairwise_insertionSort _ _
  have hb := mem_sortedKeys.mpr hb
  obtain ⟨l, hl⟩ := List.head?_eq_some_iff.mp ha
  rw [hl] at hsort hb
  rcases List.mem_cons.mp hb with rfl | hb
  · exact le_rfl
  · exact (List.pairwise_cons.mp hsort).1 b hb

end first

variable [DecidableEq α]

/-- The entries whose key passes `p`. -/
def keep (p : α → Bool) (m : AList fun _ : α => ν) : AList fun _ : α => ν :=
  ⟨m.entries.filter fun e => p e.1, m.nodupKeys.sublist List.filter_sublist⟩

theorem mem_lookup_iff_mem {m : AList fun _ : α => ν} {a : α} {v : ν} :
    m.lookup a = some v ↔ (⟨a, v⟩ : Sigma fun _ : α => ν) ∈ m.entries :=
  List.mem_dlookup_iff m.nodupKeys

/-- The values in the order of the keys. -/
theorem map_entries (m : AList fun _ : α => ν) (d : ν) :
    m.entries.map (·.2) = m.keys.map fun a => (m.lookup a).getD d := by
  rw [AList.keys, List.keys, List.map_map]
  refine List.map_congr_left fun e he => ?_
  have hlookup : m.lookup e.1 = some e.2 := mem_lookup_iff_mem.mpr he
  rw [Function.comp_apply, hlookup, Option.getD_some]

theorem lookup_keep (p : α → Bool) (m : AList fun _ : α => ν) (a : α) :
    (keep p m).lookup a = if p a then m.lookup a else none := by
  ext v
  rw [mem_lookup_iff_mem, keep, List.mem_filter, ← mem_lookup_iff_mem]
  by_cases hp : p a <;> simp [hp]

theorem mem_keep {p : α → Bool} {m : AList fun _ : α => ν} {a : α} :
    a ∈ keep p m ↔ p a = true ∧ a ∈ m := by
  rw [← AList.lookup_isSome, ← AList.lookup_isSome, lookup_keep]
  by_cases hp : p a <;> simp [hp]

theorem mem_iff_lookup {m : AList fun _ : α => ν} {a : α} : a ∈ m ↔ ∃ v, m.lookup a = some v := by
  rw [← AList.lookup_isSome, Option.isSome_iff_exists]

theorem keys_assigned (es : List (Sigma fun _ : α => ν)) (a : α) (v : ν) :
    List.keys (es.map fun e => if e.1 = a then (⟨a, v⟩ : Sigma fun _ : α => ν) else e) = es.keys := by
  unfold List.keys
  rw [List.map_map]
  refine List.map_congr_left fun e _ => ?_
  by_cases he : e.1 = a <;> simp [he]

/-- `Map.set`: the entry of a key that is there changes in place, a new one comes last. -/
def assign (m : AList fun _ : α => ν) (a : α) (v : ν) : AList fun _ : α => ν :=
  if h : a ∈ m then
    ⟨m.entries.map fun e => if e.1 = a then ⟨a, v⟩ else e, by
      rw [List.NodupKeys, keys_assigned]
      exact m.nodupKeys⟩
  else
    ⟨m.entries ++ [⟨a, v⟩], by
      unfold List.NodupKeys List.keys
      rw [List.map_append, List.nodup_append']
      refine ⟨m.nodupKeys, by simp, ?_⟩
      rw [List.map_singleton, List.disjoint_singleton]
      exact h⟩

theorem lookup_assign (m : AList fun _ : α => ν) (a b : α) (v : ν) :
    (assign m a v).lookup b = if b = a then some v else m.lookup b := by
  ext w
  rw [mem_lookup_iff_mem, assign]
  by_cases ha : a ∈ m
  · rw [dif_pos ha, List.mem_map]
    constructor
    · rintro ⟨e, he, heq⟩
      by_cases hea : e.1 = a
      · rw [if_pos hea] at heq
        cases heq
        simp
      · rw [if_neg hea] at heq
        subst heq
        rw [if_neg hea]
        exact mem_lookup_iff_mem.mpr he
    · intro hw
      by_cases hba : b = a
      · subst hba
        rw [if_pos rfl, Option.some.injEq] at hw
        subst hw
        obtain ⟨u, hu⟩ := mem_iff_lookup.mp ha
        exact ⟨⟨b, u⟩, mem_lookup_iff_mem.mp hu, by simp⟩
      · rw [if_neg hba] at hw
        exact ⟨⟨b, w⟩, mem_lookup_iff_mem.mp hw, by simp [hba]⟩
  · rw [dif_neg ha, List.mem_append, ← mem_lookup_iff_mem, List.mem_singleton]
    by_cases hba : b = a
    · subst hba
      have hnone : m.lookup b = none := AList.lookup_eq_none.mpr ha
      simp [hnone, eq_comm]
    · simp [hba]

theorem lookup_erase (m : AList fun _ : α => ν) (a b : α) :
    (m.erase a).lookup b = if b = a then none else m.lookup b := by
  by_cases hba : b = a
  · rw [if_pos hba, hba, AList.lookup_erase]
  · rw [if_neg hba, AList.lookup_erase_ne hba]

end KeyedMap
