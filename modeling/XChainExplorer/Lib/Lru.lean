import Mathlib.Data.List.Basic

/-! # Bounded caches in insertion order

    The cache of a JavaScript `Map` that moves an entry to the end when it is read and drops its
    first entry when a new key would pass the bound. -/

namespace Lru

variable {κ ν : Type*} [DecidableEq κ]

/-- Look a key up; a hit moves its entry to the end. -/
def get (cache : List (κ × ν)) (key : κ) : Option ν × List (κ × ν) :=
  match cache.find? fun e => e.1 = key with
  | none => (none, cache)
  | some e => (some e.2, (cache.filter fun e => e.1 ≠ key) ++ [e])

/-- Write a key at the end; a new key at the bound drops the first entry. -/
def set (cache : List (κ × ν)) (key : κ) (value : ν) (maxSize : ℕ) : List (κ × ν) :=
  (if cache.any fun e => e.1 = key then cache.filter fun e => e.1 ≠ key
    else if maxSize ≤ cache.length then cache.tail else cache) ++ [(key, value)]

/-- The keys from the oldest on. -/
def keys (cache : List (κ × ν)) : List κ := cache.map Prod.fst

variable {cache : List (κ × ν)} {key : κ} {value : ν} {maxSize : ℕ} {e : κ × ν}

/-- A hit answers an entry of the cache. -/
theorem mem_of_get (h : (get cache key).1 = some value) : (key, value) ∈ cache := by
  unfold get at h
  split at h
  · simp at h
  case h_2 e hf =>
    have hk := List.find?_some hf
    simp only [decide_eq_true_eq] at hk
    simp only [Option.some.injEq] at h
    rw [← hk, ← h]
    exact List.mem_of_find?_eq_some hf

theorem get_eq_none : (get cache key).1 = none ↔ key ∉ keys cache := by
  have hkeys : key ∈ keys cache ↔ ∃ e ∈ cache, e.1 = key := List.mem_map
  unfold get
  split
  case h_1 hf =>
    simp only [List.find?_eq_none, decide_eq_true_eq] at hf
    exact iff_of_true rfl fun hmem => by
      obtain ⟨e, he, hkey⟩ := hkeys.mp hmem
      exact hf e he hkey
  case h_2 e hf =>
    have hkey := List.find?_some hf
    rw [decide_eq_true_eq] at hkey
    exact iff_of_false (by simp) (not_not_intro (hkeys.mpr ⟨e, List.mem_of_find?_eq_some hf, hkey⟩))

/-- A hit moves its key to the end. -/
theorem keys_get (h : key ∈ keys cache) : keys (get cache key).2 = (keys cache).filter (· ≠ key) ++ [key] := by
  unfold get
  split
  case h_1 hf =>
    simp only [List.find?_eq_none, decide_eq_true_eq] at hf
    obtain ⟨e, he, hkey⟩ := List.mem_map.mp h
    exact absurd hkey (hf e he)
  case h_2 e hf =>
    have hkey := List.find?_some hf
    rw [decide_eq_true_eq] at hkey
    simp [keys, List.filter_map, hkey, Function.comp_def]

/-- A miss leaves the cache alone. -/
theorem get_miss (h : key ∉ keys cache) : get cache key = (none, cache) := by
  have hnone := get_eq_none.mpr h
  unfold get at hnone ⊢
  split at hnone
  · rfl
  · cases hnone

/-- A new key goes to the end, at the bound in place of the oldest. -/
theorem keys_set (h : key ∉ keys cache) :
    keys (set cache key value maxSize) = (if maxSize ≤ (keys cache).length then (keys cache).tail else keys cache) ++ [key] := by
  have hany : ¬ (cache.any fun e => e.1 = key) := by
    rw [List.any_eq_true]
    rintro ⟨e, he, hkey⟩
    exact h (List.mem_map.mpr ⟨e, he, of_decide_eq_true hkey⟩)
  rw [set, if_neg hany, keys, keys, List.map_append, apply_ite (List.map Prod.fst), List.map_tail, List.length_map]
  rfl

theorem keys_get_perm (h : (keys cache).Nodup) : (keys (get cache key).2).Perm (keys cache) := by
  by_cases hmem : key ∈ keys cache
  · rw [keys_get hmem]
    have herase : (keys cache).filter (· ≠ key) = (keys cache).erase key := by
      rw [h.erase_eq_filter]
      exact List.filter_congr fun k _ => by simp [bne, beq_eq_decide]
    rw [herase]
    exact List.perm_append_comm.trans (List.perm_cons_erase hmem).symm
  · rw [get_miss hmem]

/-- Reading brings no entry in. -/
theorem mem_of_mem_get (h : e ∈ (get cache key).2) : e ∈ cache := by
  unfold get at h
  split at h
  · exact h
  case h_2 e' hf =>
    rcases List.mem_append.mp h with h | h
    · exact List.mem_of_mem_filter h
    · exact List.mem_singleton.mp h ▸ List.mem_of_find?_eq_some hf

/-- Writing brings in the entry written and no other. -/
theorem mem_of_mem_set (h : e ∈ set cache key value maxSize) : e = (key, value) ∨ e ∈ cache := by
  unfold set at h
  rcases List.mem_append.mp h with h | h
  · right
    split_ifs at h
    · exact List.mem_of_mem_filter h
    · exact List.mem_of_mem_tail h
    · exact h
  · exact .inl (List.mem_singleton.mp h)

/-- What was written is read back. -/
theorem get_set_self : (get (set cache key value maxSize) key).1 = some value := by
  have hfree : ∀ e ∈ (if cache.any fun e => e.1 = key then cache.filter fun e => e.1 ≠ key
      else if maxSize ≤ cache.length then cache.tail else cache), e.1 ≠ key := by
    intro e he
    split_ifs at he with hany hfull
    · simpa using List.of_mem_filter he
    · exact fun hkey => hany (List.any_eq_true.mpr ⟨e, List.mem_of_mem_tail he, decide_eq_true hkey⟩)
    · exact fun hkey => hany (List.any_eq_true.mpr ⟨e, he, decide_eq_true hkey⟩)
  have hfind : (set cache key value maxSize).find? (fun e => e.1 = key) = some (key, value) := by
    rw [set, List.find?_append, List.find?_eq_none.mpr (by simpa using hfree), Option.none_or]
    simp
  rw [get, hfind]

end Lru
