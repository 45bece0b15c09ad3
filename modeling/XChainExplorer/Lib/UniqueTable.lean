import Mathlib.Data.List.Nodup
import Mathlib.Data.List.Basic

/-! # A table with a unique key

    Rows under an `AUTO_INCREMENT` id and a unique key. A row keeps its id while it is changed in
    place, a row written anew takes the next one, and no id is given twice. -/

structure UniqueRow (κ ν : Type*) where
  id : ℕ
  key : κ
  value : ν
  deriving DecidableEq

/-- The rows in the order of their ids, and the id the next one takes. No key repeats. -/
structure UniqueTable (κ ν : Type*) where
  rows : List (UniqueRow κ ν)
  nextId : ℕ
  keys_nodup : (rows.map (·.key)).Nodup
  ids_ascending : rows.Pairwise (·.id < ·.id)
  ids_pos : ∀ x ∈ rows, 0 < x.id
  ids_lt : ∀ x ∈ rows, x.id < nextId
  nextId_pos : 0 < nextId

namespace UniqueTable

variable {κ ν : Type*}

instance : Membership (UniqueRow κ ν) (UniqueTable κ ν) := ⟨fun t x => x ∈ t.rows⟩

theorem mem_def {t : UniqueTable κ ν} {x : UniqueRow κ ν} : x ∈ t ↔ x ∈ t.rows := Iff.rfl

def empty : UniqueTable κ ν :=
  ⟨[], 1, List.nodup_nil, List.Pairwise.nil, by simp, by simp, Nat.one_pos⟩

/-- A row stands at the key. -/
def Occupied (t : UniqueTable κ ν) (k : κ) : Prop := ∃ x ∈ t, x.key = k

theorem eq_of_key_eq {t : UniqueTable κ ν} {x y : UniqueRow κ ν} (hx : x ∈ t) (hy : y ∈ t)
    (h : x.key = y.key) : x = y :=
  List.inj_on_of_nodup_map t.keys_nodup hx hy h

theorem eq_of_id_eq {t : UniqueTable κ ν} {x y : UniqueRow κ ν} (hx : x ∈ t) (hy : y ∈ t)
    (h : x.id = y.id) : x = y :=
  List.inj_on_of_nodup_map (List.pairwise_map.mpr (t.ids_ascending.imp Nat.ne_of_lt)) hx hy h

/-- `DELETE … WHERE`. -/
def delete (t : UniqueTable κ ν) (p : UniqueRow κ ν → Bool) : UniqueTable κ ν where
  rows := t.rows.filter fun x => !p x
  nextId := t.nextId
  keys_nodup := t.keys_nodup.sublist (List.filter_sublist.map _)
  ids_ascending := t.ids_ascending.filter _
  ids_pos x hx := t.ids_pos x (List.mem_of_mem_filter hx)
  ids_lt x hx := t.ids_lt x (List.mem_of_mem_filter hx)
  nextId_pos := t.nextId_pos

/-- `UPDATE … WHERE`, of what the key does not hold. -/
def modify (t : UniqueTable κ ν) (f : UniqueRow κ ν → ν) : UniqueTable κ ν where
  rows := t.rows.map fun x => { x with value := f x }
  nextId := t.nextId
  keys_nodup := by simpa [Function.comp_def] using t.keys_nodup
  ids_ascending := List.pairwise_map.mpr t.ids_ascending
  ids_pos := by simpa using t.ids_pos
  ids_lt := by simpa using t.ids_lt
  nextId_pos := t.nextId_pos

variable [DecidableEq κ]

instance (t : UniqueTable κ ν) (k : κ) : Decidable (t.Occupied k) :=
  decidable_of_iff (∃ x ∈ t.rows, x.key = k) Iff.rfl

/-- `INSERT IGNORE`: nothing happens where the key is taken. -/
def insertIgnore (t : UniqueTable κ ν) (k : κ) (v : ν) : UniqueTable κ ν :=
  if h : t.Occupied k then t
  else
    { rows := t.rows ++ [⟨t.nextId, k, v⟩]
      nextId := t.nextId + 1
      keys_nodup := by
        rw [List.map_append, List.nodup_append']
        refine ⟨t.keys_nodup, by simp, ?_⟩
        simp only [List.map_cons, List.map_nil, List.disjoint_singleton, List.mem_map, not_exists,
          not_and]
        exact fun x hx hk => h ⟨x, hx, hk⟩
      ids_ascending := by
        refine List.pairwise_append.mpr ⟨t.ids_ascending, List.pairwise_singleton _ _, ?_⟩
        intro x hx y hy
        exact List.mem_singleton.mp hy ▸ t.ids_lt x hx
      ids_pos := by
        intro x hx
        rcases List.mem_append.mp hx with hx | hx
        · exact t.ids_pos x hx
        · exact List.mem_singleton.mp hx ▸ t.nextId_pos
      ids_lt := by
        intro x hx
        rcases List.mem_append.mp hx with hx | hx
        · exact Nat.lt_succ_of_lt (t.ids_lt x hx)
        · simp [List.mem_singleton.mp hx]
      nextId_pos := Nat.succ_pos _ }

/-- `REPLACE`: whatever stands at the key is deleted, and the row takes a fresh id. -/
def replace (t : UniqueTable κ ν) (k : κ) (v : ν) : UniqueTable κ ν :=
  (t.delete fun x => x.key = k).insertIgnore k v

/-- `INSERT … ON DUPLICATE KEY UPDATE`: the row at the key is changed in place. -/
def upsert (t : UniqueTable κ ν) (k : κ) (v : ν) (update : ν → ν) : UniqueTable κ ν :=
  if t.Occupied k then t.modify fun x => if x.key = k then update x.value else x.value
  else t.insertIgnore k v

/-! ### What each statement leaves -/

variable {t : UniqueTable κ ν} {x : UniqueRow κ ν} {k : κ} {v : ν}

omit [DecidableEq κ] in
@[simp] theorem mem_delete {p : UniqueRow κ ν → Bool} : x ∈ t.delete p ↔ x ∈ t ∧ p x = false := by
  simp [mem_def, delete]

omit [DecidableEq κ] in
@[simp] theorem nextId_delete (p : UniqueRow κ ν → Bool) : (t.delete p).nextId = t.nextId := rfl

omit [DecidableEq κ] in
theorem mem_modify {f : UniqueRow κ ν → ν} :
    x ∈ t.modify f ↔ ∃ y ∈ t, x = { y with value := f y } := by
  simp [mem_def, modify, eq_comm]

theorem mem_insertIgnore :
    x ∈ t.insertIgnore k v ↔ x ∈ t ∨ ¬ t.Occupied k ∧ x = ⟨t.nextId, k, v⟩ := by
  unfold insertIgnore
  split_ifs with h
  · simp [h]
  · simp [mem_def, h]

theorem nextId_le_insertIgnore : t.nextId ≤ (t.insertIgnore k v).nextId := by
  unfold insertIgnore
  split_ifs
  · exact Nat.le_refl _
  · exact Nat.le_succ _

theorem occupied_insertIgnore : (t.insertIgnore k v).Occupied k := by
  by_cases h : t.Occupied k
  · obtain ⟨x, hx, hk⟩ := h
    exact ⟨x, mem_insertIgnore.mpr (.inl hx), hk⟩
  · exact ⟨_, mem_insertIgnore.mpr (.inr ⟨h, rfl⟩), rfl⟩

theorem Occupied.insertIgnore {k' : κ} (h : t.Occupied k') : (t.insertIgnore k v).Occupied k' := by
  obtain ⟨x, hx, hk⟩ := h
  exact ⟨x, mem_insertIgnore.mpr (.inl hx), hk⟩

theorem mem_replace :
    x ∈ t.replace k v ↔ x ∈ t ∧ x.key ≠ k ∨ x = ⟨t.nextId, k, v⟩ := by
  have hfree : ¬ (t.delete fun x => x.key = k).Occupied k := by
    rintro ⟨y, hy, hk⟩
    simp [hk] at hy
  rw [replace, mem_insertIgnore]
  simp [hfree]

theorem nextId_le_replace : t.nextId ≤ (t.replace k v).nextId :=
  nextId_le_insertIgnore (t := t.delete fun x => x.key = k)

theorem Occupied.replace {k' : κ} (h : t.Occupied k') : (t.replace k v).Occupied k' := by
  obtain ⟨x, hx, rfl⟩ := h
  by_cases hk : x.key = k
  · exact ⟨_, mem_replace.mpr (.inr rfl), hk.symm⟩
  · exact ⟨x, mem_replace.mpr (.inl ⟨hx, hk⟩), rfl⟩

theorem mem_upsert {update : ν → ν} : x ∈ t.upsert k v update ↔
    x ∈ t ∧ x.key ≠ k ∨ (∃ y ∈ t, y.key = k ∧ x = { y with value := update y.value }) ∨
      ¬ t.Occupied k ∧ x = ⟨t.nextId, k, v⟩ := by
  unfold upsert
  split_ifs with h
  · rw [mem_modify]
    constructor
    · rintro ⟨y, hy, rfl⟩
      by_cases hk : y.key = k
      · exact .inr (.inl ⟨y, hy, hk, by simp [hk]⟩)
      · exact .inl ⟨by simpa [hk] using hy, hk⟩
    · rintro (⟨hx, hk⟩ | ⟨y, hy, hk, rfl⟩ | ⟨hfree, -⟩)
      · exact ⟨x, hx, by simp [hk]⟩
      · exact ⟨y, hy, by simp [hk]⟩
      · exact absurd h hfree
  · rw [mem_insertIgnore]
    constructor
    · rintro (hx | hx)
      · exact .inl ⟨hx, fun hk => h ⟨x, hx, hk⟩⟩
      · exact .inr (.inr hx)
    · rintro (⟨hx, -⟩ | ⟨y, hy, hk, -⟩ | hx)
      · exact .inl hx
      · exact absurd ⟨y, hy, hk⟩ h
      · exact .inr hx

theorem nextId_le_upsert {update : ν → ν} : t.nextId ≤ (t.upsert k v update).nextId := by
  unfold upsert
  split_ifs
  · exact Nat.le_refl _
  · exact nextId_le_insertIgnore

/-! ### Later tables -/

/-- A table the statements may lead to: what stands under an id of before has its key of before, and
    every other row is new. -/
structure Later (t t' : UniqueTable κ ν) : Prop where
  nextId : t.nextId ≤ t'.nextId
  rows : ∀ x ∈ t', (∃ y ∈ t, y.id = x.id ∧ y.key = x.key) ∨ t.nextId ≤ x.id

omit [DecidableEq κ] in
theorem later_delete (t : UniqueTable κ ν) (p : UniqueRow κ ν → Bool) : Later t (t.delete p) :=
  ⟨Nat.le_refl _, fun x hx => .inl ⟨x, (mem_delete.mp hx).1, rfl, rfl⟩⟩

theorem later_upsert (t : UniqueTable κ ν) (k : κ) (v : ν) (update : ν → ν) :
    Later t (t.upsert k v update) := by
  refine ⟨nextId_le_upsert, fun x hx => ?_⟩
  rcases mem_upsert.mp hx with ⟨hx, -⟩ | ⟨y, hy, -, rfl⟩ | ⟨-, rfl⟩
  · exact .inl ⟨x, hx, rfl, rfl⟩
  · exact .inl ⟨y, hy, rfl, rfl⟩
  · exact .inr (Nat.le_refl _)

/-- The row that stands at the key of an upsert. -/
theorem exists_mem_upsert (t : UniqueTable κ ν) (k : κ) (v : ν) (update : ν → ν) :
    ∃ x ∈ t.upsert k v update, x.key = k ∧
      (x.value = v ∨ ∃ y ∈ t, y.key = k ∧ x.value = update y.value) := by
  by_cases h : t.Occupied k
  · obtain ⟨y, hy, hk⟩ := h
    exact ⟨_, mem_upsert.mpr (.inr (.inl ⟨y, hy, hk, rfl⟩)), hk, .inr ⟨y, hy, hk, rfl⟩⟩
  · exact ⟨_, mem_upsert.mpr (.inr (.inr ⟨h, rfl⟩)), rfl, .inl rfl⟩

end UniqueTable
