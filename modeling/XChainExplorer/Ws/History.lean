import XChainExplorer.Ws.CoinState

/-! # The remembered history

    A history is read through the hash remembered at a height. Blocks set it; actions lower the first
    action of their block and keep the hash; the seed walk touches first actions only. -/

namespace ChangeDetector
open Tables

variable {β H : Type*}

/-- The hash remembered at a height. -/
def hashAt (m : History H) (h : ℤ) : Option H := (m.lookup h).bind (·.hash)

variable {m : History H} {h : ℤ}

theorem hashAt_keep (p : ℤ → Bool) :
    hashAt (KeyedMap.keep p m) h = if p h then hashAt m h else none := by
  rw [hashAt, KeyedMap.lookup_keep]
  split_ifs <;> rfl

/-! ### Blocks -/

theorem hashAt_rememberBlock (b : BlockRow H) :
    hashAt (rememberBlock m b) h = if h = b.block_index then b.block_hash else hashAt m h := by
  unfold rememberBlock hashAt
  split_ifs with hb
  · rw [hb, AList.lookup_insert, Option.bind_some]
  · rw [AList.lookup_insert_ne hb]

theorem hashAt_foldl_rememberBlock (bs : List (BlockRow H)) :
    (∃ b ∈ bs, b.block_index = h ∧ hashAt (bs.foldl rememberBlock m) h = b.block_hash) ∨
      ((∀ b ∈ bs, b.block_index ≠ h) ∧ hashAt (bs.foldl rememberBlock m) h = hashAt m h) := by
  induction bs using List.reverseRecOn with
  | nil => exact .inr ⟨by simp, rfl⟩
  | append_singleton bs b ih =>
    rw [List.foldl_append, List.foldl_cons, List.foldl_nil, hashAt_rememberBlock]
    by_cases hb : h = b.block_index
    · exact .inl ⟨b, by simp, hb.symm, if_pos hb⟩
    · rw [if_neg hb]
      rcases ih with ⟨b', hmem, hrest⟩ | ⟨hno, hkeep⟩
      · exact .inl ⟨b', List.mem_append_left _ hmem, hrest⟩
      · refine .inr ⟨fun b' hmem => ?_, hkeep⟩
        rcases List.mem_append.mp hmem with hmem | hmem
        · exact hno b' hmem
        · rw [List.mem_singleton.mp hmem]
          exact Ne.symm hb

theorem mem_foldl_rememberBlock (bs : List (BlockRow H)) :
    h ∈ bs.foldl rememberBlock m ↔ h ∈ m ∨ ∃ b ∈ bs, b.block_index = h := by
  induction bs generalizing m with
  | nil => simp
  | cons b bs ih =>
    rw [List.foldl_cons, ih, rememberBlock, AList.mem_insert]
    simp only [List.mem_cons, exists_eq_or_imp]
    constructor
    · rintro ((rfl | hm) | hb)
      · exact .inr (.inl rfl)
      · exact .inl hm
      · exact .inr (.inr hb)
    · rintro (hm | rfl | hb)
      · exact .inl (.inr hm)
      · exact .inl (.inl rfl)
      · exact .inr hb

/-- Above the trim of the last block remembered. -/
def AboveTrim (bs : List (BlockRow H)) (h : ℤ) : Prop :=
  ∀ last, bs.getLast? = some last → last.block_index - HISTORY_DEPTH < h

theorem rememberBlocks_of_getLast? {bs : List (BlockRow H)} {last : BlockRow H}
    (hl : bs.getLast? = some last) :
    rememberBlocks m bs = trimHistory (bs.foldl rememberBlock m) last.block_index := by
  simp [rememberBlocks, hl]

theorem mem_rememberBlocks (bs : List (BlockRow H)) :
    h ∈ rememberBlocks m bs ↔ AboveTrim bs h ∧ (h ∈ m ∨ ∃ b ∈ bs, b.block_index = h) := by
  cases hl : bs.getLast? with
  | none =>
    rw [List.getLast?_eq_none_iff] at hl
    simp [hl, AboveTrim, rememberBlocks]
  | some last =>
    rw [rememberBlocks_of_getLast? hl, trimHistory, KeyedMap.mem_keep, mem_foldl_rememberBlock]
    simp [AboveTrim, hl]

theorem hashAt_rememberBlocks {bs : List (BlockRow H)} (ht : AboveTrim bs h) :
    (∃ b ∈ bs, b.block_index = h ∧ hashAt (rememberBlocks m bs) h = b.block_hash) ∨
      ((∀ b ∈ bs, b.block_index ≠ h) ∧ hashAt (rememberBlocks m bs) h = hashAt m h) := by
  cases hl : bs.getLast? with
  | none =>
    rw [List.getLast?_eq_none_iff] at hl
    exact .inr ⟨by simp [hl], by simp [hl, rememberBlocks]⟩
  | some last =>
    rw [rememberBlocks_of_getLast? hl, trimHistory, hashAt_keep, if_pos (by simpa using ht last hl)]
    exact hashAt_foldl_rememberBlock bs

/-! ### Actions -/

theorem hashAt_rememberAction (r : ActionRow β) : hashAt (rememberAction m r) h = hashAt m h := by
  unfold rememberAction hashAt
  by_cases hb : h = r.block_index
  · rw [hb, AList.lookup_insert]
    cases m.lookup r.block_index <;> rfl
  · rw [AList.lookup_insert_ne hb]

theorem hashAt_rememberActions (rs : List (ActionRow β)) :
    hashAt (rememberActions m rs) h = hashAt m h := by
  induction rs generalizing m with
  | nil => rfl
  | cons r rs ih =>
    rw [rememberActions, List.foldl_cons]
    exact (ih (m := rememberAction m r)).trans (hashAt_rememberAction r)

theorem mem_rememberActions (rs : List (ActionRow β)) :
    h ∈ rememberActions m rs ↔ h ∈ m ∨ ∃ r ∈ rs, r.block_index = h := by
  induction rs generalizing m with
  | nil => simp [rememberActions]
  | cons r rs ih =>
    rw [rememberActions, List.foldl_cons]
    refine (ih (m := rememberAction m r)).trans ?_
    rw [rememberAction, AList.mem_insert]
    simp only [List.mem_cons, exists_eq_or_imp]
    constructor
    · rintro ((rfl | hm) | hb)
      · exact .inr (.inl rfl)
      · exact .inl hm
      · exact .inr (.inr hb)
    · rintro (hm | rfl | hb)
      · exact .inl (.inr hm)
      · exact .inl (.inl rfl)
      · exact .inr hb

/-! ### The seed -/

theorem hashAt_seedFirstActions (rows : List (BlockRow H)) (next : ℤ) :
    hashAt (seedFirstActions m next rows) h = hashAt m h := by
  induction rows generalizing m next with
  | nil => rfl
  | cons row rows ih =>
    rw [seedFirstActions, ih]
    cases hm : m.lookup row.block_index with
    | none => rfl
    | some e =>
      simp only
      split_ifs
      · by_cases hb : h = row.block_index
        · rw [hashAt, hb, AList.lookup_insert, hashAt, hm]; rfl
        · rw [hashAt, AList.lookup_insert_ne hb, hashAt]
      · rfl

theorem mem_seedFirstActions (rows : List (BlockRow H)) (next : ℤ) :
    h ∈ seedFirstActions m next rows ↔ h ∈ m := by
  induction rows generalizing m next with
  | nil => rfl
  | cons row rows ih =>
    rw [seedFirstActions, ih]
    cases hm : m.lookup row.block_index with
    | none => rfl
    | some e =>
      simp only
      split_ifs
      · rw [AList.mem_insert]
        have : row.block_index ∈ m := AList.lookup_isSome.mp (by simp [hm])
        exact ⟨by rintro (rfl | h) <;> assumption, .inr⟩
      · rfl

theorem hashAt_seedHistory (rows : List (BlockRow H)) (b a : ℤ) :
    hashAt (seedHistory m rows b a) h = hashAt (rememberBlocks m rows) h := by
  unfold seedHistory
  simp only
  split_ifs
  · exact hashAt_seedFirstActions _ _
  · rfl

theorem mem_seedHistory (rows : List (BlockRow H)) (b a : ℤ) :
    h ∈ seedHistory m rows b a ↔ h ∈ rememberBlocks m rows := by
  unfold seedHistory
  simp only
  split_ifs
  · exact mem_seedFirstActions _ _
  · rfl

/-! ### The fork search -/

section fork
variable [DecidableEq H] {rows : List (BlockRow H)}

/-- A remembered height passes the fork search when the block found there has its hash. -/
theorem heightReplaced_eq_false :
    heightReplaced m rows h = false ↔ ∃ row, rows.find? (fun row => row.block_index = h) = some row ∧
      ∀ known, hashAt m h = some known → row.block_hash = some known := by
  unfold heightReplaced
  cases rows.find? fun row => row.block_index = h with
  | none => simp
  | some now =>
    have hhash : (m.lookup h).bind (·.hash) = hashAt m h := rfl
    rw [hhash]
    cases hashAt m h <;> simp

end fork

end ChangeDetector
