import XChainExplorer.Ws.LatchPasses
import XChainExplorer.Ws.PollAlone

/-! # What the latch and phase events follow

    Polls alone over a chain that only grows. A height is settled at an action index when no action
    of a block up to it lies above the index; the two passes read no higher than a settled height at
    or below the block cursor, so what they send comes after its block and after every action of the
    blocks up to it. -/

namespace ChangeDetector
open Tables TipProbe

variable {β H : Type*} {L : Ledger β H} {c c' : Chain β} {A A' B B' b h : ℤ}

/-! ### Settled heights -/

variable (L) in
/-- The chain has the height, and no action of a block up to it lies above `a`. An empty chain
    answers 0 for its height, which settles nothing. -/
def Settled (c : Chain β) (b a : ℤ) : Prop :=
  0 < b → b ≤ L.getMaxBlockIndex c ∧ ∀ r ∈ L.actionRows c, r.block_index ≤ b → r.action_index ≤ a

theorem ne_nil_of_pos (hb : 0 < b) (h : b ≤ L.getMaxBlockIndex c) : c ≠ [] := by
  rintro rfl
  simp only [Ledger.getMaxBlockIndex] at h
  omega

theorem le_height_of_pos (hb : 0 < b) (h : b ≤ L.getMaxBlockIndex c) : b ≤ L.height c := by
  rwa [getMaxBlockIndex_of_ne_nil (ne_nil_of_pos hb h)] at h

/-- Growth adds actions only in blocks above the old tip. -/
theorem mem_actionRows_of_le {r : ActionRow β} (hs : c <:+ c') (hb : 0 < b)
    (hmax : b ≤ L.getMaxBlockIndex c) (hr : r ∈ L.actionRows c') (hle : r.block_index ≤ b) :
    r ∈ L.actionRows c := by
  obtain ⟨hrow, hblk⟩ := mem_actionRows.mp hr
  refine mem_actionRows.mpr ⟨hrow, suffix_of_height_le (L := L) hblk hs ?_⟩
  rw [← hrow.block_index_eq]
  exact hle.trans (le_height_of_pos hb hmax)

theorem mem_blockRows_of_le {row : BlockRow H} (hs : c <:+ c') (hb : 0 < b)
    (hmax : b ≤ L.getMaxBlockIndex c) (hr : row ∈ L.blockRows c') (hle : row.block_index ≤ b) :
    row ∈ L.blockRows c := by
  obtain ⟨x, t, hsuf, h1, h⟩ := mem_blockRows.mp hr
  refine mem_blockRows.mpr ⟨x, t, suffix_of_height_le (L := L) hsuf hs ?_, h1, h⟩
  rw [← h1]
  exact hle.trans (le_height_of_pos hb hmax)

theorem Settled.mono (hs : c <:+ c') (h : Settled L c b A) : Settled L c' b A := by
  intro hb
  obtain ⟨hmax, hrows⟩ := h hb
  refine ⟨hmax.trans (getMaxBlockIndex_mono hs), fun r hr hle => hrows r ?_ hle⟩
  exact mem_actionRows_of_le hs hb hmax hr hle

theorem Settled.of_le (hb : B ≤ b) (hA : A ≤ A') (h : Settled L c b A) : Settled L c B A' := by
  intro hpos
  obtain ⟨hmax, hrows⟩ := h (by omega)
  exact ⟨by omega, fun r hr hle => (hrows r hr (by omega)).trans hA⟩

/-- Both tip marks of one moment, or the action mark read later. -/
theorem settled_of_le_max (hb : b ≤ L.getMaxBlockIndex c) : Settled L c b (actionCount c) :=
  fun _ => ⟨hb, fun _ hr _ => index_le_of_mem hr⟩

/-- Every action of the blocks below a row's block comes before the row. -/
theorem settled_of_row {r : ActionRow β} (hr : r ∈ L.actionRows c) :
    Settled L c (r.block_index - 1) r.action_index := by
  intro hpos
  have hst := (standsAt_of_mem_actionRows hr).le_max
  refine ⟨by omega, fun r' hr' hle => ?_⟩
  obtain ⟨hrow, hblk⟩ := mem_actionRows.mp hr
  obtain ⟨hrow', hblk'⟩ := mem_actionRows.mp hr'
  obtain ⟨x, t, k, hb, -, hi, hh⟩ := hrow
  rw [hb] at hblk
  have hbelow : r'.blk <:+ t := by
    refine suffix_of_height_le (L := L) hblk' ((List.suffix_cons x t).trans hblk) ?_
    rw [← hrow'.block_index_eq]
    rw [hh, height_cons] at hle
    omega
  have := hrow'.index_le.trans (actionCount_le_of_suffix hbelow)
  omega

variable (L) in
/-- Every block up to the height and every action of these blocks is at or below the cursors. -/
def Delivered (c : Chain β) (B A h : ℤ) : Prop := h ≤ B ∧ Settled L c h A

theorem Delivered.of_le (hh : b ≤ h) (hB : B ≤ B') (hA : A ≤ A') (hd : Delivered L c B A h) :
    Delivered L c B' A' b :=
  ⟨hh.trans (hd.1.trans hB), hd.2.of_le hh hA⟩

theorem Delivered.mono (hs : c <:+ c') (hd : Delivered L c B A h) : Delivered L c' B A h :=
  ⟨hd.1, hd.2.mono hs⟩

/-- The bound a poll computes is delivered. -/
theorem delivered_deliveredBlock {k : Coin H} {b a : ℤ} {last : Option ℤ} (hb : Settled L c b a)
    (hlast : ∀ x, last = some x → Settled L c (x - 1) k.actionIndex)
    (hd : deliveredBlock k b a last = some h) : Delivered L c k.blockIndex k.actionIndex h := by
  rw [deliveredBlock] at hd
  split_ifs at hd with ha
  · obtain rfl := Option.some.inj hd
    exact ⟨min_le_right _ _, hb.of_le (min_le_left _ _) ha⟩
  · obtain ⟨x, hx, rfl⟩ := Option.map_eq_some_iff.mp hd
    refine ⟨(min_le_left _ _).trans (min_le_right _ _), ?_⟩
    exact (hlast x hx).of_le (min_le_right _ _) le_rfl

/-- A pass reads up to a delivered height, or inside what its cursor holds. -/
theorem readCeiling_cases {k : Coin H} {b a since : ℤ} {last : Option ℤ} (hb : Settled L c b a)
    (hlast : ∀ x, last = some x → Settled L c (x - 1) k.actionIndex) :
    readCeiling b since (deliveredBlock k b a last) = since ∨
      Delivered L c k.blockIndex k.actionIndex (readCeiling b since (deliveredBlock k b a last)) := by
  cases hd : deliveredBlock k b a last with
  | none => exact .inl rfl
  | some h =>
    refine .inr ((delivered_deliveredBlock hb hlast hd).of_le ?_ le_rfl le_rfl)
    exact min_le_right _ _

/-! ### One cursor -/

section drained
variable {ρ : Type*} {pair : ρ → ℤ × ℤ} {shown : ρ → Bool} {T : StampedTable L ρ pair shown}
  {seed : ℤ} {cur : PairCursor} {sent : List (ℤ × ℤ)}

/-- What a cursor has sent: the stamped rows above the seed up to where it stands, in order. It
    stands at the seed or at a delivered height. -/
structure Drained (T : StampedTable L ρ pair shown) (c : Chain β) (B A seed : ℤ) (cur : PairCursor)
    (sent : List (ℤ × ℤ)) : Prop where
  above : (PairCursor.mk seed none).key ≤ cur.key
  sent_eq : sent = (T.pairs c).filter fun p => decide (seed < p.1 ∧ pairKey p ≤ cur.key)
  low : cur.block = seed ∨ Delivered L c B A cur.block

theorem lt_of_key_lt {p : ℤ × ℤ} (h : (PairCursor.mk seed none).key < pairKey p) : seed < p.1 := by
  by_contra hlo
  exact absurd h (not_lt.mpr (pairKey_le_whole.mpr (not_lt.mp hlo)))

/-- Growth adds stamped rows above every height at or below the old tip. -/
theorem filter_pairs_grow {P : ℤ × ℤ → Bool} {m : ℤ} (hs : c <:+ c')
    (hP : ∀ p, P p = true → 0 < p.1 ∧ p.1 ≤ m) (hm : m ≤ L.getMaxBlockIndex c) :
    (T.pairs c').filter P = (T.pairs c).filter P := by
  obtain ⟨new, hnew, hlow⟩ : ∃ new, stamped L T.stamps c' = stamped L T.stamps c ++ new ∧
      ∀ p ∈ new, L.height c < p.1 := stamped_of_suffix hs
  have hnone : new.filter P = [] := by
    rw [List.filter_eq_nil_iff]
    intro p hp hP'
    obtain ⟨hpos, hle⟩ := hP p hP'
    have := le_height_of_pos (hpos.trans_le hle) hm
    have := hlow p hp
    omega
  rw [StampedTable.pairs, hnew, List.filter_append, hnone, List.append_nil]
  rfl

theorem pairPage_grow {upTo : ℤ} {limit : ℕ} (hs : c <:+ c') (h0 : 0 ≤ seed)
    (ha : (PairCursor.mk seed none).key ≤ cur.key) (hup : upTo ≤ L.getMaxBlockIndex c) :
    pairPage T c' cur upTo limit = pairPage T c cur upTo limit := by
  rw [pairPage, pairPage, Page.fetch, Page.fetch, List.filter_filter, List.filter_filter]
  congr 1
  refine filter_pairs_grow hs (fun p hp => ?_) hup
  rw [Bool.and_eq_true, decide_eq_true_eq, decide_eq_true_eq] at hp
  have := lt_of_key_lt (ha.trans_lt hp.1)
  exact ⟨by omega, hp.2⟩

theorem Drained.block_le (hd : Drained T c B A seed cur sent) (hseed : seed ≤ B) : cur.block ≤ B := by
  rcases hd.low with h | h
  · rw [h]
    exact hseed
  · exact h.1

theorem Drained.grow (hs : c <:+ c') (h0 : 0 ≤ seed) (hB : B ≤ L.getMaxBlockIndex c)
    (hseed : seed ≤ B) (hd : Drained T c B A seed cur sent) : Drained T c' B A seed cur sent := by
  refine ⟨hd.above, ?_, hd.low.imp_right fun h => h.mono hs⟩
  rw [hd.sent_eq]
  refine (filter_pairs_grow hs (fun p hp => ?_) ((hd.block_le hseed).trans hB)).symm
  obtain ⟨hlo, hk⟩ := of_decide_eq_true hp
  exact ⟨by omega, block_le_of_key_le hk⟩

theorem Drained.advance (hB : B ≤ B') (hA : A ≤ A') (hd : Drained T c B A seed cur sent) :
    Drained T c B' A' seed cur sent :=
  ⟨hd.above, hd.sent_eq, hd.low.imp_right fun h => h.of_le le_rfl hB hA⟩

/-- A pass that read up to a delivered height keeps what its cursor has sent. -/
theorem Drained.next {upTo : ℤ} {limit : ℕ} (hl : 0 < limit) (hd : Drained T c B A seed cur sent)
    (hup : upTo = cur.block ∨ Delivered L c B A upTo) :
    Drained T c B A seed (pairCursorNext id cur (pairPage T c cur upTo limit) limit upTo)
      (sent ++ pairPage T c cur upTo limit) := by
  refine ⟨hd.above.trans key_le_next, ?_, ?_⟩
  · rw [hd.sent_eq]
    exact filter_append_pairPage hl hd.above
  · have hle : (pairCursorNext id cur (pairPage T c cur upTo limit) limit upTo).block ≤
        max cur.block upTo := block_next_le
    have hge : seed ≤ (pairCursorNext id cur (pairPage T c cur upTo limit) limit upTo).block := by
      have hkey : cur.key ≤ (pairCursorNext id cur (pairPage T c cur upTo limit) limit upTo).key :=
        key_le_next
      have := hd.above.trans hkey
      rw [PairCursor.key, PairCursor.key, Prod.Lex.toLex_le_toLex] at this
      rcases this with h | ⟨h, -⟩
      · exact h.le
      · exact h.le
    rcases hup with hup | hup
    · rw [hup, max_self, ← hup] at hle
      rcases hd.low with h | h
      · exact .inl (by omega)
      · exact .inr (h.of_le (by omega) le_rfl le_rfl)
    · rcases le_max_iff.mp hle with hle | hle
      · rcases hd.low with h | h
        · exact .inl (by omega)
        · exact .inr (h.of_le hle le_rfl le_rfl)
      · exact .inr (hup.of_le hle le_rfl le_rfl)

end drained

/-! ### The log -/

section log
variable {seed mark : ℤ} {pre out new : List (Emitted β H)} {e : Emitted β H}

variable (L) in
/-- The NEW_BLOCK of every block above the seed up to the height, and the NEW_ACTION of every action
    above the seed's in these blocks. -/
def Preceded (c : Chain β) (seed mark h : ℤ) (pre : List (Emitted β H)) : Prop :=
  (∀ row ∈ L.blockRows c, seed < row.block_index → row.block_index ≤ h →
    Emitted.tip (.block row) ∈ pre) ∧
  ∀ r ∈ L.actionRows c, mark < r.action_index → r.block_index ≤ h → Emitted.tip (.action r) ∈ pre

variable (L) in
/-- Before a latch or phase event stand its block and every action of the blocks up to it, and
    after it stands no action of these blocks. -/
def Timely (c : Chain β) (seed mark : ℤ) (out : List (Emitted β H)) : Prop :=
  ∀ pre e post p, out = pre ++ e :: post → e.latched = some p →
    Preceded L c seed mark p.1 pre ∧ ∀ r, Emitted.tip (.action r) ∈ post → p.1 < r.block_index

theorem Preceded.append (hp : Preceded L c seed mark h pre) (new : List (Emitted β H)) :
    Preceded L c seed mark h (pre ++ new) :=
  ⟨fun row hr hlo hhi => List.mem_append_left _ (hp.1 row hr hlo hhi),
    fun r hr hlo hhi => List.mem_append_left _ (hp.2 r hr hlo hhi)⟩

theorem Preceded.grow (hs : c <:+ c') (hpos : 0 < h) (hmax : h ≤ L.getMaxBlockIndex c)
    (hp : Preceded L c seed mark h pre) : Preceded L c' seed mark h pre :=
  ⟨fun row hr hlo hhi => hp.1 row (mem_blockRows_of_le hs hpos hmax hr hhi) hlo hhi,
    fun r hr hlo hhi => hp.2 r (mem_actionRows_of_le hs hpos hmax hr hhi) hlo hhi⟩

theorem Timely.nil : Timely L c seed mark ([] : List (Emitted β H)) := by
  intro pre e post p hout
  simp at hout

theorem Timely.concat (ht : Timely L c seed mark out)
    (hlatch : ∀ p, e.latched = some p → Preceded L c seed mark p.1 out)
    (haction : ∀ r, e = .tip (.action r) → ∀ x ∈ out, ∀ p, x.latched = some p → p.1 < r.block_index) :
    Timely L c seed mark (out ++ [e]) := by
  intro pre x post p hout hp
  rcases List.eq_nil_or_concat post with rfl | ⟨post, y, rfl⟩
  · obtain ⟨rfl, hx⟩ := List.append_inj' hout rfl
    obtain rfl := List.singleton_inj.mp hx
    exact ⟨hlatch p hp, by simp⟩
  · rw [List.concat_eq_append, ← List.cons_append, ← List.append_assoc] at hout
    obtain ⟨hold, hy⟩ := List.append_inj' hout rfl
    obtain rfl := List.singleton_inj.mp hy
    obtain ⟨hpre, hpost⟩ := ht pre x post p hold hp
    refine ⟨hpre, fun r hr => ?_⟩
    rw [List.concat_eq_append, List.mem_append, List.mem_singleton] at hr
    rcases hr with hr | hr
    · exact hpost r hr
    · refine haction r hr.symm x ?_ p hp
      rw [hold]
      exact List.mem_append_right _ List.mem_cons_self

/-- Events that are no actions keep the order, where each comes after what precedes it. -/
theorem Timely.append (ht : Timely L c seed mark out)
    (hnew : ∀ e ∈ new, (∀ p, e.latched = some p → Preceded L c seed mark p.1 out) ∧
      ∀ r, e ≠ .tip (.action r)) : Timely L c seed mark (out ++ new) := by
  induction new using List.reverseRecOn with
  | nil => rwa [List.append_nil]
  | append_singleton new e ih =>
    rw [← List.append_assoc]
    have ih := ih fun e he => hnew e (List.mem_append_left _ he)
    obtain ⟨hlatch, hno⟩ := hnew e (List.mem_append_right _ (List.mem_singleton_self e))
    exact ih.concat (fun p hp => (hlatch p hp).append new) fun r hr => absurd hr (hno r)

theorem Timely.grow (hs : c <:+ c') (ht : Timely L c seed mark out)
    (hout : ∀ e ∈ out, ∀ p, e.latched = some p → 0 < p.1 ∧ p.1 ≤ L.getMaxBlockIndex c) :
    Timely L c' seed mark out := by
  intro pre e post p hsplit hp
  obtain ⟨hpre, hpost⟩ := ht pre e post p hsplit hp
  obtain ⟨hpos, hmax⟩ := hout e (hsplit ▸ List.mem_append_right _ List.mem_cons_self) p hp
  exact ⟨hpre.grow hs hpos hmax, hpost⟩

end log

/-! ### A seeded coin -/

/-- What holds of a seeded coin's cursors and of everything emitted, whatever the poll waits for. -/
structure Live (S : Latches L) (c : Chain β) (B A seed mark : ℤ) (closed xcall : PairCursor)
    (out : List (Emitted β H)) : Prop where
  seed_nonneg : 0 ≤ seed
  seed_le : seed ≤ B
  blocks : ∀ row ∈ L.blockRows c, seed < row.block_index → row.block_index ≤ B →
    Emitted.tip (.block row) ∈ out
  actions : ∀ r ∈ L.actionRows c, mark < r.action_index → r.action_index ≤ A →
    Emitted.tip (.action r) ∈ out
  closed : Drained S.bet_feeds c B A seed closed (closedPairs out)
  xcall : Drained S.xcalls c B A seed xcall (resolvedPairs out)
  latched : ∀ e ∈ out, ∀ p, e.latched = some p → seed < p.1 ∧ Delivered L c B A p.1
  timely : Timely L c seed mark out

section live
variable {S : Latches L} {seed mark : ℤ} {closed xcall : PairCursor} {out : List (Emitted β H)}

@[simp] theorem closedPairs_append (out new : List (Emitted β H)) :
    closedPairs (out ++ new) = closedPairs out ++ closedPairs new := List.filterMap_append

@[simp] theorem resolvedPairs_append (out new : List (Emitted β H)) :
    resolvedPairs (out ++ new) = resolvedPairs out ++ resolvedPairs new := List.filterMap_append

@[simp] theorem closedPairs_tip (events : List (Event β H)) :
    closedPairs (events.map Emitted.tip) = [] := by
  induction events with
  | nil => rfl
  | cons e events ih => exact ih

@[simp] theorem resolvedPairs_tip (events : List (Event β H)) :
    resolvedPairs (events.map Emitted.tip) = [] := by
  induction events with
  | nil => rfl
  | cons e events ih => exact ih

/-- The coin is seeded and nothing has gone out. -/
theorem Live.seeded (hB : 0 ≤ B) :
    Live S c B A B A ⟨B, none⟩ ⟨B, none⟩ ([] : List (Emitted β H)) where
  seed_nonneg := hB
  seed_le := le_rfl
  blocks := fun row _ hlo hhi => by omega
  actions := fun r _ hlo hhi => by omega
  closed := by
    refine ⟨le_rfl, ?_, .inl rfl⟩
    symm
    rw [closedPairs, List.filterMap_nil, List.filter_eq_nil_iff]
    intro p _ hp
    obtain ⟨hlo, hhi⟩ := of_decide_eq_true hp
    exact absurd (pairKey_le_whole.mp hhi) (not_le.mpr hlo)
  xcall := by
    refine ⟨le_rfl, ?_, .inl rfl⟩
    symm
    rw [resolvedPairs, List.filterMap_nil, List.filter_eq_nil_iff]
    intro p _ hp
    obtain ⟨hlo, hhi⟩ := of_decide_eq_true hp
    exact absurd (pairKey_le_whole.mp hhi) (not_le.mpr hlo)
  latched := by simp
  timely := Timely.nil

theorem Live.grow (hs : c <:+ c') (hB : B ≤ L.getMaxBlockIndex c) (hA : A ≤ actionCount c)
    (hl : Live S c B A seed mark closed xcall out) : Live S c' B A seed mark closed xcall out where
  seed_nonneg := hl.seed_nonneg
  seed_le := hl.seed_le
  blocks := by
    intro row hr hlo hhi
    have h0 := hl.seed_nonneg
    exact hl.blocks row (mem_blockRows_of_le hs (by omega) hB hr hhi) hlo hhi
  actions := by
    intro r hr hlo hhi
    -- a row the old chain does not hold lies above its count
    by_cases hold : r ∈ L.actionRows c
    · exact hl.actions r hold hlo hhi
    · obtain ⟨hrow, -⟩ := mem_actionRows.mp hr
      obtain ⟨r', hr', hi⟩ := exists_row (L := L) hrow.index_pos (hhi.trans hA)
      exact absurd (row_unique hr (actionRows_subset hs hr') hi.symm ▸ hr') hold
  closed := hl.closed.grow hs hl.seed_nonneg hB hl.seed_le
  xcall := hl.xcall.grow hs hl.seed_nonneg hB hl.seed_le
  latched := fun e he p hp => (hl.latched e he p hp).imp_right fun h => h.mono hs
  timely := by
    refine hl.timely.grow hs fun e he p hp => ?_
    obtain ⟨hlo, hd⟩ := hl.latched e he p hp
    have h0 := hl.seed_nonneg
    exact ⟨by omega, hd.1.trans hB⟩

/-- The block cursor moves up over blocks that were sent. -/
theorem Live.sendBlocks {rows : List (BlockRow H)} (hB : B ≤ B')
    (hrows : ∀ row ∈ L.blockRows c, B < row.block_index → row.block_index ≤ B' → row ∈ rows)
    (hl : Live S c B A seed mark closed xcall out) :
    Live S c B' A seed mark closed xcall (out ++ (rows.map Event.block).map Emitted.tip) where
  seed_nonneg := hl.seed_nonneg
  seed_le := hl.seed_le.trans hB
  blocks := by
    intro row hr hlo hhi
    by_cases hold : row.block_index ≤ B
    · exact List.mem_append_left _ (hl.blocks row hr hlo hold)
    · refine List.mem_append_right _ ?_
      rw [List.map_map]
      exact List.mem_map_of_mem (hrows row hr (not_le.mp hold) hhi)
  actions := fun r hr hlo hhi => List.mem_append_left _ (hl.actions r hr hlo hhi)
  closed := by
    rw [closedPairs_append, closedPairs_tip, List.append_nil]
    exact hl.closed.advance hB le_rfl
  xcall := by
    rw [resolvedPairs_append, resolvedPairs_tip, List.append_nil]
    exact hl.xcall.advance hB le_rfl
  latched := by
    intro e he p hp
    rcases List.mem_append.mp he with he | he
    · exact (hl.latched e he p hp).imp_right fun h => h.of_le le_rfl hB le_rfl
    · obtain ⟨x, -, rfl⟩ := List.mem_map.mp he
      simp [Emitted.latched] at hp
  timely := by
    refine hl.timely.append fun e he => ?_
    rw [List.map_map] at he
    obtain ⟨row, -, rfl⟩ := List.mem_map.mp he
    exact ⟨by simp [Emitted.latched], by simp⟩

/-- A row above the action cursor goes out. -/
theorem Live.sendAction {row : ActionRow β} (hr : row ∈ L.actionRows c) (hA : A < row.action_index)
    (hl : Live S c B A seed mark closed xcall out) :
    Live S c B A seed mark closed xcall (out ++ [.tip (.action row)]) where
  seed_nonneg := hl.seed_nonneg
  seed_le := hl.seed_le
  blocks := fun row hr hlo hhi => List.mem_append_left _ (hl.blocks row hr hlo hhi)
  actions := fun r hr hlo hhi => List.mem_append_left _ (hl.actions r hr hlo hhi)
  closed := by
    rw [closedPairs_append]
    exact (List.append_nil (closedPairs out)).symm ▸ hl.closed
  xcall := by
    rw [resolvedPairs_append]
    exact (List.append_nil (resolvedPairs out)).symm ▸ hl.xcall
  latched := by
    intro e he p hp
    rcases List.mem_append.mp he with he | he
    · exact hl.latched e he p hp
    · rw [List.mem_singleton.mp he] at hp
      simp [Emitted.latched] at hp
  timely := by
    refine hl.timely.concat (by simp [Emitted.latched]) ?_
    rintro r ⟨⟩ e he p hp
    obtain ⟨hlo, hd⟩ := hl.latched e he p hp
    have h0 := hl.seed_nonneg
    by_contra hle
    have := (hd.2 (by omega)).2 row hr (not_lt.mp hle)
    omega

/-- The action cursor moves up over actions that were sent. -/
theorem Live.advance (hA : A ≤ A')
    (hrows : ∀ r ∈ L.actionRows c, A < r.action_index → r.action_index ≤ A' →
      Emitted.tip (.action r) ∈ out)
    (hl : Live S c B A seed mark closed xcall out) : Live S c B A' seed mark closed xcall out where
  seed_nonneg := hl.seed_nonneg
  seed_le := hl.seed_le
  blocks := hl.blocks
  actions := by
    intro r hr hlo hhi
    by_cases hold : r.action_index ≤ A
    · exact hl.actions r hr hlo hold
    · exact hrows r hr (not_le.mp hold) hhi
  closed := hl.closed.advance le_rfl hA
  xcall := hl.xcall.advance le_rfl hA
  latched := fun e he p hp => (hl.latched e he p hp).imp_right fun h => h.of_le le_rfl le_rfl hA
  timely := hl.timely

/-- What stands before an event of a delivered height has gone out. -/
theorem Live.preceded (hl : Live S c B A seed mark closed xcall out) (hpos : 0 < h)
    (hd : Delivered L c B A h) : Preceded L c seed mark h out :=
  ⟨fun row hr hlo hhi => hl.blocks row hr hlo (hhi.trans hd.1),
    fun r hr hlo hhi => hl.actions r hr hlo ((hd.2 hpos).2 r hr hhi)⟩

/-- The events of a pass: each reports a row of the page, and none is an action. -/
theorem Live.latched_append {new : List (Emitted β H)} {page : List (ℤ × ℤ)} {upTo : ℤ} {cur : PairCursor}
    (hnew : ∀ e ∈ new, ∃ p ∈ page, e.latched = some p ∧ ∀ r, e ≠ .tip (.action r))
    (hpage : ∀ p ∈ page, seed < p.1 ∧ cur.block ≤ p.1 ∧ p.1 ≤ upTo)
    (hcur : cur.block = seed ∨ Delivered L c B A cur.block)
    (hup : upTo = cur.block ∨ Delivered L c B A upTo)
    (hl : Live S c B A seed mark closed xcall out) :
    (∀ e ∈ out ++ new, ∀ p, e.latched = some p → seed < p.1 ∧ Delivered L c B A p.1) ∧
      Timely L c seed mark (out ++ new) := by
  have hd : ∀ p ∈ page, seed < p.1 ∧ Delivered L c B A p.1 := by
    intro p hp
    obtain ⟨hlo, hge, hhi⟩ := hpage p hp
    refine ⟨hlo, ?_⟩
    rcases hup with hup | hup
    · rcases hcur with hcur | hcur
      · omega
      · exact hcur.of_le (by omega) le_rfl le_rfl
    · exact hup.of_le hhi le_rfl le_rfl
  refine ⟨fun e he p hp => ?_, hl.timely.append fun e he => ?_⟩
  · rcases List.mem_append.mp he with he | he
    · exact hl.latched e he p hp
    · obtain ⟨q, hq, hlatch, -⟩ := hnew e he
      obtain rfl := Option.some.inj (hlatch.symm.trans hp)
      exact hd q hq
  · obtain ⟨q, hq, hlatch, hno⟩ := hnew e he
    refine ⟨fun p hp => ?_, hno⟩
    obtain rfl := Option.some.inj (hlatch.symm.trans hp)
    have h0 := hl.seed_nonneg
    exact hl.preceded (by have := (hd q hq).1; omega) (hd q hq).2

theorem Drained.page {ρ : Type*} {pair : ρ → ℤ × ℤ} {shown : ρ → Bool}
    {T : StampedTable L ρ pair shown} {cur : PairCursor} {sent : List (ℤ × ℤ)} {upTo : ℤ} {limit : ℕ}
    (hd : Drained T c B A seed cur sent) {p : ℤ × ℤ} (hp : p ∈ pairPage T c cur upTo limit) :
    seed < p.1 ∧ cur.block ≤ p.1 ∧ p.1 ≤ upTo := by
  obtain ⟨-, hk, hhi⟩ := mem_pairPage hp
  exact ⟨lt_of_key_lt (hd.above.trans_lt hk), block_le_of_key_lt hk, hhi⟩

/-- `checkBetLatches` sends its page. -/
theorem Live.sendClosed {rows : List BetFeed} {upTo : ℤ} {limit : ℕ} (hlim : 0 < limit)
    (hrows : rows.map BetFeed.pair = pairPage S.bet_feeds c closed upTo limit)
    (hup : upTo = closed.block ∨ Delivered L c B A upTo)
    (hl : Live S c B A seed mark closed xcall out) :
    Live S c B A seed mark (pairCursorNext BetFeed.pair closed rows limit upTo) xcall
      (out ++ rows.map fun feed => Emitted.betClosed (betClosedEvent feed)) := by
  have hnew : ∀ e ∈ rows.map fun feed => (Emitted.betClosed (betClosedEvent feed) : Emitted β H),
      ∃ p ∈ pairPage S.bet_feeds c closed upTo limit, e.latched = some p ∧
        ∀ r, e ≠ .tip (.action r) := by
    intro e he
    obtain ⟨feed, hfeed, rfl⟩ := List.mem_map.mp he
    exact ⟨feed.pair, hrows ▸ List.mem_map_of_mem hfeed, rfl, by simp⟩
  obtain ⟨hlatched, htimely⟩ := hl.latched_append hnew (fun p hp => hl.closed.page hp) hl.closed.low hup
  refine ⟨hl.seed_nonneg, hl.seed_le, ?_, ?_, ?_, ?_, hlatched, htimely⟩
  · exact fun row hr hlo hhi => List.mem_append_left _ (hl.blocks row hr hlo hhi)
  · exact fun r hr hlo hhi => List.mem_append_left _ (hl.actions r hr hlo hhi)
  · have hpairs : closedPairs (rows.map fun feed => (Emitted.betClosed (betClosedEvent feed) : Emitted β H)) =
        pairPage S.bet_feeds c closed upTo limit := by
      rw [closedPairs, List.filterMap_map, ← hrows, ← List.filterMap_eq_map]
      rfl
    rw [closedPairs_append, hpairs, pairCursorNext_map, hrows]
    exact hl.closed.next hlim hup
  · have hnone : resolvedPairs (rows.map fun feed => (Emitted.betClosed (betClosedEvent feed) : Emitted β H)) = [] := by
      rw [resolvedPairs, List.filterMap_map, List.filterMap_eq_nil_iff]
      exact fun _ _ => rfl
    rw [resolvedPairs_append, hnone, List.append_nil]
    exact hl.xcall

/-- `checkXcallPhases` sends its page. -/
theorem Live.sendResolved {rows : List Xcall} {upTo : ℤ} {limit : ℕ} (hlim : 0 < limit)
    (hrows : rows.map Xcall.pair = pairPage S.xcalls c xcall upTo limit)
    (hup : upTo = xcall.block ∨ Delivered L c B A upTo)
    (hl : Live S c B A seed mark closed xcall out) :
    Live S c B A seed mark closed (pairCursorNext Xcall.pair xcall rows limit upTo)
      (out ++ rows.map fun call => Emitted.xcallPhase (xcallPhaseEvent call)) := by
  have hnew : ∀ e ∈ rows.map fun call => (Emitted.xcallPhase (xcallPhaseEvent call) : Emitted β H),
      ∃ p ∈ pairPage S.xcalls c xcall upTo limit, e.latched = some p ∧
        ∀ r, e ≠ .tip (.action r) := by
    intro e he
    obtain ⟨call, hcall, rfl⟩ := List.mem_map.mp he
    exact ⟨call.pair, hrows ▸ List.mem_map_of_mem hcall, rfl, by simp⟩
  obtain ⟨hlatched, htimely⟩ := hl.latched_append hnew (fun p hp => hl.xcall.page hp) hl.xcall.low hup
  refine ⟨hl.seed_nonneg, hl.seed_le, ?_, ?_, ?_, ?_, hlatched, htimely⟩
  · exact fun row hr hlo hhi => List.mem_append_left _ (hl.blocks row hr hlo hhi)
  · exact fun r hr hlo hhi => List.mem_append_left _ (hl.actions r hr hlo hhi)
  · have hnone : closedPairs (rows.map fun call => (Emitted.xcallPhase (xcallPhaseEvent call) : Emitted β H)) = [] := by
      rw [closedPairs, List.filterMap_map, List.filterMap_eq_nil_iff]
      exact fun _ _ => rfl
    rw [closedPairs_append, hnone, List.append_nil]
    exact hl.closed
  · have hpairs : resolvedPairs (rows.map fun call => (Emitted.xcallPhase (xcallPhaseEvent call) : Emitted β H)) =
        pairPage S.xcalls c xcall upTo limit := by
      rw [resolvedPairs, List.filterMap_map, ← hrows, ← List.filterMap_eq_map]
      rfl
    rw [resolvedPairs_append, hpairs, pairCursorNext_map, hrows]
    exact hl.xcall.next hlim hup

end live

end ChangeDetector
