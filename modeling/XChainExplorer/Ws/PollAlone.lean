import XChainExplorer.Ws.Growth

/-! # Polls alone over a growing chain

    With no on-demand seed beside the poll, no tip the poll reads is older than the one recorded
    before it and no page comes back short of the tip read before it, so no rewind is ever owed
    and no fork search runs. -/

namespace ChangeDetector
open Tables TipProbe

variable {β H : Type*} {L : Ledger β H} {cfg : Config} {c c' : Chain β} {k : Coin H}

/-- The step starts no on-demand seed. -/
def PollOnly (l : Label β) : Prop := l ≠ .seedStart

instance [DecidableEq β] (l : Label β) : Decidable (PollOnly l) := inferInstanceAs (Decidable (_ ≠ _))

variable (L cfg) in
/-- What a poll that runs alone has read is no older than what was recorded before it. -/
def PollQuiet (c : Chain β) (lastTip : Option (Tip H)) : PollPc β H → Prop
  | .tip (.tip got) => ∀ cur prev, got = some (some cur) → lastTip = some prev →
      ∃ z w, z <:+ w ∧ L.tipRow z = some prev ∧ L.tipRow w = some cur
  | .tip (.row prev _ got) => Names L c prev ∧ ∀ found, got = some found → found = some prev.hash
  | .fork _ _ _ _ => False
  | .blocks b a since got => (since < b ∧ b ≤ L.getMaxBlockIndex c ∧ a ≤ actionCount c) ∧
      ∀ rows, got = some rows → rows.length < cfg.fetchLimit →
        b ≤ Page.reached (·.block_index) since rows
  | .actions a since got => (since < a ∧ a ≤ actionCount c) ∧
      ∀ rows, got = some rows → rows.length < cfg.fetchLimit →
        a ≤ Page.reached (·.action_index) since rows
  | .fanout a since batch _ => batch.length < cfg.fetchLimit →
      a ≤ Page.reached (·.action_index) since batch
  | _ => True

variable (L cfg) in
structure Quiet (d : Det β H) : Prop where
  grown : Grown L cfg d
  alone : d.seeding = .idle
  pending : d.coin.pendingReorg = false
  poll : PollQuiet L cfg d.chain d.lastTip d.poll

theorem PollQuiet.mono {lastTip : Option (Tip H)} (hc : c <:+ c') {pc : PollPc β H}
    (h : PollQuiet L cfg c lastTip pc) : PollQuiet L cfg c' lastTip pc := by
  have hB := getMaxBlockIndex_mono (L := L) hc
  have hA := actionCount_le_of_suffix hc
  rcases pc with _ | (got | ⟨prev, cur, got⟩ | got | ⟨b, got⟩) | _ | _ | _ | _ | _ | _
  case tip.row =>
    obtain ⟨⟨z, hz, hn⟩, hf⟩ := h
    exact ⟨⟨z, hz.trans hc, hn⟩, hf⟩
  case blocks => exact ⟨⟨h.1.1, h.1.2.1.trans hB, h.1.2.2.trans hA⟩, h.2⟩
  case actions => exact ⟨⟨h.1.1, h.1.2.trans hA⟩, h.2⟩
  all_goals exact h

/-- The row of a block on the chain still carries its hash. -/
theorem rowAt_of_names {prev : Tip H} (h : Names L c prev) :
    L.rowAt c prev.index = some prev.hash := by
  obtain ⟨z, hz, hn⟩ := h
  obtain ⟨hne, hi, hh⟩ := tipRow_eq_some.mp hn
  exact rowAt_eq_some.mpr ⟨z, hne, hz, hi.symm, hh.symm⟩

theorem pollQuiet_actionStep {lastTip : Option (Tip H)} {a : ℤ} (ha : a ≤ actionCount c) :
    PollQuiet L cfg c lastTip (actionStep k a : PollPc β H) := by
  unfold actionStep
  split_ifs with h
  · exact ⟨⟨h, ha⟩, by simp⟩
  · trivial

theorem pollQuiet_blockStep {lastTip : Option (Tip H)} {b a : ℤ}
    (hb : b ≤ L.getMaxBlockIndex c) (ha : a ≤ actionCount c) :
    PollQuiet L cfg c lastTip (blockStep k b a : PollPc β H) := by
  unfold blockStep
  split_ifs with h
  · exact ⟨⟨h, hb, ha⟩, by simp⟩
  · exact pollQuiet_actionStep ha

/-- A short block page reached the tip that was read before it. -/
theorem le_reached_blocks {b since : ℤ} {limit : ℕ} (h0 : 0 ≤ since) (hs : since < b)
    (hb : b ≤ L.getMaxBlockIndex c) (hl : (L.getBlocksSince c since limit).length < limit) :
    b ≤ Page.reached (·.block_index) since (L.getBlocksSince c since limit) := by
  cases c with
  | nil => simp only [Ledger.getMaxBlockIndex] at hb; omega
  | cons x t =>
    simp only [Ledger.getMaxBlockIndex] at hb
    have hrow : (⟨L.height (x :: t), L.hash (x :: t), x.actions.length⟩ : BlockRow H) ∈
        L.blockRows (x :: t) := mem_blockRows.mpr ⟨x, t, List.suffix_rfl, rfl, rfl, rfl⟩
    have := (Page.mem_fetch_of_short hl).mpr ⟨hrow, by simp only; omega⟩
    exact hb.trans (Page.le_reached (Page.fetch_pairwise blockRows_pairwise) this)

theorem le_reached_actions {a since : ℤ} {limit : ℕ} (h0 : 0 ≤ since) (hs : since < a)
    (ha : a ≤ actionCount c) (hl : (L.getActionsSince c since limit none).length < limit) :
    a ≤ Page.reached (·.action_index) since (L.getActionsSince c since limit none) := by
  obtain ⟨r, hr, rfl⟩ := exists_row (L := L) (show 0 < a by omega) ha
  have hr' : r ∈ (L.actionRows c).filter fun r => (none : Option ℤ).all fun u =>
      decide (r.action_index ≤ u) := by simpa using hr
  exact Page.le_reached (Page.fetch_pairwise (actionRows_pairwise.filter _))
    ((Page.mem_fetch_of_short hl).mpr ⟨hr', hs⟩)

theorem Quiet.init (c : Chain β) : Quiet L cfg (Det.init c : Det β H) :=
  ⟨Grown.init c, rfl, rfl, trivial⟩

variable [DecidableEq H]

/-- A later tip of the same chain is not taken for a replacement. -/
theorem blockReplaced_of_suffix {z w : Chain β} {prev cur : Tip H} (hzw : z <:+ w)
    (hz : L.tipRow z = some prev) (hw : L.tipRow w = some cur) :
    blockReplaced (some prev) cur ≠ .verdict true := by
  obtain ⟨-, hi, hh⟩ := tipRow_eq_some.mp hz
  obtain ⟨-, hi', hh'⟩ := tipRow_eq_some.mp hw
  have hle := height_le_of_suffix (L := L) hzw
  simp only [blockReplaced]
  rw [if_neg (by omega)]
  split_ifs with hne
  · simp
  · rw [eq_of_suffix_of_height (L := L) hzw List.suffix_rfl (by omega)] at hh
    simp [hashDiffers, hh, hh']

/-- The reorg check of a poll that runs alone finds nothing replaced. -/
theorem PollQuiet.checked {lastTip cur : Option (Tip H)} {t : TipPc H} {reorged : Bool}
    (h : PollQuiet L cfg c lastTip (.tip t)) (hr : t.run lastTip = some (.checked cur reorged)) :
    reorged = false := by
  rcases run_eq_checked hr with ⟨-, -, hr⟩ | ⟨x, rfl, -, hv⟩ | ⟨prev, x, found, rfl, -, hr⟩
  · exact hr
  · cases lastTip with
    | none => simpa [blockReplaced] using hv.symm
    | some prev =>
      obtain ⟨z, w, hzw, hz, hw⟩ := h x prev rfl rfl
      cases reorged with
      | false => rfl
      | true => exact absurd hv (blockReplaced_of_suffix hzw hz hw)
  · rw [hr, h.2 found rfl]
    simp [blockReplacedRow, hashDiffers]

/-- A step of a poll that runs alone over a growing chain owes no rewind and announces none. -/
theorem Quiet.step {d d' : Det β H} {l : Label β} {evs : List (Event β H)} (h : Quiet L cfg d)
    (hg : Grows d l) (hl : PollOnly l) (ht : Trans L cfg d l d' evs) :
    Quiet L cfg d' ∧ ∀ f x, Event.reorg f x ∉ evs := by
  have hpoll := h.poll
  have hw : WindowCovers d l := by
    intro b a heights hp
    rw [hp] at hpoll
    exact absurd hpoll id
  obtain ⟨hgrown, hno⟩ := h.grown.step hg hw ht
  refine ⟨?_, hno⟩
  have hgp := h.grown.poll
  cases ht with
  | chain c => exact ⟨hgrown, h.alone, h.pending, hpoll.mono hg⟩
  | tick => exact ⟨hgrown, h.alone, h.pending, by simp [PollQuiet]⟩
  | fail | finish | readSeedBlocks | seeded => exact ⟨hgrown, h.alone, h.pending, trivial⟩
  | readTip hp ht =>
    rw [hp] at hpoll
    refine ⟨hgrown, h.alone, h.pending, ?_⟩
    rcases read_eq_some ht with ⟨rfl, rfl⟩ | ⟨prev, cur, rfl, rfl⟩ | ⟨rfl, rfl⟩ | ⟨b, rfl, rfl⟩
    · intro cur prev hcur hprev
      obtain ⟨z, hz, hn⟩ := h.grown.lastTip prev hprev
      exact ⟨z, d.chain, hz, hn, Option.some.inj hcur⟩
    · refine ⟨hpoll.1, ?_⟩
      rintro found ⟨⟩
      exact rowAt_of_names hpoll.1
    · trivial
    · trivial
  | readFork hp => rw [hp] at hpoll; exact absurd hpoll id
  | readBlocks hp =>
    have hs := h.grown.shape.poll
    rw [hp] at hpoll hs
    obtain ⟨h0, -⟩ := h.grown.cursors hs.1
    refine ⟨hgrown, h.alone, h.pending, ⟨hpoll.1, ?_⟩⟩
    rintro rows ⟨⟩ hshort
    exact le_reached_blocks (hs.2.1 ▸ h0) hpoll.1.1 hpoll.1.2.1 hshort
  | readActions hp =>
    have hs := h.grown.shape.poll
    rw [hp] at hpoll hs
    obtain ⟨-, -, h0, -⟩ := h.grown.cursors hs.1
    refine ⟨hgrown, h.alone, h.pending, ⟨hpoll.1, ?_⟩⟩
    rintro rows ⟨⟩ hshort
    exact le_reached_actions (hs.2.1 ▸ h0) hpoll.1.1 hpoll.1.2 hshort
  | askTip hp ht =>
    refine ⟨hgrown, h.alone, h.pending, ?_⟩
    rcases run_eq_ask ht with ⟨cur, prev, rfl, hr, rfl⟩ | ⟨b, rfl, rfl⟩
    · exact ⟨h.grown.lastTip prev (blockReplaced_readRow hr).1, by simp⟩
    · trivial
  | checked hp ht =>
    rw [hp] at hpoll
    refine ⟨hgrown, h.alone, ?_, trivial⟩
    simp [Det.checked, h.pending, hpoll.checked ht]
  | seed => exact ⟨hgrown, h.alone, rfl, trivial⟩
  | searchFork hp ht hi hpend => simp [h.pending] at hpend
  | rewind hr hc =>
    rcases hr with ⟨t, -, -, -, hpend, -⟩ | ⟨heights, rows, hp, -⟩
    · simp [h.pending] at hpend
    · rw [hp] at hpoll
      exact absurd hpoll id
  | proceed hp ht hi =>
    rw [hp, run_eq_done.mp ht] at hgp
    exact ⟨hgrown, h.alone, h.pending, pollQuiet_blockStep hgp.1.1.2 (hgp.1.2 _ rfl).2⟩
  | blocksSent hp =>
    rw [hp] at hpoll
    rw [blocksSent_eq] at hgrown ⊢
    refine ⟨hgrown, h.alone, ?_, pollQuiet_actionStep hpoll.1.2.2⟩
    simp only [h.pending, Bool.false_or, decide_eq_false_iff_not, not_and, not_lt]
    exact hpoll.2 _ rfl
  | sendRow hr =>
    refine ⟨hgrown, h.alone, h.pending, ?_⟩
    rcases hr with ⟨hp, hb⟩ | hp <;> rw [hp] at hpoll
    · exact hpoll.2 _ rfl
    · exact hpoll
  | actionsSent hr =>
    rw [actionsSent_eq] at hgrown ⊢
    refine ⟨hgrown, h.alone, ?_, trivial⟩
    simp only [h.pending, Bool.false_or, decide_eq_false_iff_not, not_and, not_lt]
    rcases hr with ⟨hp, hb⟩ | hp <;> rw [hp] at hpoll
    · exact hpoll.2 _ rfl
    · exact hpoll
  | seedStart => exact absurd rfl hl
  | seedFail hs => exact absurd h.alone hs
  | seedReadTip hs | seedReadBlocks hs | seedAskTip hs | seedChecked hs | seedSkip hs
  | seedCursors hs | seedSeeded hs => simp [h.alone] at hs

end ChangeDetector
