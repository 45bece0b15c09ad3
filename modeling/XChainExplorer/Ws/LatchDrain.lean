import XChainExplorer.Ws.LatchRuns

/-! # Polls drain the latch and phase events

    Once the chain stops every poll that begins moves one of the four cursors: the block cursor, the
    action cursor, or, both being at the tip, a pair cursor that still has rows above it. So a number
    of polls bounded by the rows of the four tables sends every stamped row. -/

namespace ChangeDetector
open Tables TipProbe

variable {β H : Type*} {L : Ledger β H} {S : Latches L} {cfg : Config} {c : Chain β}

/-! ### What is left -/

section left
variable {ρ : Type*} {pair : ρ → ℤ × ℤ} {shown : ρ → Bool} {T : StampedTable L ρ pair shown}
  {cur cur' : PairCursor} {upTo : ℤ} {limit : ℕ}

/-- The stamped rows above a cursor. -/
def leftOf (T : StampedTable L ρ pair shown) (c : Chain β) (cur : PairCursor) : List (ℤ × ℤ) :=
  (T.pairs c).filter fun p => decide (cur.key < pairKey p)

theorem leftOf_eq_filter (h : cur.key ≤ cur'.key) :
    leftOf T c cur' = (leftOf T c cur).filter fun p => decide (cur'.key < pairKey p) := by
  rw [leftOf, leftOf, List.filter_filter]
  refine List.filter_congr fun p _ => ?_
  rw [Bool.eq_iff_iff, Bool.and_eq_true, decide_eq_true_eq, decide_eq_true_eq]
  exact ⟨fun hp => ⟨hp, h.trans_lt hp⟩, fun hp => hp.1⟩

theorem length_leftOf_le (h : cur.key ≤ cur'.key) :
    (leftOf T c cur').length ≤ (leftOf T c cur).length := by
  rw [leftOf_eq_filter h]
  exact List.length_filter_le _ _

/-- A pass that may read to the tip leaves fewer rows, where there are any. -/
theorem length_leftOf_next_lt (hl : 0 < limit) (hup : ∀ p ∈ T.pairs c, cur.key < pairKey p → p.1 ≤ upTo)
    (hne : leftOf T c cur ≠ []) :
    (leftOf T c (pairCursorNext id cur (pairPage T c cur upTo limit) limit upTo)).length <
      (leftOf T c cur).length := by
  obtain ⟨p, hp⟩ := List.exists_mem_of_ne_nil _ hne
  obtain ⟨hmem, hk⟩ := List.mem_filter.mp hp
  have hk := of_decide_eq_true hk
  obtain ⟨q, hq⟩ := List.exists_mem_of_ne_nil _ (pairPage_ne_nil hl hmem hk (hup p hmem hk))
  obtain ⟨hqmem, hqk, -⟩ := mem_pairPage hq
  rw [leftOf_eq_filter key_le_next, List.length_filter_lt_length_iff_exists]
  refine ⟨q, List.mem_filter.mpr ⟨hqmem, decide_eq_true hqk⟩, ?_⟩
  rw [decide_eq_true_eq, not_lt]
  exact (key_le_next_iff hl hqmem).mpr (.inr hq)

/-- With nothing left every row above the seed has been sent. -/
theorem Drained.all_sent {B A seed : ℤ} {sent : List (ℤ × ℤ)} (hd : Drained T c B A seed cur sent)
    (hnil : leftOf T c cur = []) : sent = (T.pairs c).filter fun p => decide (seed < p.1) := by
  rw [hd.sent_eq]
  refine List.filter_congr fun p hp => ?_
  have hk := List.filter_eq_nil_iff.mp hnil p hp
  rw [decide_eq_true_eq, not_lt] at hk
  simp [hk]

theorem block_le_of_mem_pairs {p : ℤ × ℤ} (hp : p ∈ T.pairs c) : p.1 ≤ L.getMaxBlockIndex c := by
  have hle := height_of_mem_stamped hp
  have hne : c ≠ [] := by
    rintro rfl
    simp [StampedTable.pairs, stamped] at hp
  rwa [getMaxBlockIndex_of_ne_nil hne]

/-- Nothing is left above the tip. -/
theorem leftOf_tip : leftOf T c ⟨L.getMaxBlockIndex c, none⟩ = [] := by
  rw [leftOf, List.filter_eq_nil_iff]
  intro p hp
  rw [decide_eq_true_eq, not_lt, pairKey_le_whole]
  exact block_le_of_mem_pairs hp

end left

variable (S) in
/-- How much the four cursors have before them. -/
def backlog (s : Passes β H) : ℕ :=
  (L.getMaxBlockIndex s.det.chain - s.det.coin.blockIndex).toNat +
    (actionCount s.det.chain - s.det.coin.actionIndex).toNat +
    (leftOf S.bet_feeds s.det.chain s.closed).length + (leftOf S.xcalls s.det.chain s.xcall).length

variable (S) in
/-- The rows of the four tables: no cursor has more before it. -/
def rowsOf (c : Chain β) : ℕ :=
  (L.getMaxBlockIndex c).toNat + (actionCount c).toNat + (S.bet_feeds.pairs c).length +
    (S.xcalls.pairs c).length

/-- A step of the polls while the chain stands still. -/
def Undisturbed (l : Label β) : Prop := l = .tick ∨ l = .db ∨ l = .run

instance [DecidableEq β] (l : Label β) : Decidable (Undisturbed l) :=
  inferInstanceAs (Decidable (_ ∨ _ ∨ _))

theorem Undisturbed.pollOnly {l : Label β} (h : Undisturbed l) : PollOnly l := by
  rcases h with rfl | rfl | rfl <;> simp [PollOnly]

theorem Undisturbed.grows {l : Label β} (h : Undisturbed l) (d : Det β H) : Grows d l := by
  rcases h with rfl | rfl | rfl <;> trivial

/-! ### A poll that began after the chain stopped -/

variable (L) in
/-- What the tip step has read is the tip. -/
def FreshTip (c : Chain β) : TipPc H → Prop
  | .maxBlock got => ∀ b, got = some b → b = L.getMaxBlockIndex c
  | .maxAction b got => b = L.getMaxBlockIndex c ∧ ∀ a, got = some a → a = actionCount c
  | _ => True

variable (S) in
/-- The poll has moved no cursor yet and is going to: it has read the tips the chain still has, and
    where it has come to its passes the other cursors are at these tips. -/
def Promised (s : Passes β H) : PollPc β H → Prop
  | .tip t => FreshTip L s.det.chain t
  | .blocks b a _ _ => b = L.getMaxBlockIndex s.det.chain ∧ a = actionCount s.det.chain
  | .actions _ _ _ | .fanout _ _ _ _ => True
  | .after => (s.locals.currentBlockIndex = L.getMaxBlockIndex s.det.chain ∧
      s.locals.currentActionIndex = actionCount s.det.chain ∧
      L.getMaxBlockIndex s.det.chain ≤ s.det.coin.blockIndex ∧
      actionCount s.det.chain ≤ s.det.coin.actionIndex) ∧
      ∀ got, s.pairs = .xcallPhases got → leftOf S.bet_feeds s.det.chain s.closed = []
  | _ => False

theorem FreshTip.read {t t' : TipPc H} (h : FreshTip L c t) (hr : t.read L c = some t') :
    FreshTip L c t' := by
  rcases read_eq_some hr with ⟨rfl, rfl⟩ | ⟨prev, cur, rfl, rfl⟩ | ⟨rfl, rfl⟩ | ⟨b, rfl, rfl⟩
  · trivial
  · trivial
  · rintro b ⟨⟩
    rfl
  · refine ⟨h.1, ?_⟩
    rintro a ⟨⟩
    rfl

theorem promised_actionStep {s : Passes β H} {a : ℤ}
    (hafter : s.det.coin.actionIndex ≥ a → Promised S s .after) :
    Promised S s (actionStep s.det.coin a : PollPc β H) := by
  rw [actionStep]
  split_ifs with h
  · trivial
  · exact hafter (not_lt.mp h)

variable (S cfg) in
/-- After `k` polls have begun on a chain that stands still: nothing is left before the cursors, or
    each poll has moved one, the poll in flight perhaps not yet. -/
structure Draining (k : ℕ) (s : Passes β H) : Prop where
  inv : PassInv S cfg s
  unseeded : s.det.coin.initialized = false →
    k = 0 ∨ k = 1 ∧ ∃ t, s.det.poll = .tip t ∧ FreshTip L s.det.chain t
  seeded : s.det.coin.initialized = true → backlog S s = 0 ∨ backlog S s + k ≤ rowsOf S s.det.chain ∨
    backlog S s + k ≤ rowsOf S s.det.chain + 1 ∧ Promised S s s.det.poll

/-! ### The steps -/

section sizes
variable {s s' : Passes β H}

/-- Moving a cursor up leaves no more than before. -/
theorem backlog_le (hc : s'.det.chain = s.det.chain)
    (hB : s.det.coin.blockIndex ≤ s'.det.coin.blockIndex)
    (hA : s.det.coin.actionIndex ≤ s'.det.coin.actionIndex) (hcl : s.closed.key ≤ s'.closed.key)
    (hx : s.xcall.key ≤ s'.xcall.key) : backlog S s' ≤ backlog S s := by
  have hbet := length_leftOf_le (T := S.bet_feeds) (c := s.det.chain) hcl
  have hcall := length_leftOf_le (T := S.xcalls) (c := s.det.chain) hx
  rw [backlog, backlog, hc]
  omega

theorem backlog_le_rowsOf (hB : 0 ≤ s.det.coin.blockIndex) (hA : 0 ≤ s.det.coin.actionIndex) :
    backlog S s ≤ rowsOf S s.det.chain := by
  have hbet : (leftOf S.bet_feeds s.det.chain s.closed).length ≤ (S.bet_feeds.pairs s.det.chain).length :=
    List.length_filter_le _ _
  have hcall : (leftOf S.xcalls s.det.chain s.xcall).length ≤ (S.xcalls.pairs s.det.chain).length :=
    List.length_filter_le _ _
  rw [backlog, rowsOf]
  omega

/-- A block page that is back moves its cursor up. -/
theorem lt_reached_of_blocks {d : Det β H} {b a since : ℤ} {rows : List (BlockRow H)}
    (hq : Quiet L cfg d) (hp : d.poll = .blocks b a since (some rows)) :
    since < Page.reached (·.block_index) since rows := by
  have hpoll := hq.poll
  have hshape := hq.grown.shape.poll
  rw [hp] at hpoll hshape
  obtain ⟨⟨hlt, -⟩, hshort⟩ := hpoll
  obtain ⟨-, -, hpage⟩ := hshape
  obtain ⟨d', -, hrows⟩ := hpage rows rfl
  by_cases hnil : rows = []
  · -- an empty page would have reached the tip read before it
    have := hshort rows rfl (by rw [hnil]; exact cfg.fetchLimit_pos)
    omega
  · rw [hrows] at hnil ⊢
    exact Page.since_lt_reached hnil

theorem lt_reached_of_actions {d : Det β H} {a since : ℤ} {batch : List (ActionRow β)}
    (hq : Quiet L cfg d) (hr : AtRow d.poll a since batch []) :
    since < Page.reached (·.action_index) since batch := by
  obtain ⟨-, -, hpage, -⟩ := hq.grown.shape.poll.atRow hr
  obtain ⟨d', -, hrows⟩ := hpage
  have hnil : batch ≠ [] := by
    rcases hr with ⟨hp, rfl⟩ | hp
    · have hpoll := hq.poll
      rw [hp] at hpoll
      have := hpoll.2 [] rfl cfg.fetchLimit_pos
      rw [Page.reached_nil] at this
      have := hpoll.1.1
      omega
    · have hshape := hq.grown.shape.poll
      rw [hp] at hshape
      obtain ⟨-, -, -, sent, row, hb, -⟩ := hshape
      simp [hb]
  rw [hrows] at hnil ⊢
  exact Page.since_lt_reached hnil

/-- A promised pass reads to the tip. -/
theorem Promised.upTo_eq (h : Promised S s .after) (cur : PairCursor) :
    s.upTo cur = L.getMaxBlockIndex s.det.chain := by
  obtain ⟨⟨hb, ha, hB, hA⟩, -⟩ := h
  rw [Passes.upTo, Passes.delivered, deliveredBlock, hb, ha, if_pos hA, readCeiling, min_eq_left hB,
    min_self]

end sizes

variable {k : ℕ} {s s' : Passes β H}

/-- A pass that is back. -/
theorem Draining.runPairs (h : Draining S cfg k s) (hp : s.det.poll = .after)
    (hr : s.runPairs cfg = some s') : Draining S cfg k s' := by
  have hi := h.inv.seeded_of_after hp
  have hinv := h.inv.runPairs hp hr
  have hans := h.inv.answered hp
  have hseeded := h.seeded hi
  obtain ⟨-, hB, -, hA⟩ := h.inv.quiet.grown.cursors hi
  rw [Passes.runPairs] at hr
  split at hr
  case h_1 rows hpairs =>
    obtain rfl := Option.some.inj hr
    rw [hpairs] at hans
    have hnext : pairCursorNext BetFeed.pair s.closed rows cfg.fetchLimit (s.upTo s.closed) =
        pairCursorNext id s.closed (pairPage S.bet_feeds s.det.chain s.closed (s.upTo s.closed)
          cfg.fetchLimit) cfg.fetchLimit (s.upTo s.closed) := by
      rw [pairCursorNext_map, hans rows rfl]
    refine ⟨hinv, by simp [hi], fun _ => ?_⟩
    have hle : backlog S { s with
        closed := pairCursorNext BetFeed.pair s.closed rows cfg.fetchLimit (s.upTo s.closed)
        pairs := .xcallPhases none
        out := s.out ++ rows.map fun feed => .betClosed (betClosedEvent feed) } ≤ backlog S s :=
      backlog_le rfl le_rfl le_rfl (by simp only [hnext]; exact key_le_next) le_rfl
    rcases hseeded with h0 | hk | ⟨hk, hprom⟩
    · exact .inl (by omega)
    · exact .inr (.inl (by simp only; omega))
    · rw [hp] at hprom
      by_cases hnil : leftOf S.bet_feeds s.det.chain s.closed = []
      · -- nothing to send here: the other pass is to move
        refine .inr (.inr ⟨by simp only; omega, ?_⟩)
        simp only [hp]
        refine ⟨hprom.1, fun got _ => ?_⟩
        have : (leftOf S.bet_feeds s.det.chain (pairCursorNext BetFeed.pair s.closed rows cfg.fetchLimit
            (s.upTo s.closed))).length ≤ (leftOf S.bet_feeds s.det.chain s.closed).length :=
          length_leftOf_le (by rw [hnext]; exact key_le_next)
        rw [hnil, List.length_nil, Nat.le_zero] at this
        exact List.length_eq_zero_iff.mp this
      · refine .inr (.inl ?_)
        have hup : ∀ p ∈ S.bet_feeds.pairs s.det.chain, s.closed.key < pairKey p →
            p.1 ≤ s.upTo s.closed := by
          intro p hp _
          rw [hprom.upTo_eq]
          exact block_le_of_mem_pairs hp
        have := length_leftOf_next_lt cfg.fetchLimit_pos hup hnil
        rw [← hnext] at this
        simp only [backlog] at hk ⊢
        omega
  case h_2 rows hpairs =>
    obtain rfl := Option.some.inj hr
    rw [hpairs] at hans
    have hnext : pairCursorNext Xcall.pair s.xcall rows cfg.fetchLimit (s.upTo s.xcall) =
        pairCursorNext id s.xcall (pairPage S.xcalls s.det.chain s.xcall (s.upTo s.xcall)
          cfg.fetchLimit) cfg.fetchLimit (s.upTo s.xcall) := by
      rw [pairCursorNext_map, hans rows rfl]
    refine ⟨hinv, by simp [hi], fun _ => ?_⟩
    have hle : (leftOf S.xcalls s.det.chain (pairCursorNext Xcall.pair s.xcall rows cfg.fetchLimit
        (s.upTo s.xcall))).length ≤ (leftOf S.xcalls s.det.chain s.xcall).length :=
      length_leftOf_le (by rw [hnext]; exact key_le_next)
    rcases hseeded with h0 | hk | ⟨hk, hprom⟩
    · refine .inl ?_
      simp only [backlog] at h0 ⊢
      omega
    · refine .inr (.inl ?_)
      simp only [backlog] at hk ⊢
      omega
    · rw [hp] at hprom
      by_cases hnil : leftOf S.xcalls s.det.chain s.xcall = []
      · -- nothing was left before any cursor
        refine .inl ?_
        have hbets := hprom.2 _ hpairs
        obtain ⟨⟨-, -, hB', hA'⟩, -⟩ := hprom
        rw [hnil, List.length_nil] at hle
        simp only [backlog, hbets, List.length_nil]
        omega
      · refine .inr (.inl ?_)
        have hup : ∀ p ∈ S.xcalls.pairs s.det.chain, s.xcall.key < pairKey p →
            p.1 ≤ s.upTo s.xcall := by
          intro p hp _
          rw [hprom.upTo_eq]
          exact block_le_of_mem_pairs hp
        have := length_leftOf_next_lt cfg.fetchLimit_pos hup hnil
        rw [← hnext] at this
        simp only [backlog] at hk ⊢
        omega
  case h_3 => simp at hr

/-- Is this the step a poll begins with? -/
def Label.begins : Label β → Bool
  | .tick => true
  | _ => false

/-- A step that moves no cursor keeps what the poll in flight promised. -/
theorem Draining.still (h : Draining S cfg k s) (hinv : PassInv S cfg s')
    (hi : s'.det.coin.initialized = s.det.coin.initialized) (hc : s'.det.chain = s.det.chain)
    (hb : backlog S s' = backlog S s)
    (htip : ∀ t, s.det.poll = .tip t → FreshTip L s.det.chain t →
      s'.det.coin.initialized = false → ∃ t', s'.det.poll = .tip t' ∧ FreshTip L s'.det.chain t')
    (hprom : Promised S s s.det.poll → Promised S s' s'.det.poll) : Draining S cfg k s' := by
  refine ⟨hinv, fun hi' => ?_, fun hi' => ?_⟩
  · rcases h.unseeded (hi ▸ hi') with hk | ⟨hk, t, hp, hf⟩
    · exact .inl hk
    · exact .inr ⟨hk, htip t hp hf hi'⟩
  · rw [hb, hc]
    rcases h.seeded (hi ▸ hi') with h0 | hk | ⟨hk, hp⟩
    · exact .inl h0
    · exact .inr (.inl hk)
    · exact .inr (.inr ⟨hk, hprom hp⟩)

/-- A step that moves a cursor keeps the promise. -/
theorem Draining.moved (h : Draining S cfg k s) (hinv : PassInv S cfg s')
    (hi : s.det.coin.initialized = true) (hi' : s'.det.coin.initialized = true)
    (hc : s'.det.chain = s.det.chain) (hb : backlog S s' < backlog S s) : Draining S cfg k s' := by
  refine ⟨hinv, by simp [hi'], fun _ => ?_⟩
  rw [hc]
  rcases h.seeded hi with h0 | hk | ⟨hk, -⟩
  · omega
  · exact .inr (.inl (by omega))
  · exact .inr (.inl (by omega))

theorem Draining.readPairs {pairs : PairPc} (h : Draining S cfg k s) (hp : s.det.poll = .after)
    (hr : s.readPairs S cfg = some pairs) : Draining S cfg k { s with pairs } := by
  have hi := h.inv.seeded_of_after hp
  refine ⟨h.inv.readPairs hp hr, by simp [hi], fun _ => ?_⟩
  rcases h.seeded hi with h0 | hk | ⟨hk, hprom⟩
  · exact .inl h0
  · exact .inr (.inl hk)
  · refine .inr (.inr ⟨hk, ?_⟩)
    rw [hp] at hprom
    simp only [hp]
    refine ⟨hprom.1, fun got hgot => ?_⟩
    -- the pass whose answer came in is the one that asked
    rw [Passes.readPairs] at hr
    split at hr
    case h_1 hpairs =>
      obtain rfl := Option.some.inj hr
      simp at hgot
    case h_2 hpairs => exact hprom.2 _ hpairs
    case h_3 => simp at hr

variable [DecidableEq H]

theorem Draining.detStep {l : Label β} {det : Det β H} {events : List (Event β H)}
    (h : Draining S cfg k s) (hl : Undisturbed l)
    (hpass : ¬ (s.det.poll = .after ∧ (l = .db ∨ l = .run))) (ht : Trans L cfg s.det l det events) :
    Draining S cfg (k + [l].countP Label.begins)
      { s.follow l with det, out := s.out ++ events.map .tip } := by
  have hinv := h.inv.detStep (hl.grows s.det) hl.pollOnly hpass ht
  have hgrown := h.inv.quiet.grown
  have hseeded := h.seeded
  cases ht with
  | chain | fail | seedStart | seedFail | seedReadTip | seedReadBlocks | seedAskTip | seedChecked
  | seedSkip | seedCursors | seedSeeded => rcases hl with hl | hl | hl <;> cases hl
  | tick hp =>
    refine ⟨hinv, fun hi => ?_, fun hi => ?_⟩
    · rcases h.unseeded hi with rfl | ⟨-, t, hp', -⟩
      · exact .inr ⟨rfl, _, rfl, trivial⟩
      · simp [hp] at hp'
    · rcases hseeded hi with h0 | hk | ⟨-, hprom⟩
      · exact .inl h0
      · exact .inr (.inr ⟨Nat.add_le_add_right hk 1, trivial⟩)
      · rw [hp] at hprom
        exact absurd hprom id
  | readTip hp ht =>
    refine h.still hinv rfl rfl rfl (fun t hp' hf _ => ?_) fun hprom => ?_
    · rw [hp] at hp'
      obtain rfl := PollPc.tip.inj hp'
      exact ⟨_, rfl, hf.read ht⟩
    · rw [hp] at hprom
      exact FreshTip.read hprom ht
  | readSeedBlocks hp =>
    refine h.still hinv rfl rfl rfl (fun t hp' => ?_) fun hprom => ?_
    · simp [hp] at hp'
    · rw [hp] at hprom
      exact absurd hprom id
  | readFork hp =>
    have hpoll := h.inv.quiet.poll
    rw [hp] at hpoll
    exact absurd hpoll id
  | readBlocks hp | readActions hp =>
    refine h.still hinv rfl rfl rfl (fun t hp' => ?_) fun hprom => ?_
    · simp [hp] at hp'
    · rw [hp] at hprom
      exact hprom
  | @askTip t pc hp ht =>
    have hne : ∀ b a, t ≠ .maxAction b (some a) := by
      rintro b a rfl
      simp [TipPc.run] at ht
    have hf : FreshTip L s.det.chain t → FreshTip L s.det.chain pc := by
      intro hf
      rcases run_eq_ask ht with ⟨cur, prev, -, -, rfl⟩ | ⟨b, rfl, rfl⟩
      · trivial
      · exact ⟨hf b rfl, by simp⟩
    rw [follow_of_tip hp hne] at hinv ⊢
    refine h.still hinv rfl rfl rfl (fun t' hp' hf' _ => ?_) fun hprom => ?_
    · rw [hp] at hp'
      obtain rfl := PollPc.tip.inj hp'
      exact ⟨_, rfl, hf hf'⟩
    · rw [hp] at hprom
      exact hf hprom
  | @checked t cur reorged hp ht =>
    have hne : ∀ b a, t ≠ .maxAction b (some a) := by
      rintro b a rfl
      simp [TipPc.run] at ht
    have hf : FreshTip (H := H) L s.det.chain (.maxBlock none) := by simp [FreshTip]
    rw [follow_of_tip hp hne] at hinv ⊢
    exact h.still hinv rfl rfl rfl (fun _ _ _ _ => ⟨_, rfl, hf⟩) fun _ => hf
  | @seed t b a hp ht hi =>
    rw [run_eq_done.mp ht] at hp
    rw [follow_of_seed hp hi] at hinv ⊢
    have hpoll := hgrown.poll
    rw [hp] at hpoll
    refine ⟨hinv, by simp [Coin.seedCursors], fun _ => ?_⟩
    rcases h.unseeded hi with rfl | ⟨-, t', hp', hf⟩
    · refine .inr (.inl ?_)
      exact backlog_le_rowsOf hpoll.1.1.1 (hpoll.1.2 _ rfl).1
    · -- seeded at the tips of the present chain
      refine .inl ?_
      rw [hp] at hp'
      obtain rfl := PollPc.tip.inj hp'
      simp [backlog, Coin.seedCursors, Passes.seedPairs, hf.1, hf.2 a rfl, leftOf_tip]
  | seeded hp =>
    have hf : s.follow .run = s := by rw [Passes.follow, hp]
    rw [hf] at hinv ⊢
    refine h.still hinv rfl rfl rfl (fun t hp' => ?_) fun hprom => ?_
    · simp [hp] at hp'
    · rw [hp] at hprom
      exact absurd hprom id
  | searchFork hp ht hi hpend => simp [h.inv.quiet.pending] at hpend
  | rewind hr hc =>
    rcases hr with ⟨t, -, -, -, hpend, -⟩ | ⟨heights, rows, hp, -⟩
    · simp [h.inv.quiet.pending] at hpend
    · have hpoll := h.inv.quiet.poll
      rw [hp] at hpoll
      exact absurd hpoll id
  | @proceed t b a hp ht hi hpend =>
    rw [run_eq_done.mp ht] at hp
    rw [follow_of_proceed hp hi hpend] at hinv ⊢
    refine h.still hinv rfl rfl rfl (fun _ _ _ hi' => by simp [hi] at hi') fun hprom => ?_
    rw [hp] at hprom
    obtain ⟨hb, ha⟩ := hprom
    simp only [blockStep]
    split_ifs with hlt
    · exact ⟨hb, ha a rfl⟩
    · refine promised_actionStep fun hge => ⟨⟨hb, ha a rfl, ?_, ?_⟩, by simp⟩
      · exact hb ▸ not_lt.mp hlt
      · exact ha a rfl ▸ hge
  | @blocksSent b a since rows hp =>
    have hf : s.follow .run = s := by rw [Passes.follow, hp]
    have hlt := lt_reached_of_blocks h.inv.quiet hp
    have hshape := hgrown.shape.poll
    rw [hp] at hshape
    obtain ⟨hi, rfl, hpage⟩ := hshape
    rw [hf, blocksSent_eq] at hinv ⊢
    refine h.moved hinv hi hi rfl ?_
    obtain ⟨-, hB, -⟩ := hinv.quiet.grown.cursors hi
    simp only [backlog] at hB ⊢
    omega
  | sendRow hr =>
    rw [follow_of_sendRow hr] at hinv ⊢
    refine h.still hinv rfl rfl rfl (fun t hp' => ?_) fun _ => trivial
    rcases hr with ⟨hp, -⟩ | hp <;> simp [hp] at hp'
  | @actionsSent a since batch hr =>
    have hlt := lt_reached_of_actions h.inv.quiet hr
    obtain ⟨hi, rfl, -⟩ := hgrown.shape.poll.atRow hr
    rw [follow_of_actionsSent h.inv.mid hr, actionsSent_eq] at hinv ⊢
    refine h.moved hinv hi hi rfl ?_
    obtain ⟨-, -, -, hA⟩ := hinv.quiet.grown.cursors hi
    simp only [backlog] at hA ⊢
    omega
  | finish hp => exact absurd ⟨hp, .inr rfl⟩ hpass

theorem Draining.step {l : Label β} (h : Draining S cfg k s) (hl : Undisturbed l)
    (hs : s.step S cfg l = some s') : Draining S cfg (k + [l].countP Label.begins) s' := by
  rcases passes_step_cases hs with ⟨pairs, rfl, hp, hr, rfl⟩ | ⟨rfl, hp, hr⟩ | ⟨det, events, hpass, hd, rfl⟩
  · exact h.readPairs hp hr
  · exact h.runPairs hp hr
  · exact h.detStep hl hpass (trans_of_step hd)

theorem Draining.run {ls : List (Label β)} (h : Draining S cfg k s) (hl : ∀ l ∈ ls, Undisturbed l)
    (hr : Runs.run (Passes.step S cfg) s ls = some s') :
    Draining S cfg (k + ls.countP Label.begins) s' := by
  induction ls generalizing s k with
  | nil =>
    obtain rfl := Option.some.inj hr
    exact h
  | cons l ls ih =>
    obtain ⟨u, hu, hr⟩ := Runs.run_cons.mp hr
    have hstep := ih (h.step (hl l List.mem_cons_self) hu) (fun x hx => hl x (List.mem_cons_of_mem l hx)) hr
    rwa [Nat.add_assoc, ← List.countP_append, List.singleton_append] at hstep

omit [DecidableEq H] in
/-- Once enough polls have begun, every stamped row above the seed has been sent. -/
theorem Draining.all_sent (h : Draining S cfg k s) (hk : rowsOf S s.det.chain + 1 < k) :
    ∃ seed, s.seedBlock = some seed ∧
      closedPairs s.out = (S.bet_feeds.pairs s.det.chain).filter (fun p => decide (seed < p.1)) ∧
      resolvedPairs s.out = (S.xcalls.pairs s.det.chain).filter (fun p => decide (seed < p.1)) := by
  have hi : s.det.coin.initialized = true := by
    by_contra hi
    rcases h.unseeded (Bool.eq_false_iff.mpr hi) with hk' | ⟨hk', -⟩ <;> omega
  have hzero : backlog S s = 0 := by
    rcases h.seeded hi with h0 | hk' | ⟨hk', -⟩ <;> omega
  obtain ⟨seed, mark, hseed, -, hlive⟩ := h.inv.seeded hi
  rw [backlog] at hzero
  have hbet : leftOf S.bet_feeds s.det.chain s.closed = [] := List.length_eq_zero_iff.mp (by omega)
  have hcall : leftOf S.xcalls s.det.chain s.xcall = [] := List.length_eq_zero_iff.mp (by omega)
  exact ⟨seed, hseed, hlive.closed.all_sent hbet, hlive.xcall.all_sent hcall⟩

/-! ### A poll ends -/

/-- The chain stands still while nothing but the polls steps. -/
theorem chain_of_undisturbed {l : Label β} (hl : Undisturbed l) (hs : s.step S cfg l = some s') :
    s'.det.chain = s.det.chain := by
  rcases passes_step_cases hs with ⟨pairs, -, -, -, rfl⟩ | ⟨-, -, hr⟩ | ⟨det, events, -, hd, rfl⟩
  · rfl
  · rw [Passes.runPairs] at hr
    split at hr
    case h_1 => rw [← Option.some.inj hr]
    case h_2 => rw [← Option.some.inj hr]
    case h_3 => simp at hr
  · have ht : Trans L cfg s.det l det events := trans_of_step hd
    cases ht with
    | chain => rcases hl with hl | hl | hl <;> cases hl
    | rewind => rfl
    | _ => rfl

theorem chain_of_run {ls : List (Label β)} (hl : ∀ l ∈ ls, Undisturbed l)
    (hr : Runs.run (Passes.step S cfg) s ls = some s') : s'.det.chain = s.det.chain := by
  induction ls generalizing s with
  | nil =>
    obtain rfl := Option.some.inj hr
    rfl
  | cons l ls ih =>
    obtain ⟨u, hu, hr⟩ := Runs.run_cons.mp hr
    rw [ih (fun x hx => hl x (List.mem_cons_of_mem l hx)) hr]
    exact chain_of_undisturbed (hl l List.mem_cons_self) hu

variable (S cfg) in
/-- The poll in flight comes to its end once its reads are answered. -/
def Ends (s : Passes β H) : Prop :=
  ∃ ls s', (∀ l ∈ ls, l = .db ∨ l = .run) ∧ Runs.run (Passes.step S cfg) s ls = some s' ∧
    s'.det.poll = .idle

variable (S cfg) in
/-- A poll that waits here comes to its end, whatever the rest of the state. -/
def EndsAt (pc : PollPc β H) : Prop := ∀ s : Passes β H, s.det.poll = pc → Ends S cfg s

theorem Ends.of_step {l : Label β} (hl : l = .db ∨ l = .run) (hs : s.step S cfg l = some s')
    (h : Ends S cfg s') : Ends S cfg s := by
  obtain ⟨ls, t, hls, hr, ht⟩ := h
  refine ⟨l :: ls, t, ?_, Runs.run_cons.mpr ⟨s', hs, hr⟩, ht⟩
  intro x hx
  rcases List.mem_cons.mp hx with rfl | hx
  · exact hl
  · exact hls x hx

/-- Away from the passes the database answers as the detector's read says. -/
theorem Ends.of_readPoll {pc : PollPc β H} (hp : s.det.poll ≠ .after)
    (hr : s.det.readPoll L cfg = some pc) (h : EndsAt S cfg pc) : Ends S cfg s := by
  have hs : s.step S cfg .db = some { s.follow .db with
      det := { s.det with poll := pc }, out := s.out ++ [] } := by
    rw [step_of_ne_after hp, Det.step, hr]
    rfl
  exact .of_step (.inl rfl) hs (h _ rfl)

theorem Ends.of_runPoll {d : Det β H} {events : List (Event β H)} (hp : s.det.poll ≠ .after)
    (hr : s.det.runPoll cfg = some (d, events)) (h : EndsAt S cfg d.poll) : Ends S cfg s := by
  have hs : s.step S cfg .run = some { s.follow .run with
      det := d, out := s.out ++ events.map .tip } := by
    rw [step_of_ne_after hp, Det.step, hr]
    rfl
  exact .of_step (.inr rfl) hs (h _ rfl)

theorem endsAt_idle : EndsAt S cfg (.idle : PollPc β H) :=
  fun s hp => ⟨[], s, by simp, rfl, hp⟩

theorem Ends.of_readPairs {pairs : PairPc} (hp : s.det.poll = .after)
    (hr : s.readPairs S cfg = some pairs) (h : Ends S cfg { s with pairs }) : Ends S cfg s := by
  have hs : s.step S cfg .db = some { s with pairs } := by
    simp only [Passes.step, hp, hr, Option.map_some]
  exact .of_step (.inl rfl) hs h

theorem Ends.of_runPairs (hp : s.det.poll = .after) (hr : s.runPairs cfg = some s')
    (h : Ends S cfg s') : Ends S cfg s := by
  refine .of_step (.inr rfl) ?_ h
  simp only [Passes.step, hp, hr]

theorem endsAt_after : EndsAt S cfg (.after : PollPc β H) := by
  -- the waits of the two passes, from the last one back
  have xcallsBack : ∀ (s : Passes β H) rows, s.det.poll = .after →
      s.pairs = .xcallPhases (some rows) → Ends S cfg s := by
    intro s rows hp hpairs
    obtain ⟨s', hr, hidle⟩ : ∃ s', s.runPairs cfg = some s' ∧ s'.det.poll = .idle :=
      ⟨_, by rw [Passes.runPairs, hpairs], rfl⟩
    exact .of_runPairs hp hr (endsAt_idle s' hidle)
  have xcalls : ∀ s : Passes β H, s.det.poll = .after → s.pairs = .xcallPhases none → Ends S cfg s := by
    intro s hp hpairs
    obtain ⟨rows, hr⟩ : ∃ rows, s.readPairs S cfg = some (.xcallPhases (some rows)) :=
      ⟨_, by rw [Passes.readPairs, hpairs]⟩
    exact .of_readPairs hp hr (xcallsBack _ rows hp rfl)
  have betsBack : ∀ (s : Passes β H) rows, s.det.poll = .after →
      s.pairs = .betLatches (some rows) → Ends S cfg s := by
    intro s rows hp hpairs
    obtain ⟨s', hr, hp', hpairs'⟩ : ∃ s', s.runPairs cfg = some s' ∧ s'.det.poll = .after ∧
        s'.pairs = .xcallPhases none := ⟨_, by rw [Passes.runPairs, hpairs], by exact hp, by rfl⟩
    exact .of_runPairs hp hr (xcalls s' hp' hpairs')
  intro s hp
  rcases hpairs : s.pairs with (_ | rows) | (_ | rows)
  · obtain ⟨rows, hr⟩ : ∃ rows, s.readPairs S cfg = some (.betLatches (some rows)) :=
      ⟨_, by rw [Passes.readPairs, hpairs]⟩
    exact .of_readPairs hp hr (betsBack _ rows hp rfl)
  · exact betsBack s rows hp hpairs
  · exact xcalls s hp hpairs
  · exact xcallsBack s rows hp hpairs

/-- The row loop ends after as many fan-outs as rows are to go. -/
theorem endsAt_fanout (a since : ℤ) (batch todo : List (ActionRow β)) :
    EndsAt S cfg (.fanout a since batch todo : PollPc β H) := by
  induction todo with
  | nil =>
    intro s hp
    have hr : s.det.runPoll cfg = some (s.det.sendNext cfg a since batch []) := by rw [Det.runPoll, hp]
    exact .of_runPoll (by simp [hp]) hr endsAt_after
  | cons row todo ih =>
    intro s hp
    have hr : s.det.runPoll cfg = some (s.det.sendNext cfg a since batch (row :: todo)) := by
      rw [Det.runPoll, hp]
    exact .of_runPoll (by simp [hp]) hr ih

theorem endsAt_actions (a since : ℤ) (got : Option (List (ActionRow β))) :
    EndsAt S cfg (.actions a since got : PollPc β H) := by
  have back : ∀ rows, EndsAt S cfg (.actions a since (some rows) : PollPc β H) := by
    intro rows s hp
    have hr : s.det.runPoll cfg = some (s.det.sendNext cfg a since rows rows) := by rw [Det.runPoll, hp]
    refine .of_runPoll (by simp [hp]) hr ?_
    cases rows with
    | nil => exact endsAt_after
    | cons row todo => exact endsAt_fanout a since _ todo
  cases got with
  | none =>
    intro s hp
    exact .of_readPoll (by simp [hp]) (by rw [Det.readPoll, hp]) (back _)
  | some rows => exact back rows

theorem endsAt_actionStep (coin : Coin H) (a : ℤ) : EndsAt S cfg (actionStep coin a : PollPc β H) := by
  rw [actionStep]
  split_ifs
  · exact endsAt_actions _ _ _
  · exact endsAt_after

theorem endsAt_blocks (b a since : ℤ) (got : Option (List (BlockRow H))) :
    EndsAt S cfg (.blocks b a since got : PollPc β H) := by
  have back : ∀ rows, EndsAt S cfg (.blocks b a since (some rows) : PollPc β H) := by
    intro rows s hp
    exact .of_runPoll (by simp [hp]) (by rw [Det.runPoll, hp]) (endsAt_actionStep _ _)
  cases got with
  | none =>
    intro s hp
    exact .of_readPoll (by simp [hp]) (by rw [Det.readPoll, hp]) (back _)
  | some rows => exact back rows

theorem endsAt_blockStep (coin : Coin H) (b a : ℤ) :
    EndsAt S cfg (blockStep coin b a : PollPc β H) := by
  rw [blockStep]
  split_ifs
  · exact endsAt_blocks _ _ _ _
  · exact endsAt_actionStep _ _

theorem endsAt_fork (b a : ℤ) (heights : List ℤ) (got : Option (List (BlockRow H))) :
    EndsAt S cfg (.fork b a heights got : PollPc β H) := by
  have back : ∀ rows, EndsAt S cfg (.fork b a heights (some rows) : PollPc β H) := by
    intro rows s hp
    exact .of_runPoll (by simp [hp]) (by rw [Det.runPoll, hp]) (endsAt_blockStep _ _ _)
  cases got with
  | none =>
    intro s hp
    exact .of_readPoll (by simp [hp]) (by rw [Det.readPoll, hp]) (back _)
  | some rows => exact back rows

theorem endsAt_seedBlocks (b a : ℤ) (got : Option (List (BlockRow H))) :
    EndsAt S cfg (.seedBlocks b a got : PollPc β H) := by
  have back : ∀ rows, EndsAt S cfg (.seedBlocks b a (some rows) : PollPc β H) := by
    intro rows s hp
    exact .of_runPoll (by simp [hp]) (by rw [Det.runPoll, hp]) endsAt_idle
  cases got with
  | none =>
    intro s hp
    exact .of_readPoll (by simp [hp]) (by rw [Det.readPoll, hp]) (back _)
  | some rows => exact back rows

theorem endsAt_tipDone (d : Det β H) (b a : ℤ) : EndsAt S cfg (d.tipDone b a).1.poll := by
  rw [Det.tipDone]
  split
  · exact endsAt_seedBlocks _ _ _
  · split
    · split
      · exact endsAt_blockStep _ _ _
      · exact endsAt_fork _ _ _ _
    · exact endsAt_blockStep _ _ _

/-- The tip step asks at most four reads. -/
theorem endsAt_tip (t : TipPc H) : EndsAt S cfg (.tip t : PollPc β H) := by
  have actionBack : ∀ b a, EndsAt S cfg (.tip (.maxAction b (some a)) : PollPc β H) := by
    intro b a s hp
    have hr : s.det.runPoll cfg = some (s.det.tipDone b a) := by rw [Det.runPoll, hp]; rfl
    exact .of_runPoll (by simp [hp]) hr (endsAt_tipDone _ _ _)
  have action : ∀ b, EndsAt S cfg (.tip (.maxAction b none) : PollPc β H) := by
    intro b s hp
    exact .of_readPoll (by simp [hp]) (by rw [Det.readPoll, hp]; rfl) (actionBack _ _)
  have blockBack : ∀ b, EndsAt S cfg (.tip (.maxBlock (some b)) : PollPc β H) := by
    intro b s hp
    exact .of_runPoll (by simp [hp]) (by rw [Det.runPoll, hp]; rfl) (action b)
  have block : EndsAt S cfg (.tip (.maxBlock none) : PollPc β H) := by
    intro s hp
    exact .of_readPoll (by simp [hp]) (by rw [Det.readPoll, hp]; rfl) (blockBack _)
  have rowBack : ∀ prev cur found, EndsAt S cfg (.tip (.row prev cur (some found)) : PollPc β H) := by
    intro prev cur found s hp
    exact .of_runPoll (by simp [hp]) (by rw [Det.runPoll, hp]; rfl) block
  have row : ∀ prev cur, EndsAt S cfg (.tip (.row prev cur none) : PollPc β H) := by
    intro prev cur s hp
    exact .of_readPoll (by simp [hp]) (by rw [Det.readPoll, hp]; rfl) (rowBack prev cur _)
  have tipBack : ∀ cur, EndsAt S cfg (.tip (.tip (some cur)) : PollPc β H) := by
    intro cur s hp
    cases cur with
    | none => exact .of_runPoll (by simp [hp]) (by rw [Det.runPoll, hp]; rfl) block
    | some cur =>
      cases hv : blockReplaced s.det.lastTip cur with
      | verdict reorged =>
        have ht : (TipPc.tip (some (some cur))).run s.det.lastTip =
            some (.checked (some cur) reorged) := by simp only [TipPc.run, hv]
        exact .of_runPoll (by simp [hp]) (by simp only [Det.runPoll, hp, ht, Option.map_some]; rfl) block
      | readRow prev =>
        have ht : (TipPc.tip (some (some cur))).run s.det.lastTip = some (.ask (.row prev cur none)) := by
          simp only [TipPc.run, hv]
        exact .of_runPoll (by simp [hp]) (by simp only [Det.runPoll, hp, ht, Option.map_some]; rfl)
          (row prev cur)
  rcases t with (_ | cur) | ⟨prev, cur, _ | found⟩ | (_ | b) | ⟨b, _ | a⟩
  · intro s hp
    exact .of_readPoll (by simp [hp]) (by rw [Det.readPoll, hp]; rfl) (tipBack _)
  · exact tipBack cur
  · exact row prev cur
  · exact rowBack prev cur found
  · exact block
  · exact blockBack b
  · exact action b
  · exact actionBack b a

theorem ends (s : Passes β H) : Ends S cfg s := by
  cases hp : s.det.poll with
  | idle => exact endsAt_idle s hp
  | tip t => exact endsAt_tip t s hp
  | seedBlocks b a got => exact endsAt_seedBlocks b a got s hp
  | fork b a heights got => exact endsAt_fork b a heights got s hp
  | blocks b a since got => exact endsAt_blocks b a since got s hp
  | actions a since got => exact endsAt_actions a since got s hp
  | fanout a since batch todo => exact endsAt_fanout a since batch todo s hp
  | after => exact endsAt_after s hp

/-- From every state any number of further polls can run. -/
theorem polls_go_on (n : ℕ) (s : Passes β H) : ∃ ls s', (∀ l ∈ ls, Undisturbed l) ∧
    Runs.run (Passes.step S cfg) s ls = some s' ∧ n ≤ ls.countP Label.begins := by
  induction n generalizing s with
  | zero => exact ⟨[], s, by simp, rfl, by simp⟩
  | succ n ih =>
    obtain ⟨ls, s₁, hls, hr, hidle⟩ : Ends S cfg s := ends s
    have htick : s₁.step S cfg .tick = some { s₁.follow .tick with
        det := { s₁.det with poll := .tip (.tip none) }, out := s₁.out ++ [] } := by
      rw [step_of_ne_after (by simp [hidle]), Det.step, hidle]
      rfl
    obtain ⟨ls', s₂, hls', hr', hn⟩ := ih { s₁.follow .tick with
        det := { s₁.det with poll := .tip (.tip none) }, out := s₁.out ++ [] }
    refine ⟨ls ++ .tick :: ls', s₂, ?_, ?_, ?_⟩
    · intro l hl
      rcases List.mem_append.mp hl with hl | hl
      · exact .inr (hls l hl)
      · rcases List.mem_cons.mp hl with rfl | hl
        · exact .inl rfl
        · exact hls' l hl
    · exact Runs.run_append.mpr ⟨s₁, hr, Runs.run_cons.mpr ⟨_, htick, hr'⟩⟩
    · rw [List.countP_append, List.countP_cons_of_pos rfl]
      omega

/-! ### The feed of the two tables -/

omit [DecidableEq H] in
/-- A cursor has sent the first of the rows above the seed. -/
theorem Drained.isPrefix {ρ : Type*} {pair : ρ → ℤ × ℤ} {shown : ρ → Bool}
    {T : StampedTable L ρ pair shown} {B A seed : ℤ} {cur : PairCursor} {sent : List (ℤ × ℤ)}
    (hd : Drained T c B A seed cur sent) :
    sent <+: (T.pairs c).filter (fun p => decide (seed < p.1)) ∧
      sent.Pairwise (pairKey · < pairKey ·) := by
  have hsort := pairs_pairwise (T := T) (c := c)
  rw [hd.sent_eq]
  refine ⟨?_, hsort.filter _⟩
  have hsplit : ((T.pairs c).filter fun p => decide (seed < p.1 ∧ pairKey p ≤ cur.key)) =
      ((T.pairs c).filter fun p => decide (seed < p.1)).filter fun p => decide (pairKey p ≤ cur.key) := by
    rw [List.filter_filter]
    refine List.filter_congr fun p _ => ?_
    rw [Bool.eq_iff_iff, Bool.and_eq_true, decide_eq_true_eq, decide_eq_true_eq, decide_eq_true_eq]
    exact and_comm
  rw [hsplit]
  exact Page.filter_le_prefix (hsort.filter _)

/-- Latch and phase events go out once, in order and never ahead of their block. Polls alone run
    over a chain that only grows: the BET_CLOSED events are the first of the feeds latched above the
    seed, in `(closed_block, action_index)` order, and so are the phase events of the calls resolved
    above it; before each stand the NEW_BLOCK of its block and the NEW_ACTION of every action of the
    blocks up to it, and no such action comes after. Once the chain stands still a bounded number
    of polls sends every one of them, and that many polls do run. -/
theorem latches_sent_once {c : Chain β} {ls : List (Label β)}
    (hm : Runs.Meets (Passes.step S cfg) (fun s l => Grows s.det l ∧ PollOnly l)
      (Passes.init c) ls)
    (hr : Runs.run (Passes.step S cfg) (Passes.init c) ls = some s) :
    (∀ seed, s.seedBlock = some seed →
      closedPairs s.out <+: (S.bet_feeds.pairs s.det.chain).filter (fun p => decide (seed < p.1)) ∧
      (closedPairs s.out).Pairwise (pairKey · < pairKey ·) ∧
      resolvedPairs s.out <+: (S.xcalls.pairs s.det.chain).filter (fun p => decide (seed < p.1)) ∧
      (resolvedPairs s.out).Pairwise (pairKey · < pairKey ·) ∧
      ∀ mark, s.det.coin.seedActionMark = some mark → Timely L s.det.chain seed mark s.out) ∧
    (s.seedBlock = none → s.out = []) ∧
    ∃ n, (∃ ls' t, (∀ l ∈ ls', Undisturbed l) ∧ Runs.run (Passes.step S cfg) s ls' = some t ∧
        n ≤ ls'.countP Label.begins) ∧
      ∀ ls' t, (∀ l ∈ ls', Undisturbed l) → Runs.run (Passes.step S cfg) s ls' = some t →
        n ≤ ls'.countP Label.begins → ∃ seed, t.seedBlock = some seed ∧
          closedPairs t.out =
            (S.bet_feeds.pairs s.det.chain).filter (fun p => decide (seed < p.1)) ∧
          resolvedPairs t.out =
            (S.xcalls.pairs s.det.chain).filter (fun p => decide (seed < p.1)) := by
  have hinv : PassInv S cfg s :=
    Runs.run_inv (fun _ _ _ h hl hs => h.step hl.1 hl.2 hs) (PassInv.init c) hm hr
  refine ⟨fun seed hseed => ?_, fun hnone => ?_, rowsOf S s.det.chain + 2, polls_go_on _ s, ?_⟩
  · cases hi : s.det.coin.initialized with
    | false =>
      rw [(hinv.unseeded hi).2] at hseed
      cases hseed
    | true =>
      obtain ⟨seed', mark, hseed', hmark, hlive⟩ := hinv.seeded hi
      obtain rfl := Option.some.inj (hseed'.symm.trans hseed)
      obtain ⟨hclosed, hcsort⟩ := hlive.closed.isPrefix
      obtain ⟨hcalls, hxsort⟩ := hlive.xcall.isPrefix
      refine ⟨hclosed, hcsort, hcalls, hxsort, fun mark' hmark' => ?_⟩
      obtain rfl := Option.some.inj (hmark.symm.trans hmark')
      exact hlive.timely
  · cases hi : s.det.coin.initialized with
    | false => exact (hinv.unseeded hi).1
    | true =>
      obtain ⟨seed, mark, hseed, -⟩ := hinv.seeded hi
      rw [hseed] at hnone
      cases hnone
  · intro ls' t hls hrun hn
    have hstart : Draining S cfg 0 s := by
      refine ⟨hinv, fun _ => .inl rfl, fun hi => .inr (.inl ?_)⟩
      obtain ⟨hB, -, hA, -⟩ := hinv.quiet.grown.cursors hi
      exact backlog_le_rowsOf hB hA
    have hchain := chain_of_run hls hrun
    have hdrain := hstart.run hls hrun
    rw [← hchain]
    refine hdrain.all_sent ?_
    rw [hchain]
    omega

/-! ### One block that closes two markets, read a row at a time -/

def pageOfOne : Config := { fetchLimit := 1, fetchLimit_pos := by decide }

/-- A block with salt 1 closes the markets 3 and 5; no call is resolved. -/
def twoMarkets : Latches (plainLedger ℕ) where
  bet_feeds := {
    stamps := fun c => match c with
      | [] => []
      | x :: _ => if x.salt = 1 then [3, 5] else []
    row := fun _ p => ⟨p.2, p.1, some 1, some "oracle", some "closed"⟩
    in_order := by
      intro c
      cases c with
      | nil => exact List.Pairwise.nil
      | cons x c =>
        by_cases hx : x.salt = 1
        · simp [hx]
        · simp [hx]
    row_pair := fun _ _ => rfl
    row_shown := fun _ _ _ => rfl }
  xcalls := {
    stamps := fun _ => []
    row := fun _ p => ⟨p.2, p.1, "", none, none, none, some "completed", none, none, none, none, some "valid"⟩
    in_order := fun _ => List.Pairwise.nil
    row_pair := fun _ _ => rfl
    row_shown := fun _ _ _ => rfl }

/-- The coin is seeded, the block is committed, and two polls run. -/
def closeTwoMarkets : List (Label ℕ) :=
  .tick :: answers 4 ++ .chain [⟨[7], 1⟩, ⟨[], 0⟩] :: .tick :: answers 6 ++ .run :: answers 2 ++
    .tick :: answers 5

theorem latches_sent_once_twoMarkets : ∃ s : Passes ℕ (Chain ℕ),
    Runs.run (Passes.step twoMarkets pageOfOne) (Passes.init [⟨[], 0⟩]) closeTwoMarkets = some s ∧
      s.seedBlock = some 0 ∧ closedPairs s.out = [(1, 3), (1, 5)] ∧
      closedPairs s.out <+:
        (twoMarkets.bet_feeds.pairs s.det.chain).filter (fun p => decide (0 < p.1)) := by
  obtain ⟨s, hr, hs⟩ : ∃ s : Passes ℕ (Chain ℕ),
      Runs.run (Passes.step twoMarkets pageOfOne) (Passes.init [⟨[], 0⟩]) closeTwoMarkets = some s ∧
        (s.seedBlock, closedPairs s.out) = (some 0, [(1, 3), (1, 5)]) :=
    Option.map_eq_some_iff.mp (by decide +kernel)
  obtain ⟨hseed, hclosed⟩ := Prod.mk.inj hs
  exact ⟨s, hr, hseed, hclosed, ((latches_sent_once (by decide +kernel) hr).1 0 hseed).1⟩

end ChangeDetector
