import XChainExplorer.Ws.LatchFeed

/-! # Runs of the latch and phase passes

    Polls alone over a chain that only grows, with their two passes. Each step keeps what holds of
    the cursors and of the log: a page's rows are those of the present chain, what the row loop has
    sent is above the action cursor until the step ends, and an answer a pass waits on is still the
    page of its cursor. -/

namespace ChangeDetector
open Tables TipProbe

variable {β H : Type*} {L : Ledger β H} {S : Latches L} {cfg : Config} {c c' : Chain β}

/-! ### Pages of an earlier moment -/

/-- A block page holds every block of the present chain up to where it reached. -/
theorem BlockPage.mem_of_le {past : List (Chain β)} (hp : ∀ d ∈ past, d <:+ c) {since : ℤ}
    {rows : List (BlockRow H)} (h : BlockPage L cfg past since rows) (h0 : 0 ≤ since)
    {row : BlockRow H} (hr : row ∈ L.blockRows c) (hlo : since < row.block_index)
    (hhi : row.block_index ≤ Page.reached (·.block_index) since rows) : row ∈ rows := by
  obtain ⟨hge, hreach⟩ := h.reached_mem
  rcases hreach with hreach | ⟨last, hlast, hreach⟩
  · omega
  · obtain ⟨d, hd, rfl⟩ := h
    have hmax := (standsAt_of_mem_blockRows (Page.mem_of_mem_fetch hlast).1).le_max
    rw [hreach] at hmax
    have hmem := mem_blockRows_of_le (hp d hd) (by omega) hmax hr hhi
    exact (Page.mem_fetch blockRows_pairwise).mpr ⟨hmem, hlo, hhi⟩

/-- An action page holds every action of the present chain up to where it reached. -/
theorem ActionPage.mem_of_le {past : List (Chain β)} (hp : ∀ d ∈ past, d <:+ c) {since : ℤ}
    {rows : List (ActionRow β)} (h : ActionPage L cfg past since rows)
    {r : ActionRow β} (hr : r ∈ L.actionRows c) (hlo : since < r.action_index)
    (hhi : r.action_index ≤ Page.reached (·.action_index) since rows) : r ∈ rows := by
  obtain ⟨hge, hreach⟩ := h.reached_mem
  rcases hreach with hreach | ⟨last, hlast, hreach⟩
  · omega
  · obtain ⟨d, hd, rfl⟩ := h
    have hle := index_le_of_mem (mem_getActionsSince.mp hlast).1
    rw [hreach] at hle
    obtain ⟨hrow, -⟩ := Tables.mem_actionRows.mp hr
    obtain ⟨r', hr', hi⟩ := exists_row (L := L) hrow.index_pos (hhi.trans hle)
    obtain rfl := row_unique hr (actionRows_subset (hp d hd) hr') hi.symm
    exact mem_getActionsSince.mpr ⟨hr', hlo, hhi⟩

/-! ### Where the poll waits -/

variable (L) in
/-- What the marks a poll has read, and what its row loop has sent, mean where it waits. -/
def PollMid (c : Chain β) (A : ℤ) (locals : Locals) (pairs : PairPc) (out : List (Emitted β H)) :
    PollPc β H → Prop
  | .tip (.maxAction b got) => ∀ a, got = some a → Settled L c b a
  | .blocks b a _ _ => pairs = .betLatches none ∧ locals = ⟨b, a, none⟩ ∧ Settled L c b a
  | .actions a _ _ => pairs = .betLatches none ∧ locals.lastActionBlock = none ∧
      locals.currentActionIndex = a ∧ Settled L c locals.currentBlockIndex a
  | .fanout a _ batch todo => (pairs = .betLatches none ∧
      locals.currentActionIndex = a ∧ Settled L c locals.currentBlockIndex a) ∧
      ∀ sent, batch = sent ++ todo → ∀ r ∈ sent, Emitted.tip (.action r) ∈ out
  | .after => Settled L c locals.currentBlockIndex locals.currentActionIndex ∧
      ∀ x, locals.lastActionBlock = some x → Settled L c (x - 1) A
  | _ => True

variable (S cfg) in
/-- An answer a pass waits on is the page of its cursor. -/
def Answered (s : Passes β H) : PairPc → Prop
  | .betLatches got => ∀ rows, got = some rows → rows.map BetFeed.pair =
      pairPage S.bet_feeds s.det.chain s.closed (s.upTo s.closed) cfg.fetchLimit
  | .xcallPhases got => ∀ rows, got = some rows → rows.map Xcall.pair =
      pairPage S.xcalls s.det.chain s.xcall (s.upTo s.xcall) cfg.fetchLimit

variable (S cfg) in
structure PassInv (s : Passes β H) : Prop where
  quiet : Quiet L cfg s.det
  unseeded : s.det.coin.initialized = false → s.out = [] ∧ s.seedBlock = none
  seeded : s.det.coin.initialized = true → ∃ seed mark, s.seedBlock = some seed ∧
    s.det.coin.seedActionMark = some mark ∧
    Live S s.det.chain s.det.coin.blockIndex s.det.coin.actionIndex seed mark s.closed s.xcall s.out
  mid : PollMid L s.det.chain s.det.coin.actionIndex s.locals s.pairs s.out s.det.poll
  answered : s.det.poll = .after → Answered S cfg s s.pairs

theorem PassInv.init (c : Chain β) : PassInv S cfg (Passes.init c : Passes β H) :=
  ⟨Quiet.init c, fun _ => ⟨rfl, rfl⟩, by simp [Passes.init, Det.init], trivial,
    by simp [Passes.init, Det.init]⟩

theorem PollMid.mono {A : ℤ} {locals : Locals} {pairs : PairPc} {out : List (Emitted β H)}
    {pc : PollPc β H} (hs : c <:+ c') (h : PollMid L c A locals pairs out pc) :
    PollMid L c' A locals pairs out pc := by
  rcases pc with _ | (got | ⟨prev, cur, got⟩ | got | ⟨b, got⟩) | _ | _ | _ | _ | _ | _
  case tip.maxAction => exact fun a ha => (h a ha).mono hs
  case blocks => exact ⟨h.1, h.2.1, h.2.2.mono hs⟩
  case actions => exact ⟨h.1, h.2.1, h.2.2.1, h.2.2.2.mono hs⟩
  case fanout => exact ⟨⟨h.1.1, h.1.2.1, h.1.2.2.mono hs⟩, h.2⟩
  case after => exact ⟨h.1.mono hs, fun x hx => (h.2 x hx).mono hs⟩
  all_goals trivial

theorem pollMid_actionStep {k : Coin H} {locals : Locals} {out : List (Emitted β H)}
    (hlast : locals.lastActionBlock = none)
    (hs : Settled L c locals.currentBlockIndex locals.currentActionIndex) :
    PollMid L c k.actionIndex locals (.betLatches none) out
      (actionStep k locals.currentActionIndex : PollPc β H) := by
  rw [actionStep]
  split_ifs
  · exact ⟨rfl, hlast, rfl, hs⟩
  · exact ⟨hs, by simp [hlast]⟩

theorem pollMid_blockStep {k : Coin H} {b a : ℤ} {out : List (Emitted β H)} (hs : Settled L c b a) :
    PollMid L c k.actionIndex ⟨b, a, none⟩ (.betLatches none) out (blockStep k b a : PollPc β H) := by
  rw [blockStep]
  split_ifs
  · exact ⟨rfl, rfl, hs⟩
  · exact pollMid_actionStep rfl hs

/-- What the row loop has sent wherever it stands. -/
theorem PollMid.atRow {A a since : ℤ} {locals : Locals} {pairs : PairPc} {out : List (Emitted β H)}
    {pc : PollPc β H} {batch todo : List (ActionRow β)} (h : PollMid L c A locals pairs out pc)
    (hr : AtRow pc a since batch todo) : (pairs = .betLatches none ∧
      locals.currentActionIndex = a ∧ Settled L c locals.currentBlockIndex a) ∧
      ∀ sent, batch = sent ++ todo → ∀ r ∈ sent, Emitted.tip (.action r) ∈ out := by
  rcases hr with ⟨rfl, rfl⟩ | rfl
  · obtain ⟨hpairs, hlast, ha, hs⟩ := h
    refine ⟨⟨hpairs, ha, hs⟩, fun sent hsent r hr => ?_⟩
    rw [List.self_eq_append_left.mp hsent] at hr
    simp at hr
  · exact h


theorem answered_none {s : Passes β H} (h : s.pairs = .betLatches none) : Answered S cfg s s.pairs := by
  rw [h]
  simp [Answered]

/-! ### The passes -/

/-- Each pass reads no higher than the block cursor, to a delivered height or inside its block. -/
theorem PassInv.upTo_cases {s : Passes β H} (h : PassInv S cfg s) (hp : s.det.poll = .after)
    (cur : PairCursor) : s.upTo cur = cur.block ∨
      Delivered L s.det.chain s.det.coin.blockIndex s.det.coin.actionIndex (s.upTo cur) := by
  have hmid := h.mid
  rw [hp] at hmid
  exact readCeiling_cases hmid.1 hmid.2

/-- A coin in its passes is seeded. -/
theorem PassInv.seeded_of_after {s : Passes β H} (h : PassInv S cfg s) (hp : s.det.poll = .after) :
    s.det.coin.initialized = true := by
  have hshape := h.quiet.grown.shape.poll
  rw [hp] at hshape
  exact hshape

theorem PassInv.upTo_le {s : Passes β H} (h : PassInv S cfg s) (hp : s.det.poll = .after)
    {cur : PairCursor} (hcur : cur.block ≤ s.det.coin.blockIndex) :
    s.upTo cur ≤ L.getMaxBlockIndex s.det.chain := by
  obtain ⟨-, hB, -⟩ := h.quiet.grown.cursors (h.seeded_of_after hp)
  rcases h.upTo_cases hp cur with hup | hup
  · rw [hup]
    exact hcur.trans hB
  · exact hup.1.trans hB

theorem PassInv.readPairs {s : Passes β H} {pairs : PairPc} (h : PassInv S cfg s)
    (hp : s.det.poll = .after) (hr : s.readPairs S cfg = some pairs) :
    PassInv S cfg { s with pairs } := by
  have hmid := h.mid
  rw [hp] at hmid
  refine ⟨h.quiet, h.unseeded, h.seeded, by rw [hp]; exact hmid, fun _ => ?_⟩
  rw [Passes.readPairs] at hr
  split at hr
  case h_1 =>
    obtain rfl := Option.some.inj hr
    rintro rows ⟨⟩
    exact map_pair_since
  case h_2 =>
    obtain rfl := Option.some.inj hr
    rintro rows ⟨⟩
    exact map_pair_since
  case h_3 => simp at hr

theorem PassInv.runPairs {s s' : Passes β H} (h : PassInv S cfg s) (hp : s.det.poll = .after)
    (hr : s.runPairs cfg = some s') : PassInv S cfg s' := by
  have hmid := h.mid
  have hans := h.answered hp
  rw [hp] at hmid
  obtain ⟨seed, mark, hseed, hmark, hlive⟩ := h.seeded (h.seeded_of_after hp)
  have hi := h.seeded_of_after hp
  rw [Passes.runPairs] at hr
  split at hr
  case h_1 rows hpairs =>
    obtain rfl := Option.some.inj hr
    rw [hpairs] at hans
    refine ⟨h.quiet, by simp [hi], fun _ => ⟨seed, mark, hseed, hmark, ?_⟩, by rw [hp]; exact hmid,
      fun _ => by simp [Answered]⟩
    exact hlive.sendClosed cfg.fetchLimit_pos (hans rows rfl) (h.upTo_cases hp _)
  case h_2 rows hpairs =>
    obtain rfl := Option.some.inj hr
    rw [hpairs] at hans
    obtain ⟨hgrown, halone, hpend, -⟩ := h.quiet
    obtain ⟨⟨hhere, -, hsd, hmk⟩, hpast, hcur, hhist, htip, -, hsdg⟩ := hgrown
    refine ⟨⟨⟨⟨hhere, trivial, hsd, hmk⟩, hpast, hcur, hhist, htip, trivial, hsdg⟩, halone, hpend, trivial⟩,
      by simp [hi], fun _ => ⟨seed, mark, hseed, hmark, ?_⟩, trivial, by simp⟩
    exact hlive.sendResolved cfg.fetchLimit_pos (hans rows rfl) (h.upTo_cases hp _)
  case h_3 => simp at hr

/-! ### The steps of the detector -/

variable [DecidableEq H]

theorem follow_of_tip {s : Passes β H} {t : TipPc H} (hp : s.det.poll = .tip t)
    (hne : ∀ b a, t ≠ .maxAction b (some a)) : s.follow .run = s := by
  rw [Passes.follow, hp]
  rcases t with got | ⟨prev, cur, got⟩ | got | ⟨b, _ | a⟩
  case maxAction.some => exact absurd rfl (hne b a)
  all_goals rfl

/-- The end of the tip step of a seeded coin that owes no rewind. -/
theorem follow_of_proceed {s : Passes β H} {b a : ℤ} (hp : s.det.poll = .tip (.maxAction b (some a)))
    (hi : s.det.coin.initialized = true) (hpend : s.det.coin.pendingReorg = false) :
    s.follow .run = { s with locals := ⟨b, a, none⟩, pairs := .betLatches none } := by
  rw [Passes.follow, hp]
  simp [hi, hpend]

theorem follow_of_seed {s : Passes β H} {b a : ℤ} (hp : s.det.poll = .tip (.maxAction b (some a)))
    (hi : s.det.coin.initialized = false) : s.follow .run = s.seedPairs b := by
  rw [Passes.follow, hp]
  simp [hi]

/-- A row goes out, and nothing but the detector's state and the log moves. -/
theorem follow_of_sendRow {s : Passes β H} {a since : ℤ} {batch todo : List (ActionRow β)}
    {row : ActionRow β} (hr : AtRow s.det.poll a since batch (row :: todo)) : s.follow .run = s := by
  rcases hr with ⟨hp, rfl⟩ | hp <;> rw [Passes.follow, hp]

/-- The end of the action step: the last row's block is what the bound is measured by. -/
theorem follow_of_actionsSent {s : Passes β H} {A a since : ℤ} {batch : List (ActionRow β)}
    (hmid : PollMid L c A s.locals s.pairs s.out s.det.poll) (hr : AtRow s.det.poll a since batch []) :
    s.follow .run = { s with locals.lastActionBlock := batch.getLast?.map (·.block_index) } := by
  rcases hr with ⟨hp, rfl⟩ | hp
  · rw [hp] at hmid
    obtain ⟨-, hlast, -⟩ := hmid
    rw [Passes.follow, hp]
    obtain ⟨det, closed, xcall, ⟨b, a, last⟩, pairs, seedBlock, out⟩ := s
    simp only at hlast
    rw [hlast]
    rfl
  · rw [Passes.follow, hp]

/-- A step of the detector keeps the invariant. -/
theorem PassInv.detStep {s : Passes β H} {l : Label β} {det : Det β H} {events : List (Event β H)}
    (h : PassInv S cfg s) (hg : Grows s.det l) (hl : PollOnly l)
    (hpass : ¬ (s.det.poll = .after ∧ (l = .db ∨ l = .run))) (ht : Trans L cfg s.det l det events) :
    PassInv S cfg { s.follow l with det, out := s.out ++ events.map .tip } := by
  have hquiet := (h.quiet.step hg hl ht).1
  have hgrown := h.quiet.grown
  have hmid := h.mid
  cases ht with
  | chain c =>
    refine ⟨hquiet, by simpa [Passes.follow] using h.unseeded, fun hi => ?_, ?_, fun hp => ?_⟩
    · obtain ⟨seed, mark, hseed, hmark, hlive⟩ := h.seeded hi
      obtain ⟨-, hB, -, hA⟩ := hgrown.cursors hi
      refine ⟨seed, mark, hseed, hmark, ?_⟩
      rw [List.map_nil, List.append_nil]
      exact hlive.grow hg hB hA
    · rw [List.map_nil, List.append_nil]
      exact hmid.mono hg
    · obtain ⟨seed, mark, -, -, hlive⟩ := h.seeded (h.seeded_of_after hp)
      have hans := h.answered hp
      have hcl := h.upTo_le hp (hlive.closed.block_le hlive.seed_le)
      have hxc := h.upTo_le hp (hlive.xcall.block_le hlive.seed_le)
      cases hpairs : s.pairs with
      | betLatches got =>
        rw [hpairs] at hans
        simp only [Passes.follow, hpairs]
        intro rows hrows
        exact (hans rows hrows).trans
          (pairPage_grow hg hlive.seed_nonneg hlive.closed.above hcl).symm
      | xcallPhases got =>
        rw [hpairs] at hans
        simp only [Passes.follow, hpairs]
        intro rows hrows
        exact (hans rows hrows).trans
          (pairPage_grow hg hlive.seed_nonneg hlive.xcall.above hxc).symm
  | tick hp | fail hp =>
    refine ⟨hquiet, by simpa [Passes.follow] using h.unseeded, ?_, trivial, by simp⟩
    rw [List.map_nil, List.append_nil]
    exact h.seeded
  | readTip hp ht =>
    rw [hp] at hmid
    refine ⟨hquiet, by simpa [Passes.follow] using h.unseeded, ?_, ?_, by simp⟩
    · rw [List.map_nil, List.append_nil]
      exact h.seeded
    · rcases read_eq_some ht with ⟨rfl, rfl⟩ | ⟨prev, cur, rfl, rfl⟩ | ⟨rfl, rfl⟩ | ⟨b, rfl, rfl⟩
      · trivial
      · trivial
      · trivial
      · rintro a ⟨⟩
        have hpoll := hgrown.poll
        rw [hp] at hpoll
        exact settled_of_le_max hpoll.1.1.2
  | readSeedBlocks hp =>
    refine ⟨hquiet, by simpa [Passes.follow] using h.unseeded, ?_, trivial, by simp⟩
    rw [List.map_nil, List.append_nil]
    exact h.seeded
  | readFork hp =>
    have hpoll := h.quiet.poll
    rw [hp] at hpoll
    exact absurd hpoll id
  | readBlocks hp | readActions hp =>
    rw [hp] at hmid
    refine ⟨hquiet, by simpa [Passes.follow] using h.unseeded, ?_, ?_, by simp⟩
    · rw [List.map_nil, List.append_nil]
      exact h.seeded
    · exact hmid
  | @askTip t pc hp ht =>
    have hne : ∀ b a, t ≠ .maxAction b (some a) := by
      rintro b a rfl
      simp [TipPc.run] at ht
    rw [follow_of_tip hp hne, List.map_nil, List.append_nil]
    refine ⟨hquiet, h.unseeded, h.seeded, ?_, by simp⟩
    rcases run_eq_ask ht with ⟨cur, prev, -, -, rfl⟩ | ⟨b, -, rfl⟩
    · trivial
    · simp [PollMid]
  | @checked t cur reorged hp ht =>
    have hne : ∀ b a, t ≠ .maxAction b (some a) := by
      rintro b a rfl
      simp [TipPc.run] at ht
    rw [follow_of_tip hp hne, List.map_nil, List.append_nil]
    exact ⟨hquiet, h.unseeded, h.seeded, trivial, by simp⟩
  | seed hp ht hi =>
    rw [run_eq_done.mp ht] at hp
    have hpoll := hgrown.poll
    rw [hp] at hpoll
    rw [follow_of_seed hp hi, List.map_nil, List.append_nil, (h.unseeded hi).1]
    refine ⟨hquiet, by simp [Coin.seedCursors], fun _ => ⟨_, _, rfl, rfl, ?_⟩, trivial, by simp⟩
    exact Live.seeded hpoll.1.1.1
  | seeded hp =>
    have hf : s.follow .run = s := by rw [Passes.follow, hp]
    rw [hf, List.map_nil, List.append_nil]
    exact ⟨hquiet, h.unseeded, h.seeded, trivial, by simp⟩
  | searchFork hp ht hi hpend => simp [h.quiet.pending] at hpend
  | rewind hr hc =>
    rcases hr with ⟨t, -, -, -, hpend, -⟩ | ⟨heights, rows, hp, -⟩
    · simp [h.quiet.pending] at hpend
    · have hpoll := h.quiet.poll
      rw [hp] at hpoll
      exact absurd hpoll id
  | proceed hp ht hi hpend =>
    rw [run_eq_done.mp ht] at hp
    rw [hp] at hmid
    rw [follow_of_proceed hp hi hpend, List.map_nil, List.append_nil]
    exact ⟨hquiet, h.unseeded, h.seeded, pollMid_blockStep (hmid _ rfl), fun _ => answered_none rfl⟩
  | @blocksSent b a since rows hp =>
    have hf : s.follow .run = s := by rw [Passes.follow, hp]
    have hshape := hgrown.shape.poll
    rw [hp] at hmid hshape
    obtain ⟨hi, rfl, hpage⟩ := hshape
    have hpage := hpage rows rfl
    obtain ⟨hpairs, hlocals, hset⟩ := hmid
    obtain ⟨seed, mark, hseed, hmark, hlive⟩ := h.seeded hi
    rw [blocksSent_eq] at hquiet ⊢
    rw [hf]
    refine ⟨hquiet, by simp [hi], fun _ => ⟨seed, mark, hseed, hmark, ?_⟩, ?_, fun _ => answered_none hpairs⟩
    · refine hlive.sendBlocks hpage.reached_mem.1 fun row hr hlo hhi => ?_
      exact hpage.mem_of_le hgrown.past (hlive.seed_nonneg.trans hlive.seed_le) hr hlo hhi
    · rw [hpairs]
      have ha : a = s.locals.currentActionIndex := by rw [hlocals]
      subst ha
      exact pollMid_actionStep (by rw [hlocals]) (by rw [hlocals]; exact hset)
  | @sendRow a since batch row todo hr =>
    rw [follow_of_sendRow hr]
    obtain ⟨hi, hsince, hpage, -⟩ := hgrown.shape.poll.atRow hr
    obtain ⟨seed, mark, hseed, hmark, hlive⟩ := h.seeded hi
    have hrow : row ∈ batch := by
      rcases hr with ⟨-, hb⟩ | hp
      · exact hb ▸ List.mem_cons_self
      · have hshape := hgrown.shape.poll
        rw [hp] at hshape
        obtain ⟨-, -, -, sent, last, hb, -⟩ := hshape
        rw [hb]
        simp
    refine ⟨hquiet, by simp [Coin.setLiveMark, hi], fun _ => ⟨seed, mark, hseed, hmark, ?_⟩, ?_, by simp⟩
    · have hlt := hpage.since_lt hrow
      rw [hsince] at hlt
      exact hlive.sendAction (hpage.mem_actionRows hgrown.past hrow) hlt
    · obtain ⟨hat, hsent⟩ := hmid.atRow hr
      refine ⟨hat, fun sent hb r hr' => ?_⟩
      obtain ⟨-, -, -, before, hbatch⟩ := hgrown.shape.poll.atRow hr
      have hsplit : sent = before ++ [row] := by
        rw [hbatch, ← List.singleton_append, ← List.append_assoc] at hb
        exact (List.append_cancel_right hb).symm
      rw [hsplit] at hr'
      rcases List.mem_append.mp hr' with hr' | hr'
      · exact List.mem_append_left _ (hsent before hbatch r hr')
      · rw [List.mem_singleton.mp hr']
        simp
  | @actionsSent a since batch hr =>
    obtain ⟨hi, hsince, hpage, -⟩ := hgrown.shape.poll.atRow hr
    obtain ⟨⟨hpairs, ha, hset⟩, hsent⟩ := hmid.atRow hr
    obtain ⟨seed, mark, hseed, hmark, hlive⟩ := h.seeded hi
    have hall : ∀ r ∈ batch, Emitted.tip (.action r) ∈ s.out :=
      hsent batch (List.append_nil batch).symm
    rw [actionsSent_eq] at hquiet ⊢
    rw [follow_of_actionsSent hmid hr, List.map_nil, List.append_nil]
    refine ⟨hquiet, by simp [hi], fun _ => ⟨seed, mark, hseed, hmark, ?_⟩, ⟨?_, fun x hx => ?_⟩,
      fun _ => answered_none hpairs⟩
    · refine hlive.advance (hsince ▸ hpage.reached_mem.1) fun r hr hlo hhi => hall r ?_
      exact hpage.mem_of_le hgrown.past hr (hsince ▸ hlo) hhi
    · exact ha ▸ hset
    · obtain ⟨last, hlast, rfl⟩ := Option.map_eq_some_iff.mp hx
      have hreach : Page.reached (·.action_index) since batch = last.action_index := by
        rw [Page.reached, hlast, Option.map_some, Option.getD_some]
      simp only [hreach]
      exact settled_of_row (hpage.mem_actionRows hgrown.past (List.mem_of_getLast? hlast))
  | finish hp => exact absurd ⟨hp, .inr rfl⟩ hpass
  | seedStart => exact absurd rfl hl
  | seedFail hs => exact absurd h.quiet.alone hs
  | seedReadTip hs | seedReadBlocks hs | seedAskTip hs | seedChecked hs | seedSkip hs
  | seedCursors hs | seedSeeded hs => simp [h.quiet.alone] at hs

theorem PassInv.step {s s' : Passes β H} {l : Label β} (h : PassInv S cfg s) (hg : Grows s.det l)
    (hl : PollOnly l) (hs : s.step S cfg l = some s') : PassInv S cfg s' := by
  rcases passes_step_cases hs with ⟨pairs, -, hp, hr, rfl⟩ | ⟨-, hp, hr⟩ | ⟨det, events, hpass, hd, rfl⟩
  · exact h.readPairs hp hr
  · exact h.runPairs hp hr
  · exact h.detStep hg hl hpass (trans_of_step hd)

end ChangeDetector
