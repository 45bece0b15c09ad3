import XChainExplorer.Ws.PollSteps

/-! # What always holds of a poll

    What the coin's functions do to its state, in closed form, and the facts of every run that need
    no condition on its steps: where the cursors stand while a read is out. -/

namespace ChangeDetector
open Tables TipProbe

variable {β H : Type*} {L : Ledger β H} {cfg : Config}

/-! ### The cursor steps -/

/-- An integer cursor lands on the last row fetched, and stays when there was none. -/
theorem nextCursor_eq {α : Type*} (key : α → ℤ) (rows : List α) (max since : ℤ) :
    nextCursor (rows.getLast?.map key) max since = Page.reached key since rows := by
  cases h : rows.getLast? with
  | none => simp [nextCursor, Page.reached, h]
  | some row =>
    simp only [nextCursor, Page.reached, h, Option.map_some, Option.getD_some]
    split_ifs <;> omega

/-- The flag is raised exactly by a page that came back short of the tip read before it. -/
theorem noteShortFetch_eq (k : Coin H) (n m : ℕ) (reached tip : ℤ) :
    k.noteShortFetch n m reached tip =
      { k with pendingReorg := k.pendingReorg || decide (m < n ∧ reached < tip) } := by
  unfold Coin.noteShortFetch
  split_ifs with h1 h2
  · simp [not_lt.mpr h1]
  · simp [not_le.mp h1, h2]
  · simp [h2]

theorem raiseMark_eq (k : Coin H) : k.raiseMark =
    { k with liveActionMark := some (max (k.liveActionMark.getD k.actionIndex) k.actionIndex) } := by
  unfold Coin.raiseMark Coin.setLiveMark
  split
  case h_1 mark h =>
    split_ifs with hm
    · simp [h, max_eq_right hm.le]
    · cases k
      simp_all
  case h_2 h => simp [h]

theorem blocksSent_eq (k : Coin H) (b since : ℤ) (rows : List (BlockRow H)) :
    k.blocksSent cfg b since rows =
      { k with
        history := rememberBlocks k.history rows
        blockIndex := Page.reached (·.block_index) since rows
        pendingReorg := k.pendingReorg || decide (rows.length < cfg.fetchLimit ∧
          Page.reached (·.block_index) since rows < b) } := by
  rw [Coin.blocksSent, noteShortFetch_eq, nextCursor_eq]

theorem actionsSent_eq (k : Coin H) (a since : ℤ) (rows : List (ActionRow β)) :
    k.actionsSent cfg a since rows =
      { k with
        history := rememberActions k.history rows
        actionIndex := Page.reached (·.action_index) since rows
        liveActionMark := some (max
          (k.liveActionMark.getD (Page.reached (·.action_index) since rows))
          (Page.reached (·.action_index) since rows))
        pendingReorg := k.pendingReorg || decide (rows.length < cfg.fetchLimit ∧
          Page.reached (·.action_index) since rows < a) } := by
  rw [Coin.actionsSent, raiseMark_eq, noteShortFetch_eq, nextCursor_eq]

/-! ### The rewind -/

theorem dropMark_eq (k : Coin H) : k.dropMark =
    { k with liveActionMark := k.liveActionMark.map fun m => min m k.actionIndex } := by
  unfold Coin.dropMark Coin.setLiveMark
  split
  case h_1 mark h =>
    split_ifs with hm
    · simp [h, min_eq_right hm.le]
    · cases k
      simp_all
  case h_2 h =>
    cases k
    simp_all

theorem clampTip_eq (k : Coin H) (b a : ℤ) : k.clampTip b a =
    { k with blockIndex := min k.blockIndex b, actionIndex := min k.actionIndex a } := by
  simp only [Coin.clampTip, Coin.mk.injEq, true_and, and_true]
  constructor <;> split_ifs <;> omega

/-- Where a fork leaves the action cursor. -/
def forkAction (k : Coin H) (fork : Option ℤ) : ℤ :=
  match fork.bind (lowestFirstAction k.history) with
  | some first => min k.actionIndex (first - 1)
  | none => k.actionIndex

/-- What a fork leaves of the history. -/
def forkHistory (k : Coin H) : Option ℤ → History H
  | some fork => KeyedMap.keep (fun height => decide (height < fork)) k.history
  | none => k.history

theorem forkAction_le (k : Coin H) (fork : Option ℤ) : forkAction k fork ≤ k.actionIndex := by
  unfold forkAction
  split
  · exact min_le_left _ _
  · exact le_rfl

theorem rewindCursors_eq (k : Coin H) (fork : Option ℤ) (b a : ℤ) : k.rewindCursors fork b a =
    { k with
      blockIndex := min (fork.elim k.blockIndex fun f => min k.blockIndex (f - 1)) b
      actionIndex := min (forkAction k fork) a
      history := forkHistory k fork
      liveActionMark := k.liveActionMark.map fun m => min m (min (forkAction k fork) a) } := by
  cases fork with
  | none => simp [Coin.rewindCursors, dropMark_eq, clampTip_eq, forkAction, forkHistory]
  | some f =>
    have hB : (k.dropFork f).blockIndex = min k.blockIndex (f - 1) := by
      simp only [Coin.dropFork]
      split_ifs <;> omega
    have hA : (k.dropFork f).actionIndex = forkAction k (some f) := by
      simp only [Coin.dropFork, forkAction, Option.bind_some]
      cases lowestFirstAction k.history f with
      | none => rfl
      | some first =>
        simp only
        split_ifs <;> omega
    rw [Coin.rewindCursors]
    simp only [dropMark_eq, clampTip_eq, hB, hA, Option.elim_some]
    rfl

/-- What the rewind and its notice leave and what they emit: a REORG frame goes out exactly when a
    cursor moved back, and it voids everything above the action cursor. -/
theorem rollback_cases {k k' : Coin H} {fork : Option ℤ} {b a : ℤ} {evs : List (Event β H)}
    (hc : k.rollback fork b a = (k', evs)) :
    (evs = [] ∧ k' = { k.rewindCursors fork b a with pendingReorg := false } ∧
      k'.blockIndex = k.blockIndex ∧ k'.actionIndex = k.actionIndex) ∨
    ∃ forkBlock reorgLog, evs = [.reorg forkBlock (k'.actionIndex + 1)] ∧
      k' = { k.rewindCursors fork b a with
        pendingReorg := false
        rollbackSeq := k.rollbackSeq + 1
        rollbacks := pushLog REORG_LOG_DEPTH k.rollbacks
          { seq := k.rollbackSeq + 1, forkBlock
            firstInvalid := (k.rewindCursors fork b a).actionIndex + 1 }
        reorgLog } ∧
      (k'.blockIndex < k.blockIndex ∨ k'.actionIndex < k.actionIndex) ∧
      (k'.actionIndex < k.actionIndex → reorgLog = pushLog REORG_LOG_DEPTH k.reorgLog
        { forkBlock, firstInvalid := k'.actionIndex + 1, previousTip := k.actionIndex }) ∧
      (¬ k'.actionIndex < k.actionIndex → reorgLog = k.reorgLog) := by
  have hle : (k.rewindCursors fork b a).blockIndex ≤ k.blockIndex ∧
      (k.rewindCursors fork b a).actionIndex ≤ k.actionIndex := by
    rw [rewindCursors_eq]
    refine ⟨?_, (min_le_left _ _).trans (forkAction_le k fork)⟩
    cases fork <;> simp
  simp only [Coin.rollback, Coin.announceRollback, Coin.noteRollback] at hc
  split_ifs at hc with hm hv
  · right
    obtain ⟨rfl, rfl⟩ := Prod.mk.inj hc
    refine ⟨_, _, rfl, ?_, hm, fun _ => rfl, fun h => absurd ?_ h⟩
    · simp only [rewindCursors_eq]
    · simp only at hv ⊢
      omega
  · right
    obtain ⟨rfl, rfl⟩ := Prod.mk.inj hc
    refine ⟨_, _, rfl, ?_, hm, fun h => absurd ?_ hv, fun _ => rfl⟩
    · simp only [rewindCursors_eq]
    · simp only at h ⊢
      omega
  · left
    obtain ⟨rfl, rfl⟩ := Prod.mk.inj hc
    refine ⟨rfl, rfl, ?_, ?_⟩ <;> simp only at hm ⊢ <;> omega

/-! ### Where the cursors stand -/

variable (L cfg) in
/-- An action page some chain of the past answered. -/
def ActionPage (past : List (Chain β)) (since : ℤ) (rows : List (ActionRow β)) : Prop :=
  ∃ c ∈ past, rows = L.getActionsSince c since cfg.fetchLimit none

variable (L cfg) in
/-- A block page some chain of the past answered. -/
def BlockPage (past : List (Chain β)) (since : ℤ) (rows : List (BlockRow H)) : Prop :=
  ∃ c ∈ past, rows = L.getBlocksSince c since cfg.fetchLimit

variable (L) in
/-- The seed's block rows, read by some chain of the past. -/
def SeedPage (past : List (Chain β)) (b : ℤ) (rows : List (BlockRow H)) : Prop :=
  ∃ c ∈ past, rows = seedRows L c b

variable (L cfg) in
/-- Past the tip step the coin is seeded; while a step's read is out its cursor does not move, and
    inside the row loop the live mark is at the row last sent. -/
def PollShape (past : List (Chain β)) (k : Coin H) : PollPc β H → Prop
  | .idle | .tip _ => True
  | .seedBlocks b _ got => k.initialized = true ∧ ∀ rows, got = some rows → SeedPage L past b rows
  | .fork _ _ _ _ | .after => k.initialized = true
  | .blocks _ _ since got => k.initialized = true ∧ since = k.blockIndex ∧
      ∀ rows, got = some rows → BlockPage L cfg past since rows
  | .actions _ since got => k.initialized = true ∧ since = k.actionIndex ∧
      ∀ rows, got = some rows → ActionPage L cfg past since rows
  | .fanout _ since batch todo => k.initialized = true ∧ since = k.actionIndex ∧
      ActionPage L cfg past since batch ∧
      ∃ sent row, batch = sent ++ row :: todo ∧ k.liveActionMark = some row.action_index

variable (L) in
def SeedShape (past : List (Chain β)) (k : Coin H) : SeedPc H → Prop
  | .seedBlocks b _ got => k.initialized = true ∧ ∀ rows, got = some rows → SeedPage L past b rows
  | _ => True

variable (L cfg) in
structure Shape (d : Det β H) : Prop where
  here : d.chain ∈ d.past
  poll : PollShape L cfg d.past d.coin d.poll
  seeding : SeedShape L d.past d.coin d.seeding
  marks : d.coin.initialized = true →
    ∃ s m, d.coin.seedActionMark = some s ∧ d.coin.liveActionMark = some m

theorem Shape.init (c : Chain β) : Shape L cfg (Det.init c : Det β H) :=
  ⟨List.mem_singleton.mpr rfl, trivial, trivial, by simp [Det.init]⟩

/-- An unseeded coin's poll is idle or reading the tip. -/
theorem Shape.unseeded {d : Det β H} (h : Shape L cfg d) (hi : d.coin.initialized = false) :
    d.poll = .idle ∨ ∃ t, d.poll = .tip t := by
  have hp := h.poll
  cases hpoll : d.poll <;> simp_all [PollShape]

theorem ActionPage.mono {past past' : List (Chain β)} (hsub : past ⊆ past') {since : ℤ}
    {rows : List (ActionRow β)} (h : ActionPage L cfg past since rows) :
    ActionPage L cfg past' since rows := by
  obtain ⟨c, hc, hr⟩ := h
  exact ⟨c, hsub hc, hr⟩

theorem BlockPage.mono {past past' : List (Chain β)} (hsub : past ⊆ past') {since : ℤ}
    {rows : List (BlockRow H)} (h : BlockPage L cfg past since rows) :
    BlockPage L cfg past' since rows := by
  obtain ⟨c, hc, hr⟩ := h
  exact ⟨c, hsub hc, hr⟩

theorem ActionPage.pairwise {past : List (Chain β)} {since : ℤ} {rows : List (ActionRow β)}
    (h : ActionPage L cfg past since rows) :
    rows.Pairwise (·.action_index < ·.action_index) := by
  obtain ⟨c, -, rfl⟩ := h
  exact Page.fetch_pairwise (actionRows_pairwise.filter _)

theorem ActionPage.since_lt {past : List (Chain β)} {since : ℤ} {rows : List (ActionRow β)}
    (h : ActionPage L cfg past since rows) {row : ActionRow β} (hr : row ∈ rows) :
    since < row.action_index := by
  obtain ⟨c, -, rfl⟩ := h
  exact (Page.mem_of_mem_fetch hr).2

/-- A block page reaches one of its rows, or stays where it was asked from. -/
theorem BlockPage.reached_mem {past : List (Chain β)} {since : ℤ} {rows : List (BlockRow H)}
    (h : BlockPage L cfg past since rows) :
    since ≤ Page.reached (·.block_index) since rows ∧
      (Page.reached (·.block_index) since rows = since ∨
        ∃ row ∈ rows, row.block_index = Page.reached (·.block_index) since rows) := by
  obtain ⟨c, -, rfl⟩ := h
  refine ⟨Page.since_le_reached, ?_⟩
  by_cases hnil : L.getBlocksSince c since cfg.fetchLimit = []
  · exact .inl (by rw [hnil, Page.reached_nil])
  · exact .inr (Page.reached_mem _ _ hnil)

theorem ActionPage.reached_mem {past : List (Chain β)} {since : ℤ} {rows : List (ActionRow β)}
    (h : ActionPage L cfg past since rows) :
    since ≤ Page.reached (·.action_index) since rows ∧
      (Page.reached (·.action_index) since rows = since ∨
        ∃ row ∈ rows, row.action_index = Page.reached (·.action_index) since rows) := by
  obtain ⟨c, -, rfl⟩ := h
  refine ⟨Page.since_le_reached, ?_⟩
  by_cases hnil : L.getActionsSince c since cfg.fetchLimit none = []
  · exact .inl (by rw [hnil, Page.reached_nil])
  · exact .inr (Page.reached_mem _ _ hnil)

theorem SeedPage.mono {past past' : List (Chain β)} (hsub : past ⊆ past') {b : ℤ}
    {rows : List (BlockRow H)} (h : SeedPage L past b rows) : SeedPage L past' b rows := by
  obtain ⟨c, hc, hr⟩ := h
  exact ⟨c, hsub hc, hr⟩

theorem SeedShape.mono {past past' : List (Chain β)} (hsub : past ⊆ past') {k : Coin H}
    {pc : SeedPc H} (h : SeedShape L past k pc) : SeedShape L past' k pc := by
  cases pc with
  | seedBlocks => exact ⟨h.1, fun rows hr => (h.2 rows hr).mono hsub⟩
  | _ => exact h

theorem SeedShape.congr {past : List (Chain β)} {k k' : Coin H} {pc : SeedPc H}
    (h : SeedShape L past k pc) (hi : k.initialized = true → k'.initialized = true) :
    SeedShape L past k' pc := by
  cases pc with
  | seedBlocks => exact ⟨hi h.1, h.2⟩
  | _ => exact h

theorem PollShape.mono {past past' : List (Chain β)} (hsub : past ⊆ past') {k : Coin H}
    {pc : PollPc β H} (h : PollShape L cfg past k pc) : PollShape L cfg past' k pc := by
  cases pc with
  | seedBlocks => exact ⟨h.1, fun rows hr => (h.2 rows hr).mono hsub⟩
  | blocks => exact ⟨h.1, h.2.1, fun rows hr => (h.2.2 rows hr).mono hsub⟩
  | actions => exact ⟨h.1, h.2.1, fun rows hr => (h.2.2 rows hr).mono hsub⟩
  | fanout => exact ⟨h.1, h.2.1, h.2.2.1.mono hsub, h.2.2.2⟩
  | _ => exact h

/-- The shape reads the cursors and the live mark only. -/
theorem PollShape.congr {past : List (Chain β)} {k k' : Coin H} {pc : PollPc β H}
    (h : PollShape L cfg past k pc) (hi : k'.initialized = k.initialized)
    (hB : k'.blockIndex = k.blockIndex) (hA : k'.actionIndex = k.actionIndex)
    (hM : k'.liveActionMark = k.liveActionMark) : PollShape L cfg past k' pc := by
  cases pc <;> simp only [PollShape, hi, hB, hA, hM] at h ⊢ <;> exact h

theorem pollShape_actionStep {past : List (Chain β)} {k : Coin H} (hi : k.initialized = true)
    (a : ℤ) : PollShape L cfg past k (actionStep k a : PollPc β H) := by
  unfold actionStep
  split_ifs
  · exact ⟨hi, rfl, by simp⟩
  · exact hi

theorem pollShape_blockStep {past : List (Chain β)} {k : Coin H} (hi : k.initialized = true)
    (b a : ℤ) : PollShape L cfg past k (blockStep k b a : PollPc β H) := by
  unfold blockStep
  split_ifs
  · exact ⟨hi, rfl, by simp⟩
  · exact pollShape_actionStep hi a

/-- What the row loop knows wherever it stands. -/
theorem PollShape.atRow {past : List (Chain β)} {k : Coin H} {pc : PollPc β H} {a since : ℤ}
    {batch todo : List (ActionRow β)} (h : PollShape L cfg past k pc)
    (hr : AtRow pc a since batch todo) :
    k.initialized = true ∧ since = k.actionIndex ∧ ActionPage L cfg past since batch ∧
      ∃ sent, batch = sent ++ todo := by
  rcases hr with ⟨rfl, rfl⟩ | rfl
  · exact ⟨h.1, h.2.1, h.2.2 _ rfl, [], rfl⟩
  · obtain ⟨hi, hs, hp, sent, row, hb, -⟩ := h
    exact ⟨hi, hs, hp, sent ++ [row], by simpa using hb⟩

/-- A rewind keeps the seed and both marks. -/
theorem rollback_marks {k k' : Coin H} {fork : Option ℤ} {b a : ℤ} {evs : List (Event β H)}
    (hc : k.rollback fork b a = (k', evs)) :
    k'.initialized = k.initialized ∧ k'.seedActionMark = k.seedActionMark ∧
      k'.pendingReorg = false ∧ k'.history = forkHistory k fork ∧
      k'.blockIndex = min (fork.elim k.blockIndex fun f => min k.blockIndex (f - 1)) b ∧
      k'.actionIndex = min (forkAction k fork) a ∧
      k'.liveActionMark = k.liveActionMark.map fun m => min m k'.actionIndex := by
  rcases rollback_cases hc with ⟨-, rfl, -⟩ | ⟨_, _, -, rfl, -⟩ <;> simp [rewindCursors_eq]

/-! ### The live mark

    A row's fan-out that throws leaves the mark above the fetch cursor. Without one the mark is at
    the cursor whenever the row loop is not running. -/

/-- Is the poll waiting for a row's fan-out? -/
def PollPc.isFanout : PollPc β H → Bool
  | .fanout _ _ _ _ => true
  | _ => false

/-- The step throws out of no row's fan-out. -/
def FanoutReturns (d : Det β H) (l : Label β) : Prop := l = .fail → d.poll.isFanout = false

instance [DecidableEq β] (d : Det β H) (l : Label β) : Decidable (FanoutReturns d l) :=
  inferInstanceAs (Decidable (_ → _))

@[simp] theorem isFanout_actionStep (k : Coin H) (a : ℤ) :
    (actionStep k a : PollPc β H).isFanout = false := by
  unfold actionStep; split_ifs <;> rfl

variable (L cfg) in
structure Marked (d : Det β H) : Prop where
  shape : Shape L cfg d
  mark : d.coin.initialized = true → d.poll.isFanout = false →
    d.coin.liveActionMark = some d.coin.actionIndex

theorem Marked.init (c : Chain β) : Marked L cfg (Det.init c : Det β H) :=
  ⟨Shape.init c, by simp [Det.init]⟩

/-- The row about to be sent lies just past the mark: no row of the page is between them. -/
theorem Marked.sendRow {d : Det β H} (h : Marked L cfg d) {a since : ℤ}
    {batch todo : List (ActionRow β)} {row : ActionRow β}
    (hr : AtRow d.poll a since batch (row :: todo)) :
    ∃ m, d.coin.liveActionMark = some m ∧ m < row.action_index ∧
      ∀ r ∈ batch, m < r.action_index → row.action_index ≤ r.action_index := by
  have hshape := h.shape.poll
  obtain ⟨hi, hs, hpage, sent, hb⟩ := hshape.atRow hr
  have hsort := hpage.pairwise
  have hnext : ∀ r ∈ row :: todo, row.action_index ≤ r.action_index := by
    rw [hb] at hsort
    intro r hmem
    rcases List.mem_cons.mp hmem with rfl | hmem
    · exact le_rfl
    · exact ((List.pairwise_cons.mp (List.pairwise_append.mp hsort).2.1).1 r hmem).le
  rcases hr with ⟨hp, hbatch⟩ | hp
  · refine ⟨since, ?_, hpage.since_lt (hbatch ▸ List.mem_cons_self), ?_⟩
    · rw [hs]
      exact h.mark hi (by rw [hp]; rfl)
    · intro r hmem _
      exact hnext r (hbatch ▸ hmem)
  · rw [hp] at hshape
    obtain ⟨-, -, -, sent', last, hb', hm⟩ := hshape
    rw [hb'] at hsort
    have htail := (List.pairwise_append.mp hsort).2
    refine ⟨_, hm, (List.pairwise_cons.mp htail.1).1 row List.mem_cons_self, ?_⟩
    intro r hmem hlt
    rw [hb'] at hmem
    rcases List.mem_append.mp hmem with hmem | hmem
    · exact absurd (htail.2 r hmem last List.mem_cons_self) hlt.not_gt
    · rcases List.mem_cons.mp hmem with rfl | hmem
      · exact absurd hlt (lt_irrefl _)
      · exact hnext r hmem

/-- Once the page has gone out the mark is at the row it reached. -/
theorem Marked.rowsSent {d : Det β H} (h : Marked L cfg d) {a since : ℤ}
    {batch : List (ActionRow β)} (hr : AtRow d.poll a since batch []) :
    d.coin.liveActionMark = some (Page.reached (·.action_index) since batch) := by
  have hshape := h.shape.poll
  obtain ⟨hi, hs, -⟩ := hshape.atRow hr
  rcases hr with ⟨hp, rfl⟩ | hp
  · rw [Page.reached_nil, hs]
    exact h.mark hi (by rw [hp]; rfl)
  · rw [hp] at hshape
    obtain ⟨-, -, -, sent, last, hb, hm⟩ := hshape
    rw [hm, hb, Page.reached_concat]

/-! ### The steps -/

variable [DecidableEq H]

theorem AtRewind.initialized {d : Det β H} {fork : Option ℤ} {b a : ℤ} (h : Shape L cfg d)
    (hr : AtRewind d fork b a) : d.coin.initialized = true := by
  rcases hr with ⟨t, -, -, hi, -⟩ | ⟨heights, rows, hpoll, -⟩
  · exact hi
  · have := h.poll
    rw [hpoll] at this
    exact this

theorem Shape.step {d d' : Det β H} {l : Label β} {evs : List (Event β H)} (h : Shape L cfg d)
    (ht : Trans L cfg d l d' evs) : Shape L cfg d' := by
  have hpoll := h.poll
  have hseed := h.seeding
  cases ht with
  | chain c =>
    have hsub := List.subset_cons_self c d.past
    exact ⟨List.mem_cons_self, hpoll.mono hsub, hseed.mono hsub, h.marks⟩
  | tick | fail | readTip | askTip | finish => exact ⟨h.here, trivial, hseed, h.marks⟩
  | readSeedBlocks hp =>
    rw [hp] at hpoll
    refine ⟨h.here, ⟨hpoll.1, ?_⟩, hseed, h.marks⟩
    rintro rows ⟨⟩
    exact ⟨_, h.here, rfl⟩
  | readFork hp => exact ⟨h.here, by rw [hp] at hpoll; exact hpoll, hseed, h.marks⟩
  | readBlocks hp =>
    rw [hp] at hpoll
    refine ⟨h.here, ⟨hpoll.1, hpoll.2.1, ?_⟩, hseed, h.marks⟩
    rintro rows ⟨⟩
    exact ⟨_, h.here, rfl⟩
  | readActions hp =>
    rw [hp] at hpoll
    refine ⟨h.here, ⟨hpoll.1, hpoll.2.1, ?_⟩, hseed, h.marks⟩
    rintro rows ⟨⟩
    exact ⟨_, h.here, rfl⟩
  | checked hp ht => exact ⟨h.here, trivial, hseed.congr id, h.marks⟩
  | seed hp ht hi =>
    exact ⟨h.here, ⟨rfl, by simp⟩, hseed.congr fun _ => rfl, fun _ => ⟨_, _, rfl, rfl⟩⟩
  | seeded hp => exact ⟨h.here, trivial, hseed.congr id, h.marks⟩
  | searchFork hp ht hi => exact ⟨h.here, hi, hseed, h.marks⟩
  | rewind hr hc =>
    obtain ⟨hi, hs, -, -, -, -, hm⟩ := rollback_marks hc
    have hinit := hr.initialized h
    refine ⟨h.here, pollShape_blockStep (hi.trans hinit) _ _, hseed.congr hi.trans, fun _ => ?_⟩
    obtain ⟨s, m, h1, h2⟩ := h.marks hinit
    exact ⟨s, _, hs.trans h1, by rw [hm, h2]; rfl⟩
  | proceed hp ht hi => exact ⟨h.here, pollShape_blockStep hi _ _, hseed, h.marks⟩
  | blocksSent hp =>
    rw [hp] at hpoll
    rw [blocksSent_eq]
    refine ⟨h.here, pollShape_actionStep ?_ _, hseed.congr id, h.marks⟩
    exact hpoll.1
  | sendRow hr =>
    obtain ⟨hi, hs, hpage, sent, hb⟩ := hpoll.atRow hr
    refine ⟨h.here, ⟨hi, hs, hpage, sent, _, hb, rfl⟩, hseed.congr id, fun _ => ?_⟩
    obtain ⟨s, m, h1, -⟩ := h.marks hi
    exact ⟨s, _, h1, rfl⟩
  | actionsSent hr =>
    obtain ⟨hi, -⟩ := hpoll.atRow hr
    obtain ⟨s, m, h1, -⟩ := h.marks hi
    rw [actionsSent_eq]
    exact ⟨h.here, hi, hseed.congr id, fun _ => ⟨s, _, h1, rfl⟩⟩
  | seedStart | seedFail | seedReadTip | seedAskTip | seedSkip =>
    exact ⟨h.here, hpoll, trivial, h.marks⟩
  | seedReadBlocks hs =>
    rw [hs] at hseed
    refine ⟨h.here, hpoll, ⟨hseed.1, ?_⟩, h.marks⟩
    rintro rows ⟨⟩
    exact ⟨_, h.here, rfl⟩
  | seedChecked hs ht =>
    exact ⟨h.here, hpoll.congr rfl rfl rfl rfl, trivial, h.marks⟩
  | seedCursors hs ht hi =>
    refine ⟨h.here, ?_, ⟨rfl, by simp⟩, fun _ => ⟨_, _, rfl, rfl⟩⟩
    rcases h.unseeded hi with hp | ⟨t, hp⟩ <;> simp [hp, PollShape]
  | seedSeeded hs => exact ⟨h.here, hpoll.congr rfl rfl rfl rfl, trivial, h.marks⟩

theorem AtRewind.not_fanout {d : Det β H} {fork : Option ℤ} {b a : ℤ} (h : AtRewind d fork b a) :
    d.poll.isFanout = false := by
  rcases h with ⟨t, hp, -⟩ | ⟨heights, rows, hp, -⟩ <;> rw [hp] <;> rfl

theorem Marked.step {d d' : Det β H} {l : Label β} {evs : List (Event β H)} (h : Marked L cfg d)
    (hl : FanoutReturns d l) (ht : Trans L cfg d l d' evs) : Marked L cfg d' := by
  refine ⟨h.shape.step ht, ?_⟩
  have hmark := h.mark
  cases ht with
  | chain | seedStart | seedFail | seedReadTip | seedReadBlocks | seedAskTip | seedSkip => exact hmark
  | tick hp => exact fun hi _ => hmark hi (by rw [hp]; rfl)
  | fail hp => exact fun hi _ => hmark hi (hl rfl)
  | readTip hp | readSeedBlocks hp | readFork hp | readBlocks hp | readActions hp | askTip hp
  | checked hp | seeded hp | searchFork hp | finish hp =>
    exact fun hi _ => hmark hi (by rw [hp]; rfl)
  | seed | seedCursors => exact fun _ _ => rfl
  | rewind hr hc =>
    intro _ _
    obtain ⟨-, -, -, -, -, hA, hm⟩ := rollback_marks hc
    rw [hm, hmark (hr.initialized h.shape) hr.not_fanout, hA]
    simp [forkAction_le]
  | proceed hp ht hi => exact fun hi _ => hmark hi (by rw [hp]; rfl)
  | blocksSent hp =>
    intro hi _
    rw [blocksSent_eq] at hi ⊢
    exact hmark hi (by rw [hp]; rfl)
  | sendRow => exact fun _ hf => absurd hf (by simp [PollPc.isFanout])
  | actionsSent hr =>
    intro _ _
    rw [actionsSent_eq, h.rowsSent hr]
    simp
  | seedChecked => exact hmark
  | seedSeeded => exact hmark

end ChangeDetector
