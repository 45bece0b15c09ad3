import XChainExplorer.Ws.Poll

/-! # What one step of the poll can do

    Every transition of `Det.step` with its guard, its effect and what it emits, so that an
    invariant is a case analysis over transitions and never unfolds the step function. -/

namespace ChangeDetector
open Tables TipProbe

variable {β H : Type*} [DecidableEq H] {L : Ledger β H} {cfg : Config}

/-- The seeded blocks' read. -/
def seedRows (L : Ledger β H) (c : Chain β) (b : ℤ) : List (BlockRow H) :=
  L.getBlocksSince c (b - HISTORY_DEPTH) (HISTORY_DEPTH * 2)

/-- The fork search's read. -/
def forkRows (L : Ledger β H) (c : Chain β) (heights : List ℤ) : List (BlockRow H) :=
  L.getBlocksSince c (heights.head?.getD 0 - 1) (HISTORY_DEPTH * 2)

/-- Where the row loop stands before it emits `todo`: at its start, or inside it. -/
def AtRow (pc : PollPc β H) (a since : ℤ) (batch todo : List (ActionRow β)) : Prop :=
  (pc = .actions a since (some batch) ∧ todo = batch) ∨ pc = .fanout a since batch todo

/-- Where a rewind starts: the tip step is done and nothing is remembered, or the fork search's
    read is back. -/
def AtRewind (d : Det β H) (fork : Option ℤ) (b a : ℤ) : Prop :=
  (∃ t, d.poll = .tip t ∧ t.run d.lastTip = some (.done b a) ∧ d.coin.initialized = true ∧
    d.coin.pendingReorg = true ∧ KeyedMap.sortedKeys d.coin.history = [] ∧ fork = none) ∨
  ∃ heights rows, d.poll = .fork b a heights (some rows) ∧
    fork = findForkPoint d.coin.history heights rows

/-! ### The tip step -/

theorem run_eq_done {t : TipPc H} {lastTip : Option (Tip H)} {b a : ℤ} :
    t.run lastTip = some (.done b a) ↔ t = .maxAction b (some a) := by
  constructor
  · intro h
    unfold TipPc.run at h
    split at h <;> simp only [Option.some.injEq, reduceCtorEq] at h
    · split at h <;> simp at h
    · simp only [TipRun.done.injEq] at h
      rw [h.1, h.2]
  · rintro rfl
    rfl

theorem run_eq_ask {t pc : TipPc H} {lastTip : Option (Tip H)}
    (h : t.run lastTip = some (.ask pc)) :
    (∃ cur prev, t = .tip (some (some cur)) ∧ blockReplaced lastTip cur = .readRow prev ∧
      pc = .row prev cur none) ∨ ∃ b, t = .maxBlock (some b) ∧ pc = .maxAction b none := by
  unfold TipPc.run at h
  split at h <;> simp only [Option.some.injEq, reduceCtorEq] at h
  case h_2 cur =>
    split at h
    · simp at h
    case h_2 prev hr =>
      simp only [TipRun.ask.injEq] at h
      exact .inl ⟨cur, prev, rfl, hr, h.symm⟩
  case h_4 b =>
    simp only [TipRun.ask.injEq] at h
    exact .inr ⟨b, rfl, h.symm⟩

theorem run_eq_checked {t : TipPc H} {lastTip cur : Option (Tip H)} {reorged : Bool}
    (h : t.run lastTip = some (.checked cur reorged)) :
    (t = .tip (some none) ∧ cur = none ∧ reorged = false) ∨
    (∃ c, t = .tip (some (some c)) ∧ cur = some c ∧ blockReplaced lastTip c = .verdict reorged) ∨
    ∃ prev c found, t = .row prev c (some found) ∧ cur = some c ∧
      reorged = blockReplacedRow prev found := by
  unfold TipPc.run at h
  split at h <;> simp only [Option.some.injEq, reduceCtorEq] at h
  case h_1 =>
    simp only [TipRun.checked.injEq] at h
    exact .inl ⟨rfl, h.1.symm, h.2.symm⟩
  case h_2 c =>
    split at h
    case h_1 r hr =>
      simp only [TipRun.checked.injEq] at h
      exact .inr (.inl ⟨c, rfl, h.1.symm, h.2 ▸ hr⟩)
    · simp at h
  case h_3 prev c found =>
    simp only [TipRun.checked.injEq] at h
    exact .inr (.inr ⟨prev, c, found, rfl, h.1.symm, h.2.symm⟩)

omit [DecidableEq H] in
theorem read_eq_some {c : Chain β} {t t' : TipPc H} (h : t.read L c = some t') :
    (t = .tip none ∧ t' = .tip (some (L.tipRow c))) ∨
    (∃ prev cur, t = .row prev cur none ∧ t' = .row prev cur (some (L.rowAt c prev.index))) ∨
    (t = .maxBlock none ∧ t' = .maxBlock (some (L.getMaxBlockIndex c))) ∨
    ∃ b, t = .maxAction b none ∧ t' = .maxAction b (some (getMaxActionIndex c)) := by
  unfold TipPc.read at h
  split at h <;> simp only [Option.some.injEq, reduceCtorEq] at h
  case h_1 => exact .inl ⟨rfl, h.symm⟩
  case h_2 prev cur => exact .inr (.inl ⟨prev, cur, rfl, h.symm⟩)
  case h_3 => exact .inr (.inr (.inl ⟨rfl, h.symm⟩))
  case h_4 b => exact .inr (.inr (.inr ⟨b, rfl, h.symm⟩))

/-! ### The transitions -/

variable (L cfg) in
/-- The transitions of the machine. -/
inductive Trans (d : Det β H) : Label β → Det β H → List (Event β H) → Prop
  | chain (c : Chain β) : Trans d (.chain c) { d with chain := c, past := c :: d.past } []
  | tick (h : d.poll = .idle) : Trans d .tick { d with poll := .tip (.tip none) } []
  | fail (h : d.poll ≠ .idle) : Trans d .fail { d with poll := .idle } []
  -- the reads
  | readTip {t t'} (h : d.poll = .tip t) (ht : t.read L d.chain = some t') :
      Trans d .db { d with poll := .tip t' } []
  | readSeedBlocks {b a} (h : d.poll = .seedBlocks b a none) :
      Trans d .db { d with poll := .seedBlocks b a (some (seedRows L d.chain b)) } []
  | readFork {b a heights} (h : d.poll = .fork b a heights none) :
      Trans d .db { d with poll := .fork b a heights (some (forkRows L d.chain heights)) } []
  | readBlocks {b a since} (h : d.poll = .blocks b a since none) :
      Trans d .db { d with
        poll := .blocks b a since (some (L.getBlocksSince d.chain since cfg.fetchLimit)) } []
  | readActions {a since} (h : d.poll = .actions a since none) :
      Trans d .db { d with
        poll := .actions a since (some (L.getActionsSince d.chain since cfg.fetchLimit none)) } []
  -- the tip step
  | askTip {t pc} (h : d.poll = .tip t) (ht : t.run d.lastTip = some (.ask pc)) :
      Trans d .run { d with poll := .tip pc } []
  | checked {t cur reorged} (h : d.poll = .tip t)
      (ht : t.run d.lastTip = some (.checked cur reorged)) :
      Trans d .run { d.checked cur reorged with poll := .tip (.maxBlock none) } []
  | seed {t b a} (h : d.poll = .tip t) (ht : t.run d.lastTip = some (.done b a))
      (hi : d.coin.initialized = false) :
      Trans d .run { d with coin := d.coin.seedCursors b a, poll := .seedBlocks b a none } []
  | seeded {b a rows} (h : d.poll = .seedBlocks b a (some rows)) :
      Trans d .run { d with
        coin := { d.coin with history := seedHistory d.coin.history rows b a }, poll := .idle } []
  -- the rewind
  | searchFork {t b a} (h : d.poll = .tip t) (ht : t.run d.lastTip = some (.done b a))
      (hi : d.coin.initialized = true) (hp : d.coin.pendingReorg = true)
      (hk : KeyedMap.sortedKeys d.coin.history ≠ []) :
      Trans d .run { d with poll := .fork b a (KeyedMap.sortedKeys d.coin.history) none } []
  | rewind {fork b a coin events} (h : AtRewind d fork b a)
      (hc : d.coin.rollback fork b a = (coin, events)) :
      Trans d .run { d with coin, poll := blockStep coin b a } events
  | proceed {t b a} (h : d.poll = .tip t) (ht : t.run d.lastTip = some (.done b a))
      (hi : d.coin.initialized = true) (hp : d.coin.pendingReorg = false) :
      Trans d .run { d with poll := blockStep d.coin b a } []
  -- the block and action steps
  | blocksSent {b a since rows} (h : d.poll = .blocks b a since (some rows)) :
      Trans d .run { d with
        coin := d.coin.blocksSent cfg b since rows
        poll := actionStep (d.coin.blocksSent cfg b since rows) a } (rows.map .block)
  | sendRow {a since batch row todo} (h : AtRow d.poll a since batch (row :: todo)) :
      Trans d .run { d with
        coin := d.coin.setLiveMark row.action_index, poll := .fanout a since batch todo }
        [.action row]
  | actionsSent {a since batch} (h : AtRow d.poll a since batch []) :
      Trans d .run { d with coin := d.coin.actionsSent cfg a since batch, poll := .after } []
  | finish (h : d.poll = .after) : Trans d .run { d with poll := .idle } []
  -- the on-demand seed
  | seedStart (h : d.seeding = .idle) (hi : d.coin.initialized = false) :
      Trans d .seedStart { d with seeding := .tip (.tip none) } []
  | seedFail (h : d.seeding ≠ .idle) : Trans d .seedFail { d with seeding := .idle } []
  | seedReadTip {t t'} (h : d.seeding = .tip t) (ht : t.read L d.chain = some t') :
      Trans d .seedDb { d with seeding := .tip t' } []
  | seedReadBlocks {b a} (h : d.seeding = .seedBlocks b a none) :
      Trans d .seedDb { d with seeding := .seedBlocks b a (some (seedRows L d.chain b)) } []
  | seedAskTip {t pc} (h : d.seeding = .tip t) (ht : t.run d.lastTip = some (.ask pc)) :
      Trans d .seedRun { d with seeding := .tip pc } []
  | seedChecked {t cur reorged} (h : d.seeding = .tip t)
      (ht : t.run d.lastTip = some (.checked cur reorged)) :
      Trans d .seedRun { d.checked cur reorged with seeding := .tip (.maxBlock none) } []
  | seedSkip {t b a} (h : d.seeding = .tip t) (ht : t.run d.lastTip = some (.done b a))
      (hi : d.coin.initialized = true) : Trans d .seedRun { d with seeding := .idle } []
  | seedCursors {t b a} (h : d.seeding = .tip t) (ht : t.run d.lastTip = some (.done b a))
      (hi : d.coin.initialized = false) :
      Trans d .seedRun
        { d with coin := d.coin.seedCursors b a, seeding := .seedBlocks b a none } []
  | seedSeeded {b a rows} (h : d.seeding = .seedBlocks b a (some rows)) :
      Trans d .seedRun { d with
        coin := { d.coin with history := seedHistory d.coin.history rows b a }
        seeding := .idle } []

/-- The row loop's next step is a transition. -/
theorem trans_of_sendNext {d d' : Det β H} {evs : List (Event β H)} {a since : ℤ}
    {batch todo : List (ActionRow β)} (h : AtRow d.poll a since batch todo)
    (hs : d.sendNext cfg a since batch todo = (d', evs)) : Trans L cfg d .run d' evs := by
  cases todo with
  | nil =>
    simp only [Det.sendNext, Prod.mk.injEq] at hs
    obtain ⟨rfl, rfl⟩ := hs
    exact .actionsSent h
  | cons row todo =>
    simp only [Det.sendNext, Prod.mk.injEq] at hs
    obtain ⟨rfl, rfl⟩ := hs
    exact .sendRow h

/-- What follows `readTip` is a transition. -/
theorem trans_of_tipDone {d d' : Det β H} {evs : List (Event β H)} {t : TipPc H} {b a : ℤ}
    (h : d.poll = .tip t) (ht : t.run d.lastTip = some (.done b a))
    (hs : d.tipDone b a = (d', evs)) : Trans L cfg d .run d' evs := by
  unfold Det.tipDone at hs
  cases hi : d.coin.initialized with
  | false =>
    simp only [hi, Bool.not_false, if_true, Prod.mk.injEq] at hs
    obtain ⟨rfl, rfl⟩ := hs
    exact .seed h ht hi
  | true =>
    cases hp : d.coin.pendingReorg with
    | false =>
      simp only [hi, hp, Bool.not_true, Bool.false_eq_true, if_false, Prod.mk.injEq] at hs
      obtain ⟨rfl, rfl⟩ := hs
      exact .proceed h ht hi hp
    | true =>
      simp only [hi, hp, Bool.not_true, Bool.false_eq_true, if_false, if_true] at hs
      split at hs
      case h_1 hk =>
        simp only [Prod.mk.injEq] at hs
        obtain ⟨rfl, rfl⟩ := hs
        exact .rewind (.inl ⟨t, h, ht, hi, hp, hk, rfl⟩) rfl
      case h_2 hk =>
        simp only [Prod.mk.injEq] at hs
        obtain ⟨rfl, rfl⟩ := hs
        exact .searchFork h ht hi hp (by simpa using hk)

theorem trans_of_runPoll {d d' : Det β H} {evs : List (Event β H)}
    (hs : d.runPoll cfg = some (d', evs)) : Trans L cfg d .run d' evs := by
  unfold Det.runPoll at hs
  split at hs
  case h_1 t h =>
    simp only [Option.map_eq_some_iff] at hs
    obtain ⟨r, hr, hs⟩ := hs
    cases r with
    | ask pc =>
      simp only [Prod.mk.injEq] at hs
      obtain ⟨rfl, rfl⟩ := hs
      exact .askTip h hr
    | checked cur reorged =>
      simp only [Prod.mk.injEq] at hs
      obtain ⟨rfl, rfl⟩ := hs
      exact .checked h hr
    | done b a => exact trans_of_tipDone h hr hs
  case h_2 b a rows h =>
    simp only [Option.some.injEq, Prod.mk.injEq] at hs
    obtain ⟨rfl, rfl⟩ := hs
    exact .seeded h
  case h_3 b a heights rows h =>
    simp only [Det.forkDone, Option.some.injEq, Prod.mk.injEq] at hs
    obtain ⟨rfl, rfl⟩ := hs
    exact .rewind (.inr ⟨heights, rows, h, rfl⟩) rfl
  case h_4 b a since rows h =>
    simp only [Option.some.injEq, Prod.mk.injEq] at hs
    obtain ⟨rfl, rfl⟩ := hs
    exact .blocksSent h
  case h_5 a since rows h =>
    exact trans_of_sendNext (.inl ⟨h, rfl⟩) (Option.some.inj hs)
  case h_6 a since batch todo h => exact trans_of_sendNext (.inr h) (Option.some.inj hs)
  case h_7 h =>
    simp only [Option.some.injEq, Prod.mk.injEq] at hs
    obtain ⟨rfl, rfl⟩ := hs
    exact .finish h
  case h_8 => simp at hs

theorem trans_of_readPoll {d : Det β H} {pc : PollPc β H} (hs : d.readPoll L cfg = some pc) :
    Trans L cfg d .db { d with poll := pc } [] := by
  unfold Det.readPoll at hs
  split at hs
  case h_1 t h =>
    obtain ⟨t', ht, rfl⟩ := Option.map_eq_some_iff.mp hs
    exact .readTip h ht
  case h_2 b a h => exact Option.some.inj hs ▸ .readSeedBlocks h
  case h_3 b a heights h => exact Option.some.inj hs ▸ .readFork h
  case h_4 b a since h => exact Option.some.inj hs ▸ .readBlocks h
  case h_5 a since h => exact Option.some.inj hs ▸ .readActions h
  case h_6 => simp at hs

theorem trans_of_readSeed {d : Det β H} {pc : SeedPc H} (hs : d.readSeed L = some pc) :
    Trans L cfg d .seedDb { d with seeding := pc } [] := by
  unfold Det.readSeed at hs
  split at hs
  case h_1 t h =>
    obtain ⟨t', ht, rfl⟩ := Option.map_eq_some_iff.mp hs
    exact .seedReadTip h ht
  case h_2 b a h => exact Option.some.inj hs ▸ .seedReadBlocks h
  case h_3 => simp at hs

theorem trans_of_runSeed {d d' : Det β H} (hs : d.runSeed = some d') :
    Trans L cfg d .seedRun d' [] := by
  unfold Det.runSeed at hs
  split at hs
  case h_1 t h =>
    obtain ⟨r, hr, hs⟩ := Option.map_eq_some_iff.mp hs
    cases r with
    | ask pc => exact hs ▸ .seedAskTip h hr
    | checked cur reorged => exact hs ▸ .seedChecked h hr
    | done b a =>
      simp only at hs
      split at hs
      case isTrue hi => exact hs ▸ .seedSkip h hr hi
      case isFalse hi => exact hs ▸ .seedCursors h hr (by simpa using hi)
  case h_2 b a rows h => exact Option.some.inj hs ▸ .seedSeeded h
  case h_3 => simp at hs

/-- Every step of the machine is one of its transitions. -/
theorem trans_of_step {d d' : Det β H} {l : Label β} {evs : List (Event β H)}
    (hs : d.step L cfg l = some (d', evs)) : Trans L cfg d l d' evs := by
  cases l with
  | chain c =>
    simp only [Det.step, Option.some.injEq, Prod.mk.injEq] at hs
    obtain ⟨rfl, rfl⟩ := hs
    exact .chain c
  | tick =>
    simp only [Det.step] at hs
    split at hs
    case h_1 h =>
      simp only [Option.some.injEq, Prod.mk.injEq] at hs
      obtain ⟨rfl, rfl⟩ := hs
      exact .tick h
    case h_2 => simp at hs
  | db =>
    simp only [Det.step, Option.map_eq_some_iff, Prod.mk.injEq] at hs
    obtain ⟨pc, h, rfl, rfl⟩ := hs
    exact trans_of_readPoll h
  | run => exact trans_of_runPoll hs
  | fail =>
    simp only [Det.step] at hs
    split at hs
    case h_1 => simp at hs
    case h_2 h =>
      simp only [Option.some.injEq, Prod.mk.injEq] at hs
      obtain ⟨rfl, rfl⟩ := hs
      exact .fail h
  | seedStart =>
    simp only [Det.step] at hs
    split at hs
    case h_1 hi h =>
      simp only [Option.some.injEq, Prod.mk.injEq] at hs
      obtain ⟨rfl, rfl⟩ := hs
      exact .seedStart h hi
    case h_2 => simp at hs
  | seedDb =>
    simp only [Det.step, Option.map_eq_some_iff, Prod.mk.injEq] at hs
    obtain ⟨pc, h, rfl, rfl⟩ := hs
    exact trans_of_readSeed h
  | seedRun =>
    simp only [Det.step, Option.map_eq_some_iff, Prod.mk.injEq] at hs
    obtain ⟨d'', h, rfl, rfl⟩ := hs
    exact trans_of_runSeed h
  | seedFail =>
    simp only [Det.step] at hs
    split at hs
    case h_1 => simp at hs
    case h_2 h =>
      simp only [Option.some.injEq, Prod.mk.injEq] at hs
      obtain ⟨rfl, rfl⟩ := hs
      exact .seedFail h

theorem trans_of_feed {f f' : Feed β H} {l : Label β} (hs : f.step L cfg l = some f') :
    ∃ evs, Trans L cfg f.det l f'.det evs ∧ f'.events = f.events ++ evs := by
  simp only [Feed.step, Option.map_eq_some_iff] at hs
  obtain ⟨⟨d, evs⟩, h, rfl⟩ := hs
  exact ⟨evs, trans_of_step h, rfl⟩

end ChangeDetector
