import XChainExplorer.Ws.Consumer
import XChainExplorer.Ws.History
import XChainExplorer.Ws.PollShape

/-! # A chain that only grows

    Runs in which no block ever leaves the chain. Every reading then names a block of the present
    chain, so a fork search that sees all it remembers finds nothing replaced, no cursor moves
    back and no REORG goes out. -/

namespace ChangeDetector
open Tables TipProbe

variable {β H : Type*} {L : Ledger β H} {cfg : Config}

/-! ### Pages of a longer chain -/

theorem getMaxBlockIndex_mono {c d : Chain β} (h : c <:+ d) :
    L.getMaxBlockIndex c ≤ L.getMaxBlockIndex d := by
  cases c with
  | nil =>
    cases d with
    | nil => exact le_rfl
    | cons x d => simp only [Ledger.getMaxBlockIndex, Ledger.height, List.length_cons]; omega
  | cons x c =>
    have hd : d ≠ [] := by
      rintro rfl
      simp at h
    rw [getMaxBlockIndex_of_ne_nil hd]
    exact height_le_of_suffix h

/-- A block page reaches every block within its limit of where it was asked from. -/
theorem mem_getBlocksSince {c : Chain β} {x : Block β} {t : Chain β} {since : ℤ} {limit : ℕ}
    (hz : x :: t <:+ c) (hlo : since < L.height (x :: t)) (hhi : L.height (x :: t) ≤ since + limit) :
    ∃ row ∈ L.getBlocksSince c since limit, row.block_index = L.height (x :: t) ∧
      row.block_hash = L.hash (x :: t) := by
  refine ⟨⟨L.height (x :: t), L.hash (x :: t), x.actions.length⟩, ?_, rfl, rfl⟩
  have hrow : (⟨L.height (x :: t), L.hash (x :: t), x.actions.length⟩ : BlockRow H) ∈ L.blockRows c :=
    mem_blockRows.mpr ⟨x, t, hz, rfl, rfl, rfl⟩
  by_contra hno
  -- a row that was left out lies above a full page
  have hfull : ¬ (L.getBlocksSince c since limit).length < limit := by
    intro hl
    exact hno ((Page.mem_fetch_of_short hl).mpr ⟨hrow, hlo⟩)
  have hreached : Page.reached (·.block_index) since (L.getBlocksSince c since limit) <
      L.height (x :: t) := by
    by_contra hge
    exact hno ((Page.mem_fetch blockRows_pairwise).mpr ⟨hrow, hlo, not_lt.mp hge⟩)
  have hlen : ((L.getBlocksSince c since limit).length : ℤ) ≤
      Page.reached (·.block_index) since (L.getBlocksSince c since limit) - since :=
    Page.length_le_reached (Page.fetch_pairwise blockRows_pairwise)
      fun r hr => (Page.mem_of_mem_fetch hr).2
  omega

theorem getMaxBlockIndex_nonneg (c : Chain β) : 0 ≤ L.getMaxBlockIndex c := by
  cases c with
  | nil => exact le_rfl
  | cons x c => simp only [Ledger.getMaxBlockIndex, Ledger.height, List.length_cons]; omega

variable (L) in
/-- A block of the chain stands at the height, with this hash. -/
def StandsAt (c : Chain β) (h : ℤ) (hash : Option H) : Prop :=
  ∃ z, z ≠ [] ∧ z <:+ c ∧ L.height z = h ∧ L.hash z = hash

theorem StandsAt.mono {c d : Chain β} (hs : c <:+ d) {h : ℤ} {hash : Option H}
    (hst : StandsAt L c h hash) : StandsAt L d h hash := by
  obtain ⟨z, hz, hzc, hh, hhash⟩ := hst
  exact ⟨z, hz, hzc.trans hs, hh, hhash⟩

theorem StandsAt.unique {c : Chain β} {h : ℤ} {hash hash' : Option H}
    (hst : StandsAt L c h hash) (hst' : StandsAt L c h hash') : hash = hash' := by
  obtain ⟨z, -, hzc, hh, rfl⟩ := hst
  obtain ⟨w, -, hwc, hh', rfl⟩ := hst'
  rw [eq_of_suffix_of_height (L := L) hzc hwc (hh.trans hh'.symm)]

theorem StandsAt.le_max {c : Chain β} {h : ℤ} {hash : Option H} (hst : StandsAt L c h hash) :
    h ≤ L.getMaxBlockIndex c := by
  obtain ⟨z, hz, hzc, rfl, -⟩ := hst
  rw [← getMaxBlockIndex_of_ne_nil hz]
  exact getMaxBlockIndex_mono hzc

theorem standsAt_of_mem_blockRows {c : Chain β} {row : BlockRow H} (hr : row ∈ L.blockRows c) :
    StandsAt L c row.block_index row.block_hash := by
  obtain ⟨x, t, hs, h1, h2, -⟩ := mem_blockRows.mp hr
  exact ⟨x :: t, by simp, hs, h1.symm, h2.symm⟩

theorem standsAt_of_mem_actionRows {c : Chain β} {r : ActionRow β} (hr : r ∈ L.actionRows c) :
    StandsAt L c r.block_index (L.hash r.blk) := by
  obtain ⟨hrow, hs⟩ := mem_actionRows.mp hr
  exact ⟨r.blk, hrow.blk_ne_nil, hs, hrow.block_index_eq.symm, rfl⟩

/-- Both block pages hold rows of blocks on the chain once every past chain is a part of it. -/
theorem BlockPage.standsAt {past : List (Chain β)} {c : Chain β} (hp : ∀ d ∈ past, d <:+ c)
    {since : ℤ} {rows : List (BlockRow H)} (h : BlockPage L cfg past since rows)
    {row : BlockRow H} (hr : row ∈ rows) : StandsAt L c row.block_index row.block_hash := by
  obtain ⟨d, hd, rfl⟩ := h
  exact (standsAt_of_mem_blockRows (Page.mem_of_mem_fetch hr).1).mono (hp d hd)

theorem SeedPage.standsAt {past : List (Chain β)} {c : Chain β} (hp : ∀ d ∈ past, d <:+ c)
    {b : ℤ} {rows : List (BlockRow H)} (h : SeedPage L past b rows)
    {row : BlockRow H} (hr : row ∈ rows) : StandsAt L c row.block_index row.block_hash := by
  obtain ⟨d, hd, rfl⟩ := h
  exact (standsAt_of_mem_blockRows (Page.mem_of_mem_fetch hr).1).mono (hp d hd)

theorem ActionPage.mem_actionRows {past : List (Chain β)} {c : Chain β} (hp : ∀ d ∈ past, d <:+ c)
    {since : ℤ} {rows : List (ActionRow β)} (h : ActionPage L cfg past since rows)
    {r : ActionRow β} (hr : r ∈ rows) : r ∈ L.actionRows c := by
  obtain ⟨d, hd, rfl⟩ := h
  exact actionRows_subset (hp d hd) (mem_getActionsSince.mp hr).1

/-! ### The invariant -/

/-- The indexer only appends. -/
def Grows (d : Det β H) : Label β → Prop
  | .chain c => d.chain <:+ c
  | _ => True

instance [DecidableEq β] (d : Det β H) : ∀ l, Decidable (Grows d l)
  | .chain c => inferInstanceAs (Decidable (d.chain <:+ c))
  | .tick | .db | .run | .fail | .seedStart | .seedDb | .seedRun | .seedFail => isTrue trivial

/-- A fork search's read covers every height it looks for: the rows it asks for are
    `HISTORY_DEPTH * 2` above the lowest. -/
def WindowCovers (d : Det β H) (l : Label β) : Prop :=
  ∀ b a heights, d.poll = .fork b a heights none → l = .db →
    ∀ h ∈ heights, h < heights.head?.getD 0 + (HISTORY_DEPTH * 2 : ℕ)

variable (L) in
/-- A tip reading of a block on the chain. -/
def Names (c : Chain β) (t : Tip H) : Prop := ∃ z, z <:+ c ∧ L.tipRow z = some t

variable (L) in
/-- What the tip step has read so far is on the chain. -/
def TipGrown (c : Chain β) : TipPc H → Prop
  | .tip got => ∀ cur, got = some (some cur) → Names L c cur
  | .row _ cur _ => Names L c cur
  | .maxBlock got => ∀ b, got = some b → 0 ≤ b ∧ b ≤ L.getMaxBlockIndex c
  | .maxAction b got => (0 ≤ b ∧ b ≤ L.getMaxBlockIndex c) ∧
      ∀ a, got = some a → 0 ≤ a ∧ a ≤ actionCount c

/-- No rewind is owed and none can come to be owed in this poll: the on-demand seed is past its
    reorg check. -/
def NoRewind (k : Coin H) (seeding : SeedPc H) : Prop :=
  k.pendingReorg = false ∧ ∀ t, seeding ≠ .tip t

/-- Both tip marks are read at or above the cursors, or no rewind follows. -/
def TipFence (k : Coin H) (seeding : SeedPc H) : TipPc H → Prop
  | .maxBlock (some b) => k.blockIndex ≤ b ∨ NoRewind k seeding
  | .maxAction b got => (k.blockIndex ≤ b ∨ NoRewind k seeding) ∧
      ∀ a, got = some a → k.actionIndex ≤ a ∨ NoRewind k seeding
  | _ => True

variable (L) in
def PollGrown (c : Chain β) (k : Coin H) (seeding : SeedPc H) : PollPc β H → Prop
  | .tip t => TipGrown L c t ∧ (k.initialized = true → TipFence k seeding t)
  | .fork b a heights got => (k.blockIndex ≤ b ∧ k.actionIndex ≤ a) ∧
      (∀ h ∈ heights, heights.head?.getD 0 ≤ h ∧ ∃ hash, StandsAt L c h hash) ∧
      ∀ rows, got = some rows → ∀ h ∈ heights,
        ∃ row, rows.find? (fun row => row.block_index = h) = some row ∧ StandsAt L c h row.block_hash
  | _ => True

variable (L) in
/-- Every remembered height is a height of the chain, under its hash or under none. -/
def HistGrown (c : Chain β) (m : History H) : Prop :=
  ∀ h ∈ m, ∃ hash, StandsAt L c h hash ∧ (hashAt m h = none ∨ hashAt m h = hash)

variable (L cfg) in
/-- What holds of a coin while its chain only grows. -/
structure Grown (d : Det β H) : Prop where
  shape : Shape L cfg d
  past : ∀ c ∈ d.past, c <:+ d.chain
  cursors : d.coin.initialized = true → 0 ≤ d.coin.blockIndex ∧
    d.coin.blockIndex ≤ L.getMaxBlockIndex d.chain ∧
    0 ≤ d.coin.actionIndex ∧ d.coin.actionIndex ≤ actionCount d.chain
  history : HistGrown L d.chain d.coin.history
  lastTip : ∀ t, d.lastTip = some t → Names L d.chain t
  poll : PollGrown L d.chain d.coin d.seeding d.poll
  seeding : ∀ t, d.seeding = .tip t → TipGrown L d.chain t

variable {c c' : Chain β} {k : Coin H} {m : History H}

theorem TipGrown.mono (hc : c <:+ c') {t : TipPc H} (h : TipGrown L c t) : TipGrown L c' t := by
  have names {x : Tip H} : Names L c x → Names L c' x := fun ⟨z, hz, ht⟩ => ⟨z, hz.trans hc, ht⟩
  have hB := getMaxBlockIndex_mono (L := L) hc
  have hA := actionCount_le_of_suffix hc
  cases t with
  | tip got => exact fun cur hg => names (h cur hg)
  | row prev cur got => exact names h
  | maxBlock got => exact fun b hg => ⟨(h b hg).1, (h b hg).2.trans hB⟩
  | maxAction b got => exact ⟨⟨h.1.1, h.1.2.trans hB⟩, fun a hg => ⟨(h.2 a hg).1, (h.2 a hg).2.trans hA⟩⟩

theorem PollGrown.mono (hc : c <:+ c') {seeding : SeedPc H} {pc : PollPc β H}
    (h : PollGrown L c k seeding pc) : PollGrown L c' k seeding pc := by
  cases pc with
  | tip t => exact ⟨h.1.mono hc, h.2⟩
  | fork b a heights got =>
    refine ⟨h.1, fun x hx => ?_, fun rows hg x hx => ?_⟩
    · obtain ⟨hlo, hash, hst⟩ := h.2.1 x hx
      exact ⟨hlo, hash, hst.mono hc⟩
    · obtain ⟨row, hf, hst⟩ := h.2.2 rows hg x hx
      exact ⟨row, hf, hst.mono hc⟩
  | _ => trivial

theorem HistGrown.mono (hc : c <:+ c') (h : HistGrown L c m) : HistGrown L c' m := by
  intro x hx
  obtain ⟨hash, hst, hh⟩ := h x hx
  exact ⟨hash, hst.mono hc, hh⟩

theorem TipGrown.read {t t' : TipPc H} (h : TipGrown L c t) (hr : t.read L c = some t') :
    TipGrown L c t' := by
  rcases read_eq_some hr with ⟨rfl, rfl⟩ | ⟨prev, cur, rfl, rfl⟩ | ⟨rfl, rfl⟩ | ⟨b, rfl, rfl⟩
  · rintro cur hcur
    exact ⟨c, List.suffix_rfl, Option.some.inj hcur⟩
  · exact h
  · rintro b ⟨⟩
    exact ⟨getMaxBlockIndex_nonneg c, le_rfl⟩
  · refine ⟨h.1, ?_⟩
    rintro a ⟨⟩
    exact ⟨actionCount_nonneg c, le_rfl⟩

/-- Answers read now are at or above the cursors. -/
theorem TipFence.read {t t' : TipPc H} {seeding : SeedPc H} (h : TipFence k seeding t)
    (hB : k.blockIndex ≤ L.getMaxBlockIndex c) (hA : k.actionIndex ≤ actionCount c)
    (hr : t.read L c = some t') : TipFence k seeding t' := by
  rcases read_eq_some hr with ⟨rfl, rfl⟩ | ⟨prev, cur, rfl, rfl⟩ | ⟨rfl, rfl⟩ | ⟨b, rfl, rfl⟩
  · trivial
  · trivial
  · exact .inl hB
  · refine ⟨h.1, ?_⟩
    rintro a ⟨⟩
    exact .inl hA

theorem HistGrown.rememberBlocks (h : HistGrown L c m) {bs : List (BlockRow H)}
    (hbs : ∀ b ∈ bs, StandsAt L c b.block_index b.block_hash) :
    HistGrown L c (rememberBlocks m bs) := by
  intro x hx
  obtain ⟨htrim, hx⟩ := (mem_rememberBlocks bs).mp hx
  rcases hashAt_rememberBlocks (m := m) htrim with ⟨b, hb, rfl, hh⟩ | ⟨hno, hh⟩
  · exact ⟨_, hbs b hb, .inr hh⟩
  · rcases hx with hx | ⟨b, hb, hxb⟩
    · rw [hh]
      exact h x hx
    · exact absurd hxb (hno b hb)

theorem HistGrown.seedHistory (h : HistGrown L c m) {bs : List (BlockRow H)} {b a : ℤ}
    (hbs : ∀ b ∈ bs, StandsAt L c b.block_index b.block_hash) :
    HistGrown L c (seedHistory m bs b a) := by
  intro x hx
  rw [hashAt_seedHistory]
  exact h.rememberBlocks hbs x ((mem_seedHistory bs b a).mp hx)

theorem HistGrown.rememberActions (h : HistGrown L c m) {rs : List (ActionRow β)}
    (hrs : ∀ r ∈ rs, r ∈ L.actionRows c) : HistGrown L c (rememberActions m rs) := by
  intro x hx
  rw [hashAt_rememberActions]
  by_cases hm : x ∈ m
  · exact h x hm
  · rcases (mem_rememberActions rs).mp hx with hx | ⟨r, hr, rfl⟩
    · exact absurd hx hm
    · refine ⟨_, standsAt_of_mem_actionRows (hrs r hr), .inl ?_⟩
      rw [hashAt, AList.lookup_eq_none.mpr hm, Option.bind_none]

theorem pollGrown_actionStep {seeding : SeedPc H} (a : ℤ) :
    PollGrown L c k seeding (actionStep k a : PollPc β H) := by
  unfold actionStep
  split_ifs <;> trivial

theorem pollGrown_blockStep {seeding : SeedPc H} (b a : ℤ) :
    PollGrown L c k seeding (blockStep k b a : PollPc β H) := by
  unfold blockStep
  split_ifs
  · trivial
  · exact pollGrown_actionStep a

/-- A rewind with nothing to move leaves the coin as it was and sends nothing. -/
theorem rollback_still {k' : Coin H} {evs : List (Event β H)} {b a : ℤ}
    (hB : k.blockIndex ≤ b) (hA : k.actionIndex ≤ a) (hc : k.rollback none b a = (k', evs)) :
    evs = [] ∧ k'.blockIndex = k.blockIndex ∧ k'.actionIndex = k.actionIndex := by
  obtain ⟨-, -, -, -, hB', hA', -⟩ := rollback_marks hc
  simp only [Option.elim_none, forkAction, Option.bind_none] at hB' hA'
  rw [min_eq_left hB] at hB'
  rw [min_eq_left hA] at hA'
  rcases rollback_cases hc with ⟨he, -⟩ | ⟨_, _, -, -, hmoved, -⟩
  · exact ⟨he, hB', hA'⟩
  · omega

/-- The fence reads the cursors and `NoRewind` only. -/
theorem PollGrown.congr {k' : Coin H} {seeding seeding' : SeedPc H} {pc : PollPc β H}
    (h : PollGrown L c k seeding pc) (hi : k'.initialized = k.initialized)
    (hB : k'.blockIndex = k.blockIndex) (hA : k'.actionIndex = k.actionIndex)
    (hn : NoRewind k seeding → NoRewind k' seeding') : PollGrown L c k' seeding' pc := by
  cases pc with
  | tip t =>
    refine ⟨h.1, fun hi' => ?_⟩
    have hf := h.2 (hi ▸ hi')
    rcases t with got | _ | (_ | b) | ⟨b, got⟩
    · trivial
    · trivial
    · trivial
    · exact hf.imp (hB ▸ ·) hn
    · exact ⟨hf.1.imp (hB ▸ ·) hn, fun a ha => (hf.2 a ha).imp (hA ▸ ·) hn⟩
  | fork b a heights got => exact ⟨by rw [hB, hA]; exact h.1, h.2⟩
  | _ => trivial

theorem TipFence.of_noRewind {seeding : SeedPc H} (h : NoRewind k seeding) (t : TipPc H) :
    TipFence k seeding t := by
  rcases t with got | _ | (_ | b) | ⟨b, got⟩
  · trivial
  · trivial
  · trivial
  · exact .inr h
  · exact ⟨.inr h, fun _ _ => .inr h⟩

/-- On a chain that only grows, a fork search's read finds every height its window covers. -/
theorem find_forkRows {heights : List ℤ} {x : ℤ} {hash : Option H}
    (hlo : heights.head?.getD 0 ≤ x) (hhi : x < heights.head?.getD 0 + (HISTORY_DEPTH * 2 : ℕ))
    (hst : StandsAt L c x hash) :
    ∃ row, (forkRows L c heights).find? (fun row => row.block_index = x) = some row ∧
      StandsAt L c x row.block_hash := by
  obtain ⟨z, hz, hzc, rfl, -⟩ := hst
  obtain ⟨y, t, rfl⟩ := List.exists_cons_of_ne_nil hz
  obtain ⟨row, hrow, hi, -⟩ : ∃ row ∈ forkRows L c heights,
      row.block_index = L.height (y :: t) ∧ row.block_hash = L.hash (y :: t) :=
    mem_getBlocksSince hzc (by omega) (by omega)
  cases hf : (forkRows L c heights).find? fun row => row.block_index = L.height (y :: t) with
  | none =>
    rw [List.find?_eq_none] at hf
    exact absurd (by simpa using hi) (hf row hrow)
  | some row' =>
    refine ⟨row', rfl, ?_⟩
    have hi' := List.find?_some hf
    simp only [decide_eq_true_eq] at hi'
    rw [← hi']
    exact standsAt_of_mem_blockRows (Page.mem_of_mem_fetch (List.mem_of_find?_eq_some hf)).1

theorem Grown.init (c : Chain β) : Grown L cfg (Det.init c : Det β H) :=
  ⟨Shape.init c, by simp [Det.init], by simp [Det.init],
    by rintro h hm; exact absurd hm (AList.notMem_empty h), by simp [Det.init], trivial,
    by simp [Det.init]⟩

variable [DecidableEq H]

theorem TipGrown.ask {t pc : TipPc H} {lastTip : Option (Tip H)} (h : TipGrown L c t)
    (hr : t.run lastTip = some (.ask pc)) : TipGrown L c pc := by
  rcases run_eq_ask hr with ⟨cur, prev, rfl, -, rfl⟩ | ⟨b, rfl, rfl⟩
  · exact h cur rfl
  · exact ⟨h b rfl, by simp⟩

theorem TipFence.ask {t pc : TipPc H} {lastTip : Option (Tip H)} {seeding : SeedPc H}
    (h : TipFence k seeding t) (hr : t.run lastTip = some (.ask pc)) : TipFence k seeding pc := by
  rcases run_eq_ask hr with ⟨cur, prev, rfl, -, rfl⟩ | ⟨b, rfl, rfl⟩
  · trivial
  · exact ⟨h, by simp⟩

/-- The tip a reorg check records is on the chain. -/
theorem TipGrown.checked {t : TipPc H} {lastTip cur : Option (Tip H)} {reorged : Bool}
    (h : TipGrown L c t) (hl : ∀ x, lastTip = some x → Names L c x)
    (hr : t.run lastTip = some (.checked cur reorged)) :
    ∀ x, (cur <|> lastTip) = some x → Names L c x := by
  rcases run_eq_checked hr with ⟨rfl, rfl, -⟩ | ⟨x, rfl, rfl, -⟩ | ⟨prev, x, found, rfl, rfl, -⟩
  · exact hl
  · rintro y ⟨⟩
    exact h x rfl
  · rintro y ⟨⟩
    exact h

/-- Where a rewind starts on a chain that only grows, both marks are at or above the cursors and
    no remembered height is found replaced. -/
theorem Grown.atRewind {d : Det β H} (h : Grown L cfg d) {fork : Option ℤ} {b a : ℤ}
    (hr : AtRewind d fork b a) :
    fork = none ∧ d.coin.blockIndex ≤ b ∧ d.coin.actionIndex ≤ a := by
  have hpoll := h.poll
  rcases hr with ⟨t, hp, ht, hi, hpend, -, rfl⟩ | ⟨heights, rows, hp, rfl⟩
  · rw [run_eq_done.mp ht] at hp
    rw [hp] at hpoll
    obtain ⟨hB, hA⟩ := hpoll.2 hi
    have no : ¬ NoRewind d.coin d.seeding := fun hn => by simp [hn.1] at hpend
    exact ⟨rfl, hB.resolve_right no, (hA a rfl).resolve_right no⟩
  · rw [hp] at hpoll
    refine ⟨?_, hpoll.1⟩
    rw [findForkPoint, List.find?_eq_none]
    intro x hx
    obtain ⟨row, hf, hst⟩ := hpoll.2.2 rows rfl x hx
    rw [Bool.not_eq_true, heightReplaced_eq_false]
    refine ⟨row, hf, fun known hk => ?_⟩
    have hmem : x ∈ d.coin.history := by
      by_contra hno
      rw [hashAt, AList.lookup_eq_none.mpr hno] at hk
      simp at hk
    obtain ⟨hash, hst', hh⟩ := h.history x hmem
    rw [hk] at hh
    rcases hh with hh | hh
    · simp at hh
    · rw [hst.unique hst', hh]

/-- A step of a growing chain keeps the invariant and announces no rollback. -/
theorem Grown.step {d d' : Det β H} {l : Label β} {evs : List (Event β H)} (h : Grown L cfg d)
    (hg : Grows d l) (hw : WindowCovers d l) (ht : Trans L cfg d l d' evs) :
    Grown L cfg d' ∧ ∀ f x, Event.reorg f x ∉ evs := by
  have hshape := h.shape.step ht
  have hpoll := h.poll
  have hpast := h.past
  cases ht with
  | chain c =>
    refine ⟨⟨hshape, ?_, fun hi => ?_, h.history.mono hg, ?_, hpoll.mono hg, ?_⟩, by simp⟩
    · intro x hx
      rcases List.mem_cons.mp hx with rfl | hx
      · exact List.suffix_rfl
      · exact (hpast x hx).trans hg
    · obtain ⟨h0, hB, hA0, hA⟩ := h.cursors hi
      exact ⟨h0, hB.trans (getMaxBlockIndex_mono hg), hA0, hA.trans (actionCount_le_of_suffix hg)⟩
    · intro t ht
      obtain ⟨z, hz, hn⟩ := h.lastTip t ht
      exact ⟨z, hz.trans hg, hn⟩
    · exact fun t ht => (h.seeding t ht).mono hg
  | tick =>
    exact ⟨⟨hshape, hpast, h.cursors, h.history, h.lastTip, ⟨by simp [TipGrown], fun _ => trivial⟩,
      h.seeding⟩, by simp⟩
  | fail | finish | readSeedBlocks | readBlocks | readActions | sendRow =>
    exact ⟨⟨hshape, hpast, h.cursors, h.history, h.lastTip, trivial, h.seeding⟩, by simp⟩
  | readTip hp ht =>
    rw [hp] at hpoll
    refine ⟨⟨hshape, hpast, h.cursors, h.history, h.lastTip,
      ⟨hpoll.1.read ht, fun hi => ?_⟩, h.seeding⟩, by simp⟩
    exact (hpoll.2 hi).read (h.cursors hi).2.1 (h.cursors hi).2.2.2 ht
  | readFork hp =>
    have hcovers := hw _ _ _ hp rfl
    rw [hp] at hpoll
    refine ⟨⟨hshape, hpast, h.cursors, h.history, h.lastTip, ⟨hpoll.1, hpoll.2.1, ?_⟩,
      h.seeding⟩, by simp⟩
    rintro rows ⟨⟩ x hx
    obtain ⟨hlo, hash, hst⟩ := hpoll.2.1 x hx
    exact find_forkRows hlo (hcovers x hx) hst
  | askTip hp ht =>
    rw [hp] at hpoll
    exact ⟨⟨hshape, hpast, h.cursors, h.history, h.lastTip,
      ⟨hpoll.1.ask ht, fun hi => (hpoll.2 hi).ask ht⟩, h.seeding⟩, by simp⟩
  | checked hp ht =>
    rw [hp] at hpoll
    exact ⟨⟨hshape, hpast, h.cursors, h.history, hpoll.1.checked h.lastTip ht,
      ⟨by simp [TipGrown], fun _ => trivial⟩, h.seeding⟩, by simp⟩
  | seed hp ht hi =>
    rw [hp, run_eq_done.mp ht] at hpoll
    exact ⟨⟨hshape, hpast, fun _ => ⟨hpoll.1.1.1, hpoll.1.1.2, hpoll.1.2 _ rfl⟩, h.history,
      h.lastTip, trivial, h.seeding⟩, by simp⟩
  | seeded hp =>
    have hs := h.shape.poll
    rw [hp] at hs
    exact ⟨⟨hshape, hpast, h.cursors,
      h.history.seedHistory fun _ hb => (hs.2 _ rfl).standsAt hpast hb, h.lastTip, trivial,
      h.seeding⟩, by simp⟩
  | searchFork hp ht hi hpend hk =>
    rw [hp, run_eq_done.mp ht] at hpoll
    obtain ⟨hB, hA⟩ := hpoll.2 hi
    have no : ¬ NoRewind d.coin d.seeding := fun hn => by simp [hn.1] at hpend
    refine ⟨⟨hshape, hpast, h.cursors, h.history, h.lastTip,
      ⟨⟨hB.resolve_right no, (hA _ rfl).resolve_right no⟩, fun x hx => ?_, by simp⟩,
      h.seeding⟩, by simp⟩
    obtain ⟨hash, hst, -⟩ := h.history x (KeyedMap.mem_sortedKeys.mp hx)
    refine ⟨?_, hash, hst⟩
    cases hhead : (KeyedMap.sortedKeys d.coin.history).head? with
    | none => exact absurd (List.head?_eq_none_iff.mp hhead) hk
    | some low => exact KeyedMap.head_sortedKeys_le hhead (KeyedMap.mem_sortedKeys.mp hx)
  | rewind hr hc =>
    obtain ⟨rfl, hB, hA⟩ := h.atRewind hr
    obtain ⟨rfl, hB', hA'⟩ := rollback_still hB hA hc
    obtain ⟨hi, -, -, hh, -⟩ := rollback_marks hc
    refine ⟨⟨hshape, hpast, fun hi' => ?_, ?_, h.lastTip, pollGrown_blockStep _ _, h.seeding⟩, by simp⟩
    · rw [hB', hA']
      exact h.cursors (hi ▸ hi')
    · rw [hh]
      exact h.history
  | proceed hp ht hi =>
    exact ⟨⟨hshape, hpast, h.cursors, h.history, h.lastTip, pollGrown_blockStep _ _, h.seeding⟩,
      by simp⟩
  | blocksSent hp =>
    have hs := h.shape.poll
    rw [hp] at hs
    obtain ⟨hi, hsince, hpage⟩ := hs
    have hpage := hpage _ rfl
    rw [blocksSent_eq] at hshape ⊢
    refine ⟨⟨hshape, hpast, fun _ => ?_,
      h.history.rememberBlocks fun _ hb => hpage.standsAt hpast hb, h.lastTip,
      pollGrown_actionStep _, h.seeding⟩, by simp⟩
    obtain ⟨h0, hB, hA⟩ := h.cursors hi
    obtain ⟨hlo, hhi⟩ := hpage.reached_mem
    rw [hsince] at hlo hhi
    refine ⟨h0.trans (hsince ▸ hlo), ?_, hA⟩
    rcases hhi with hhi | ⟨row, hrow, hhi⟩
    · rw [hsince, hhi]
      exact hB
    · rw [hsince, ← hhi]
      exact (hpage.standsAt hpast hrow).le_max
  | actionsSent hr =>
    obtain ⟨hi, hsince, hpage, -⟩ := h.shape.poll.atRow hr
    rw [actionsSent_eq] at hshape ⊢
    refine ⟨⟨hshape, hpast, fun _ => ?_,
      h.history.rememberActions fun _ hr => hpage.mem_actionRows hpast hr, h.lastTip, trivial,
      h.seeding⟩, by simp⟩
    obtain ⟨h0, hB, hA0, hA⟩ := h.cursors hi
    obtain ⟨hlo, hhi⟩ := hpage.reached_mem
    refine ⟨h0, hB, hA0.trans (hsince ▸ hlo), ?_⟩
    rcases hhi with hhi | ⟨row, hrow, hhi⟩
    · rw [hhi, hsince]
      exact hA
    · rw [← hhi]
      exact index_le_of_mem (hpage.mem_actionRows hpast hrow)
  | seedStart hs hi =>
    refine ⟨⟨hshape, hpast, h.cursors, h.history, h.lastTip, ?_, ?_⟩, by simp⟩
    · rcases h.shape.unseeded hi with hp | ⟨t, hp⟩ <;> rw [hp] at hpoll ⊢
      · trivial
      · exact ⟨hpoll.1, by simp [hi]⟩
    · rintro t ⟨⟩
      simp [TipGrown]
  | seedFail hs =>
    refine ⟨⟨hshape, hpast, h.cursors, h.history, h.lastTip, hpoll.congr rfl rfl rfl ?_, by simp⟩,
      by simp⟩
    exact fun hn => ⟨hn.1, by simp⟩
  | seedReadTip hs ht =>
    refine ⟨⟨hshape, hpast, h.cursors, h.history, h.lastTip, hpoll.congr rfl rfl rfl ?_, ?_⟩, by simp⟩
    · exact fun hn => absurd hs (hn.2 _)
    · rintro t ⟨⟩
      exact (h.seeding _ hs).read ht
  | seedReadBlocks hs =>
    refine ⟨⟨hshape, hpast, h.cursors, h.history, h.lastTip, hpoll.congr rfl rfl rfl ?_, by simp⟩,
      by simp⟩
    exact fun hn => ⟨hn.1, by simp⟩
  | seedAskTip hs ht =>
    refine ⟨⟨hshape, hpast, h.cursors, h.history, h.lastTip, hpoll.congr rfl rfl rfl ?_, ?_⟩, by simp⟩
    · exact fun hn => absurd hs (hn.2 _)
    · rintro t ⟨⟩
      exact (h.seeding _ hs).ask ht
  | seedChecked hs ht =>
    refine ⟨⟨hshape, hpast, h.cursors, h.history, (h.seeding _ hs).checked h.lastTip ht,
      hpoll.congr rfl rfl rfl ?_, ?_⟩, by simp⟩
    · exact fun hn => absurd hs (hn.2 _)
    · rintro t ⟨⟩
      simp [TipGrown]
  | seedSkip hs ht hi =>
    refine ⟨⟨hshape, hpast, h.cursors, h.history, h.lastTip, hpoll.congr rfl rfl rfl ?_, by simp⟩,
      by simp⟩
    exact fun hn => absurd hs (hn.2 _)
  | seedCursors hs ht hi =>
    have hseed := h.seeding _ hs
    rw [run_eq_done.mp ht] at hseed
    refine ⟨⟨hshape, hpast, fun _ => ⟨hseed.1.1, hseed.1.2, hseed.2 _ rfl⟩, h.history, h.lastTip,
      ?_, by simp⟩, by simp⟩
    rcases h.shape.unseeded hi with hp | ⟨t, hp⟩ <;> rw [hp] at hpoll ⊢
    · trivial
    · exact ⟨hpoll.1, fun _ => TipFence.of_noRewind ⟨rfl, by simp⟩ t⟩
  | seedSeeded hs =>
    have hpage := h.shape.seeding
    rw [hs] at hpage
    refine ⟨⟨hshape, hpast, h.cursors,
      h.history.seedHistory fun _ hb => (hpage.2 _ rfl).standsAt hpast hb, h.lastTip,
      hpoll.congr rfl rfl rfl ?_, by simp⟩, by simp⟩
    exact fun hn => ⟨hn.1, by simp⟩

end ChangeDetector
