import XChainExplorer.Hub.GenerationFence
import XChainExplorer.Lib.Page
import XChainExplorer.Lib.Runs
import XChainExplorer.Lib.UniqueTable

/-! # Retracted matches

    The hub keeps a match it retracts and leaves it out of its pages, so a mirror that missed the
    retraction is never served it again. A drain of `cross_chain_matches` notes the finalized rows it
    starts from and the matches its pages serve; once it is through, the rows it was not served and
    that its watermark covers are marked retracted, each only if it still is the version the drain
    started from. Live events, retractions and revivals among them, come in between any two steps.

    The mirror keeps its rows when it moves to another hub, and nothing tells a match that hub never
    held from one it retracted. -/

namespace HubDbSync.Matches

/-- A match of the hub, under the id its pages are ordered by. -/
structure HubMatch where
  id : ℕ
  row : MirrorRow

/-- The id of a match. -/
def HubMatch.match_id (m : HubMatch) : SqlValue := m.row .match_id

/-- The hub took the match back. -/
def HubMatch.retracted (m : HubMatch) : Bool := m.row .status = "retracted"

/-- The mirror's matches, by their ids. -/
abbrev MatchTable := UniqueTable SqlValue MirrorRow

/-- The address of a hub. -/
abbrev HubUrl := String

/-- A hub, and every version it ever committed. -/
structure Hub where
  rows : List HubMatch
  versions : List MirrorRow

/-- A version the drain started from. -/
abbrev MatchVersion := SqlValue × ℕ

/-- The rows of a page. -/
def PAGE_LIMIT : ℕ := 10000

/-- Versions in one `UPDATE`. -/
def MARK_CHUNK : ℕ := 250

/-- The accounting of one drain. Nothing reads `read`: whether the hub held a match as retracted when
    a page last passed over its id. -/
structure MatchDrain where
  matchDrainHubUrl : HubUrl
  selectorRevision : ℕ
  matchPreDrainRows : Option (List MatchVersion)
  lastId : ℕ := 0
  pending : List HubMatch := []
  servedMatchIds : List SqlValue := []
  shortPage : Bool := false
  caughtUp : Bool := false
  watermark : Option ℤ := none
  read : SqlValue → Option Bool := fun _ => none

/-- The versions still to mark. Nothing reads the other fields: those done, and the drain they come
    from. -/
structure Marking where
  matchDrainHubUrl : HubUrl
  stale : List MatchVersion
  marked : List MatchVersion := []
  matchPreDrainRows : List MatchVersion
  watermark : ℤ
  read : SqlValue → Option Bool

/-- What the drain of the matches is doing. -/
inductive Pass where
  | idle
  | draining (drain : MatchDrain)
  | marking (m : Marking)

/-- The hubs, the one that is followed, the mirror, and the hub of the drain certified last. -/
structure State where
  hubs : HubUrl → Hub
  hubUrl : HubUrl
  selectorRevision : ℕ := 0
  mirror : MatchTable
  lastCertifiedMatchDrainHubUrl : Option HubUrl := none
  pass : Pass := .idle

/-- What becomes of a row that was served. -/
inductive RowOutcome where
  | applied
  | withheld
  | failed
  deriving DecidableEq

/-- A step of a hub, of the live feed or of the drain. -/
inductive Label where
  | hubInsert (url : HubUrl) (m : HubMatch)
  | hubWrite (url : HubUrl) (id : ℕ) (row : MirrorRow)
  | moveHub (url : HubUrl)
  | live (version : ℕ)
  | liveRetraction (chain : String) (range : RetractionRange)
  | liveStamp (match_id : SqlValue) (anchor_txid : String)
  | openDrain (readable : Bool)
  | page (watermark : Option ℤ)
  | row (outcome : RowOutcome)
  | catchUp
  | finish
  | mark
  | abort

/-! ### The hub -/

/-- A write in place: the match is retracted, or revived at a later effective time, or some other
    column of it changes. -/
def admits (old new : MirrorRow) : Bool :=
  new .match_id = old .match_id &&
    (new .status = "retracted" && new .effective_time = old .effective_time ||
      new .status = "finalized" && decide (old .effective_time < new .effective_time) ||
      new .status = old .status && new .effective_time = old .effective_time)

/-- A new match, under an id past all the others. -/
def Hub.insert (hub : Hub) (m : HubMatch) : Option Hub :=
  if 0 < m.id ∧ ∀ h ∈ hub.rows, h.id < m.id ∧ h.match_id ≠ m.match_id then
    some { rows := hub.rows ++ [m], versions := hub.versions ++ [m.row] }
  else none

/-- A match of the hub written over, by a row that may follow it. -/
def Hub.write (hub : Hub) (id : ℕ) (row : MirrorRow) : Option Hub :=
  if ∃ h ∈ hub.rows, h.id = id ∧ admits h.row row then
    some
      { rows := hub.rows.map fun h => if h.id = id then { h with row } else h
        versions := hub.versions ++ [row] }
  else none

/-! ### The drain -/

/-- `status = 'finalized'`. -/
def finalized (row : MirrorRow) : Bool := row .status = "finalized"

/-- The finalized matches of the mirror when a drain begins. -/
def snapshotFinalizedMatches (mirror : MatchTable) : List MatchVersion :=
  (mirror.rows.filter fun x => finalized x.value).map fun x => (x.key, x.value .effective_time)

/-- The upsert of one row. -/
def applyMatch (cols : List Column) (mirror : MatchTable) (row : MirrorRow) : MatchTable :=
  mirror.upsert (row .match_id) row fun old => upgradeRow .cross_chain_matches cols old row

/-- What the pages know of the hub after one more of them was read from `since` on. -/
def noteRead (hub : List HubMatch) (since reached : ℕ) (short : Bool)
    (read : SqlValue → Option Bool) : SqlValue → Option Bool := fun k =>
  match hub.find? fun m => m.match_id = k && since < m.id && (short || m.id ≤ reached) with
  | some m => some m.retracted
  | none => read k

/-- A page: the matches above the cursor that are not retracted. -/
def readPage (hub : List HubMatch) (drain : MatchDrain) : MatchDrain :=
  let rows := Page.fetch HubMatch.id (hub.filter fun m => !m.retracted) drain.lastId PAGE_LIMIT
  let short := decide (rows.length < PAGE_LIMIT)
  { drain with
    pending := rows
    read := noteRead hub drain.lastId (Page.reached HubMatch.id drain.lastId rows) short drain.read
    shortPage := drain.shortPage || short }

/-- Behind a row that was applied or withheld. -/
def MatchDrain.handled (drain : MatchDrain) (m : HubMatch) (pending : List HubMatch) : MatchDrain :=
  { drain with
    pending
    servedMatchIds := m.match_id :: drain.servedMatchIds
    lastId := m.id }

/-- The rows to mark, where the pass may run: the drain has a watermark, its rows could be read when
    it began, and the drain certified before it was one of the same hub (`sameHub`). -/
def staleMatches (s : State) (drain : MatchDrain) : Option Marking :=
  match drain.matchPreDrainRows, drain.watermark with
  | some rows, some watermark =>
    if s.lastCertifiedMatchDrainHubUrl = some drain.matchDrainHubUrl then
      some
        { matchDrainHubUrl := drain.matchDrainHubUrl
          stale := rows.filter fun r => r.2 ≤ watermark && r.1 ∉ drain.servedMatchIds
          matchPreDrainRows := rows
          watermark
          read := drain.read }
    else none
  | _, _ => none

/-- The versions the next `UPDATE` names. -/
def Marking.chunk (m : Marking) : List MatchVersion := m.stale.take MARK_CHUNK

/-- The next chunk of the marking. -/
def Marking.next (m : Marking) : Marking :=
  { m with stale := m.stale.drop MARK_CHUNK, marked := m.marked ++ m.chunk }

/-- `UPDATE … SET status = 'retracted' WHERE status = 'finalized' AND (…)`. -/
def markRetracted (mirror : MatchTable) (chunk : List MatchVersion) : MatchTable :=
  mirror.modify fun x =>
    if finalized x.value ∧ (x.key, x.value .effective_time) ∈ chunk then
      Function.update x.value .status "retracted"
    else x.value

/-- One hub replaced. -/
def State.setHub (s : State) (url : HubUrl) (hub : Hub) : State :=
  { s with hubs := Function.update s.hubs url hub }

/-- The end of a drain, which becomes the one certified last if it has a watermark. -/
def State.certify (s : State) (certified : Option HubUrl) : State :=
  { s with
    lastCertifiedMatchDrainHubUrl := certified <|> s.lastCertifiedMatchDrainHubUrl
    pass := .idle }

/-- A step of the world, if it can be taken. -/
def step (cols : List Column) (s : State) : Label → Option State
  | .hubInsert url m => ((s.hubs url).insert m).map fun hub => s.setHub url hub
  | .hubWrite url id row => ((s.hubs url).write id row).map fun hub => s.setHub url hub
  -- the mirror stays; a drain of the hub that is left ends where the revision is asked for next
  | .moveHub url => some { s with hubUrl := url, selectorRevision := s.selectorRevision + 1 }
  | .live version =>
    (s.hubs s.hubUrl).versions[version]?.map fun row => { s with mirror := applyMatch cols s.mirror row }
  | .liveRetraction chain range =>
    some { s with mirror := s.mirror.delete fun x => retractMatchLegs chain range x.value }
  | .liveStamp match_id anchor_txid =>
    some { s with mirror := s.mirror.modify fun x =>
      if x.key = match_id then
        Function.update x.value .anchor_txid ((x.value .anchor_txid).or (some anchor_txid))
      else x.value }
  | .openDrain readable => match s.pass with
    | .idle =>
      let rows := if readable then some (snapshotFinalizedMatches s.mirror) else none
      let drain : MatchDrain :=
        { matchDrainHubUrl := s.hubUrl
          selectorRevision := s.selectorRevision
          matchPreDrainRows := rows }
      some { s with pass := .draining drain }
    | _ => none
  | .page watermark => match s.pass with
    | .draining drain =>
      if drain.pending.isEmpty && !drain.shortPage && drain.selectorRevision = s.selectorRevision then
        let drain :=
          { readPage (s.hubs drain.matchDrainHubUrl).rows drain with
            watermark := watermark <|> drain.watermark }
        some { s with pass := .draining drain }
      else none
    | _ => none
  | .row outcome => match s.pass with
    | .draining drain => match drain.pending with
      | m :: pending =>
        let handled := drain.handled m pending
        match outcome with
        | .applied =>
          some { s with mirror := applyMatch cols s.mirror m.row, pass := .draining handled }
        | .withheld => some { s with pass := .draining handled }
        | .failed => some { s with pass := .idle }
      | [] => none
    | _ => none
  -- one page more, where the hub had named a higher id than the walk came to
  | .catchUp => match s.pass with
    | .draining drain =>
      if drain.pending.isEmpty && drain.shortPage && !drain.caughtUp &&
          drain.selectorRevision = s.selectorRevision then
        let drain := { readPage (s.hubs drain.matchDrainHubUrl).rows drain with caughtUp := true }
        some { s with pass := .draining drain }
      else none
    | _ => none
  | .finish => match s.pass with
    | .draining drain =>
      if drain.pending.isEmpty && drain.shortPage then
        if drain.selectorRevision ≠ s.selectorRevision then some { s with pass := .idle }
        else match staleMatches s drain with
          | some m => some { s with pass := .marking m }
          | none => some (s.certify (drain.watermark.map fun _ => drain.matchDrainHubUrl))
      else none
    | _ => none
  | .mark => match s.pass with
    | .marking m =>
      if m.stale.isEmpty then some (s.certify (some m.matchDrainHubUrl))
      else
        some { s with
          mirror := markRetracted s.mirror m.chunk
          pass := .marking m.next }
    | _ => none
  | .abort => match s.pass with
    | .idle => none
    | .draining _ => some { s with pass := .idle }
    -- an `UPDATE` failed: the chunks behind it are left
    | .marking m => some (s.certify (some m.matchDrainHubUrl))

/-! ### What a drain knows of the hub -/

/-- The hub in the order of its ids, each match on it once. -/
structure HubOrder (hub : List HubMatch) : Prop where
  ids : hub.Pairwise (·.id < ·.id)
  pos : ∀ m ∈ hub, 0 < m.id
  unique : ∀ m ∈ hub, ∀ m' ∈ hub, m.match_id = m'.match_id → m = m'

/-- The hub holds the match. -/
def Known (hub : List HubMatch) (k : SqlValue) : Prop := ∃ m ∈ hub, m.match_id = k

/-- A later hub: every match keeps its id, and a new one comes behind them all. -/
structure Grows (hub hub' : List HubMatch) : Prop where
  kept : ∀ m ∈ hub, ∃ m' ∈ hub', m'.id = m.id ∧ m'.match_id = m.match_id
  old_or_new : ∀ m' ∈ hub', (∃ m ∈ hub, m.id = m'.id ∧ m.match_id = m'.match_id) ∨
    0 < m'.id ∧ ∀ m ∈ hub, m.id < m'.id

/-- Of the matches a drain has passed over, those it found retracted are the ones no page served. -/
structure DrainInv (hub : List HubMatch) (drain : MatchDrain) : Prop where
  once : ∀ rows, drain.matchPreDrainRows = some rows → ∀ r ∈ rows, ∀ r' ∈ rows, r.1 = r'.1 → r = r'
  served : ∀ k ∈ drain.servedMatchIds, ∃ m ∈ hub, m.match_id = k ∧ m.id ≤ drain.lastId
  pending : ∀ p ∈ drain.pending, drain.lastId < p.id ∧ ∃ m ∈ hub, m.match_id = p.match_id ∧ m.id = p.id
  ascending : drain.pending.Pairwise (·.id < ·.id)
  cursor : drain.lastId = 0 ∨ ∃ m ∈ hub, m.id = drain.lastId
  covered : ∀ m ∈ hub, m.id ≤ Page.reached HubMatch.id drain.lastId drain.pending →
    (drain.read m.match_id).isSome
  live : ∀ k, drain.read k = some false →
    k ∈ drain.servedMatchIds ∨ k ∈ drain.pending.map HubMatch.match_id
  retracted : ∀ k, drain.read k = some true →
    k ∉ drain.servedMatchIds ∧ k ∉ drain.pending.map HubMatch.match_id

/-- The hub holds the matches the drain started from, and its pages pass over them all. -/
structure Held (hub : List HubMatch) (drain : MatchDrain) : Prop where
  known : ∀ rows, drain.matchPreDrainRows = some rows → ∀ r ∈ rows, Known hub r.1
  complete : drain.shortPage = true → ∀ rows, drain.matchPreDrainRows = some rows → ∀ r ∈ rows,
    (drain.read r.1).isSome

section drain
variable {hub hub' : List HubMatch} {drain : MatchDrain}

theorem Known.grows {k : SqlValue} (hg : Grows hub hub') (h : Known hub k) : Known hub' k := by
  obtain ⟨m, hm, rfl⟩ := h
  obtain ⟨m', hm', -, hk⟩ := hg.kept m hm
  exact ⟨m', hm', hk⟩

/-- Where the drain has come to is an id of the hub. -/
theorem DrainInv.reached_eq (h : DrainInv hub drain) :
    Page.reached HubMatch.id drain.lastId drain.pending = 0 ∨
      ∃ m ∈ hub, m.id = Page.reached HubMatch.id drain.lastId drain.pending := by
  by_cases hnil : drain.pending = []
  · rw [hnil, Page.reached_nil]
    exact h.cursor
  · obtain ⟨p, hp, hid⟩ := Page.reached_mem HubMatch.id drain.lastId hnil
    obtain ⟨-, m, hm, -, hmid⟩ := h.pending p hp
    exact .inr ⟨m, hm, hmid.trans hid⟩

theorem DrainInv.grows (hg : Grows hub hub') (h : DrainInv hub drain) : DrainInv hub' drain where
  once := h.once
  served k hk := by
    obtain ⟨m, hm, rfl, hle⟩ := h.served k hk
    obtain ⟨m', hm', hid, hmk⟩ := hg.kept m hm
    exact ⟨m', hm', hmk, hid ▸ hle⟩
  pending p hp := by
    obtain ⟨hlt, m, hm, hmk, hid⟩ := h.pending p hp
    obtain ⟨m', hm', hid', hmk'⟩ := hg.kept m hm
    exact ⟨hlt, m', hm', hmk'.trans hmk, hid'.trans hid⟩
  ascending := h.ascending
  cursor := by
    rcases h.cursor with hzero | ⟨m, hm, hid⟩
    · exact .inl hzero
    · obtain ⟨m', hm', hid', -⟩ := hg.kept m hm
      exact .inr ⟨m', hm', hid'.trans hid⟩
  covered m' hm' hle := by
    rcases hg.old_or_new m' hm' with ⟨m, hm, hid, hk⟩ | ⟨hpos, hnew⟩
    · rw [← hk]
      exact h.covered m hm (hid ▸ hle)
    · rcases h.reached_eq with hzero | ⟨m, hm, hid⟩
      · omega
      · exact absurd (hid ▸ hnew m hm) hle.not_gt
  live := h.live
  retracted := h.retracted

theorem Held.grows (hg : Grows hub hub') (h : Held hub drain) : Held hub' drain where
  known rows hrows r hr := (h.known rows hrows r hr).grows hg
  complete := h.complete

theorem noteRead_of_passed (hord : HubOrder hub) {since reached : ℕ} {short : Bool}
    {read : SqlValue → Option Bool} {m : HubMatch} (hm : m ∈ hub) (hlo : since < m.id)
    (hhi : short = true ∨ m.id ≤ reached) :
    noteRead hub since reached short read m.match_id = some m.retracted := by
  have hfind : hub.find? (fun m' => m'.match_id = m.match_id && since < m'.id &&
      (short || m'.id ≤ reached)) = some m := by
    obtain ⟨m', hm'⟩ : ∃ m', hub.find? (fun m' => m'.match_id = m.match_id && since < m'.id &&
        (short || m'.id ≤ reached)) = some m' := by
      rw [← Option.isSome_iff_exists, List.find?_isSome]
      exact ⟨m, hm, by simpa [hlo] using hhi⟩
    have hkey : m'.match_id = m.match_id := by
      have := List.find?_some hm'
      simp only [Bool.and_eq_true, decide_eq_true_eq] at this
      exact this.1.1
    rw [hm', hord.unique m' (List.mem_of_find?_eq_some hm') m hm hkey]
  rw [noteRead, hfind]

/-- Either the match was passed over now, or what was known of it stays. -/
theorem noteRead_cases (hord : HubOrder hub) (since reached : ℕ) (short : Bool)
    (read : SqlValue → Option Bool) (k : SqlValue) :
    (∃ m ∈ hub, m.match_id = k ∧ since < m.id ∧ (short = true ∨ m.id ≤ reached) ∧
      noteRead hub since reached short read k = some m.retracted) ∨
    (∀ m ∈ hub, m.match_id = k → since < m.id → ¬ (short = true ∨ m.id ≤ reached)) ∧
      noteRead hub since reached short read k = read k := by
  by_cases hpassed : ∃ m ∈ hub, m.match_id = k ∧ since < m.id ∧ (short = true ∨ m.id ≤ reached)
  · obtain ⟨m, hm, rfl, hlo, hhi⟩ := hpassed
    exact .inl ⟨m, hm, rfl, hlo, hhi, noteRead_of_passed hord hm hlo hhi⟩
  · refine .inr ⟨fun m hm hk hlo hhi => hpassed ⟨m, hm, hk, hlo, hhi⟩, ?_⟩
    have hnone : hub.find? (fun m => m.match_id = k && since < m.id && (short || m.id ≤ reached)) =
        none := by
      rw [List.find?_eq_none]
      intro m hm hp
      simp only [Bool.and_eq_true, Bool.or_eq_true, decide_eq_true_eq] at hp
      exact hpassed ⟨m, hm, hp.1.1, hp.1.2, hp.2⟩
    rw [noteRead, hnone]

/-- What a page was read over stays known. -/
theorem noteRead_isSome (hord : HubOrder hub) {since reached : ℕ} {short : Bool} {read : SqlValue → Option Bool}
    (hcovered : ∀ m ∈ hub, m.id ≤ since → (read m.match_id).isSome) {m : HubMatch} (hm : m ∈ hub)
    (hhi : short = true ∨ m.id ≤ reached) : (noteRead hub since reached short read m.match_id).isSome := by
  by_cases hlo : since < m.id
  · rw [noteRead_of_passed hord hm hlo hhi]
    rfl
  · rcases noteRead_cases hord since reached short read m.match_id with ⟨m', -, -, -, -, hval⟩ | ⟨-, hval⟩
    · rw [hval]
      rfl
    · rw [hval]
      exact hcovered m hm (not_lt.mp hlo)

/-- The rows of a page are the matches it passes over that are not retracted. -/
theorem mem_fetch_iff_passed (hord : HubOrder hub) {since limit : ℕ} {rows : List HubMatch}
    (hrows : rows = Page.fetch HubMatch.id (hub.filter fun m => !m.retracted) since limit)
    {m : HubMatch} (hm : m ∈ hub) (hlo : since < m.id) :
    m ∈ rows ↔ m.retracted = false ∧
      (decide (rows.length < limit) = true ∨ m.id ≤ Page.reached HubMatch.id since rows) := by
  have hsort := hord.ids.filter fun m => !m.retracted
  have hlive : m ∈ hub.filter (fun m => !m.retracted) ↔ m.retracted = false := by simp [hm]
  rw [decide_eq_true_eq]
  by_cases hshort : rows.length < limit
  · have hmem := Page.mem_fetch_of_short (x := m) (hrows ▸ hshort)
    rw [← hrows, hlive] at hmem
    simp [hmem, hlo, hshort]
  · have hmem : m ∈ Page.fetch HubMatch.id (hub.filter fun m => !m.retracted) since limit ↔ _ :=
      Page.mem_fetch hsort
    rw [← hrows, hlive] at hmem
    simp [hmem, hlo, hshort]

theorem DrainInv.readPage (hord : HubOrder hub) (h : DrainInv hub drain) (hnil : drain.pending = []) :
    DrainInv hub (readPage hub drain) := by
  obtain ⟨rows, hrows⟩ : ∃ rows, rows =
      Page.fetch HubMatch.id (hub.filter fun m => !m.retracted) drain.lastId PAGE_LIMIT := ⟨_, rfl⟩
  have hpage : Matches.readPage hub drain =
      { drain with
        pending := rows
        read := noteRead hub drain.lastId (Page.reached HubMatch.id drain.lastId rows)
          (decide (rows.length < PAGE_LIMIT)) drain.read
        shortPage := drain.shortPage || decide (rows.length < PAGE_LIMIT) } := by
    rw [hrows]
    rfl
  have hmem {m : HubMatch} (hm : m ∈ hub) (hlo : drain.lastId < m.id) :=
    mem_fetch_iff_passed hord hrows hm hlo
  have hhub : ∀ p ∈ rows, p ∈ hub ∧ drain.lastId < p.id := by
    intro p hp
    rw [hrows] at hp
    obtain ⟨hp, hlo⟩ := Page.mem_of_mem_fetch hp
    exact ⟨List.mem_of_mem_filter hp, hlo⟩
  have hcovered : ∀ m ∈ hub, m.id ≤ drain.lastId → (drain.read m.match_id).isSome := by
    intro m hm hle
    refine h.covered m hm ?_
    rwa [hnil, Page.reached_nil]
  have hread := noteRead_cases hord drain.lastId (Page.reached HubMatch.id drain.lastId rows)
    (decide (rows.length < PAGE_LIMIT)) drain.read
  rw [hpage]
  exact
    { once := h.once
      served := h.served
      pending := fun p hp => ⟨(hhub p hp).2, p, (hhub p hp).1, rfl, rfl⟩
      ascending := hrows ▸ Page.fetch_pairwise (hord.ids.filter _)
      cursor := h.cursor
      covered := fun m hm hle => noteRead_isSome hord hcovered hm (.inr hle)
      live := by
        intro k hk
        rcases hread k with ⟨m, hm, rfl, hlo, hhi, hval⟩ | ⟨-, hval⟩
        · have hlive : m.retracted = false := Option.some.inj (hval.symm.trans hk)
          exact .inr (List.mem_map.mpr ⟨m, (hmem hm hlo).mpr ⟨hlive, hhi⟩, rfl⟩)
        · refine .inl ((h.live k (hval.symm.trans hk)).resolve_right ?_)
          simp [hnil]
      retracted := by
        intro k hk
        rcases hread k with ⟨m, hm, rfl, hlo, hhi, hval⟩ | ⟨hnot, hval⟩
        · have hretracted : m.retracted = true := Option.some.inj (hval.symm.trans hk)
          constructor
          · intro hserved
            obtain ⟨m', hm', hk', hle⟩ := h.served _ hserved
            rw [hord.unique m' hm' m hm hk'] at hle
            omega
          · intro hpending
            obtain ⟨p, hp, hk'⟩ := List.mem_map.mp hpending
            obtain rfl := hord.unique p (hhub p hp).1 m hm hk'
            rw [((hmem hm hlo).mp hp).1] at hretracted
            cases hretracted
        · refine ⟨(h.retracted k (hval.symm.trans hk)).1, fun hpending => ?_⟩
          obtain ⟨p, hp, hk'⟩ := List.mem_map.mp hpending
          obtain ⟨hphub, hlo⟩ := hhub p hp
          exact hnot p hphub hk' hlo ((hmem hphub hlo).mp hp).2 }

/-- What the hub holds when a page is read is passed over by the time a page was short. -/
theorem Held.readPage (hord : HubOrder hub) (hinv : DrainInv hub drain) (hnil : drain.pending = [])
    (h : Held hub drain) : Held hub (readPage hub drain) where
  known := h.known
  complete hshort rows hpre r hr := by
    obtain ⟨m, hm, hk⟩ := h.known rows hpre r hr
    rw [← hk]
    have hcovered : ∀ m ∈ hub, m.id ≤ drain.lastId → (drain.read m.match_id).isSome := by
      intro m hm hle
      refine hinv.covered m hm ?_
      rwa [hnil, Page.reached_nil]
    rcases Bool.or_eq_true_iff.mp hshort with hbefore | hnow
    · have hold := h.complete hbefore rows hpre r hr
      rw [← hk] at hold
      rcases noteRead_cases hord drain.lastId _ _ drain.read m.match_id with ⟨m', -, -, -, -, hval⟩ | ⟨-, hval⟩
      · exact (congrArg Option.isSome hval).trans rfl
      · exact (congrArg Option.isSome hval).trans hold
    · exact noteRead_isSome hord hcovered hm (.inl hnow)

theorem drainInv_open (hord : HubOrder hub) (mirror : MatchTable) (url : HubUrl) (revision : ℕ) (readable : Bool) :
    DrainInv hub
      { matchDrainHubUrl := url
        selectorRevision := revision
        matchPreDrainRows := if readable then some (snapshotFinalizedMatches mirror) else none } where
  once rows hrows r hr r' hr' hk := by
    cases readable with
    | false => cases hrows
    | true =>
      obtain rfl := Option.some.inj hrows
      obtain ⟨x, hx, rfl⟩ := List.mem_map.mp hr
      obtain ⟨y, hy, rfl⟩ := List.mem_map.mp hr'
      rw [UniqueTable.eq_of_key_eq (t := mirror) (List.mem_of_mem_filter hx)
        (List.mem_of_mem_filter hy) hk]
  served := by simp
  pending := by simp
  ascending := List.Pairwise.nil
  cursor := .inl rfl
  covered m hm hle := absurd (hord.pos m hm) (by simpa using hle)
  live := by simp
  retracted := by simp

theorem DrainInv.handled {hub : List HubMatch} {drain : MatchDrain} (h : DrainInv hub drain)
    {m : HubMatch} {pending : List HubMatch} (hp : drain.pending = m :: pending) :
    DrainInv hub (drain.handled m pending) := by
  have hm := h.pending m (by simp [hp])
  obtain ⟨hlt, m', hm', hmk, hid⟩ := hm
  have hasc := h.ascending
  rw [hp] at hasc
  obtain ⟨hfirst, hasc⟩ := List.pairwise_cons.mp hasc
  exact
    { once := h.once
      served := by
        intro k hk
        rcases List.mem_cons.mp hk with rfl | hk
        · exact ⟨m', hm', hmk, hid.le⟩
        · obtain ⟨m'', hm'', hk'', hle⟩ := h.served k hk
          exact ⟨m'', hm'', hk'', hle.trans hlt.le⟩
      pending := fun p hpp =>
        ⟨hfirst p hpp, (h.pending p (by rw [hp]; exact List.mem_cons_of_mem _ hpp)).2⟩
      ascending := hasc
      cursor := .inr ⟨m', hm', hid⟩
      covered := by
        intro m'' hm'' hle
        refine h.covered m'' hm'' ?_
        rw [hp]
        have hsplit : Page.reached HubMatch.id drain.lastId (m :: pending) =
            Page.reached HubMatch.id m.id pending :=
          Page.reached_append [m] pending
        rw [hsplit]
        exact hle
      live := by
        intro k hk
        have hlive := h.live k hk
        rw [hp, List.map_cons, List.mem_cons] at hlive
        rcases hlive with hserved | rfl | hpending
        · exact .inl (List.mem_cons_of_mem _ hserved)
        · exact .inl List.mem_cons_self
        · exact .inr hpending
      retracted := by
        intro k hk
        obtain ⟨hserved, hpending⟩ := h.retracted k hk
        rw [hp, List.map_cons, List.mem_cons, not_or] at hpending
        exact ⟨fun hk => (List.mem_cons.mp hk).elim hpending.1 hserved, hpending.2⟩ }

/-- Fields the account of a drain does not rest on. -/
theorem DrainInv.with_watermark (h : DrainInv hub drain) (watermark : Option ℤ) (caughtUp : Bool) :
    DrainInv hub { drain with watermark, caughtUp } :=
  ⟨h.once, h.served, h.pending, h.ascending, h.cursor, h.covered, h.live, h.retracted⟩

/-- Once its rows are through, a drain has served exactly what it found at the hub and not retracted. -/
theorem DrainInv.served_iff (h : DrainInv hub drain) (hnil : drain.pending = []) (k : SqlValue) :
    k ∈ drain.servedMatchIds ↔ drain.read k = some false := by
  constructor
  · intro hserved
    obtain ⟨m, hm, rfl, hle⟩ := h.served k hserved
    have hsome := h.covered m hm (by rwa [hnil, Page.reached_nil])
    obtain ⟨b, hb⟩ := Option.isSome_iff_exists.mp hsome
    cases b with
    | false => exact hb
    | true => exact absurd hserved (h.retracted _ hb).1
  · intro hread
    exact (h.live k hread).resolve_right (by simp [hnil])

end drain

/-! ### Every step -/

/-- Of the versions a drain started from, the ones marked and still to mark are those that its watermark
    covers and that the hub did not hold as anything but retracted when its pages were read. -/
structure MarkInv (m : Marking) : Prop where
  once : ∀ r ∈ m.matchPreDrainRows, ∀ r' ∈ m.matchPreDrainRows, r.1 = r'.1 → r = r'
  unserved : ∀ r, r ∈ m.marked ++ m.stale ↔
    r ∈ m.matchPreDrainRows ∧ (r.2 : ℤ) ≤ m.watermark ∧ m.read r.1 ≠ some false

/-- What holds of a pass under way. -/
def PassInv (hubs : HubUrl → Hub) : Pass → Prop
  | .idle => True
  | .draining drain => DrainInv (hubs drain.matchDrainHubUrl).rows drain
  | .marking m => MarkInv m

/-- What holds of every reachable state. -/
structure Inv (s : State) : Prop where
  order : ∀ url, HubOrder (s.hubs url).rows
  pass : PassInv s.hubs s.pass
  sameHub : ∀ m, s.pass = .marking m → s.lastCertifiedMatchDrainHubUrl = some m.matchDrainHubUrl

/-- What a step does to the pass, and to the hub of the drain certified last. -/
inductive PassStep (s : State) : Label → Pass → Option HubUrl → Prop
  | stay {label : Label} : PassStep s label s.pass s.lastCertifiedMatchDrainHubUrl
  | ended {label : Label} (certified : Option HubUrl) : PassStep s label .idle certified
  | opened (readable : Bool) : PassStep s (.openDrain readable)
      (.draining
        { matchDrainHubUrl := s.hubUrl
          selectorRevision := s.selectorRevision
          matchPreDrainRows := if readable then some (snapshotFinalizedMatches s.mirror) else none })
      s.lastCertifiedMatchDrainHubUrl
  | page {label : Label} (drain : MatchDrain) (watermark : Option ℤ) (caughtUp : Bool)
      (hpass : s.pass = .draining drain) (hnil : drain.pending = []) :
      PassStep s label
        (.draining { readPage (s.hubs drain.matchDrainHubUrl).rows drain with watermark, caughtUp })
        s.lastCertifiedMatchDrainHubUrl
  | row {label : Label} (drain : MatchDrain) (m : HubMatch) (pending : List HubMatch)
      (hpass : s.pass = .draining drain) (hpending : drain.pending = m :: pending) :
      PassStep s label (.draining (drain.handled m pending)) s.lastCertifiedMatchDrainHubUrl
  | finish {label : Label} (drain : MatchDrain) (m : Marking) (hpass : s.pass = .draining drain)
      (hnil : drain.pending = []) (hshort : drain.shortPage = true) (hstale : staleMatches s drain = some m) :
      PassStep s label (.marking m) s.lastCertifiedMatchDrainHubUrl
  | mark {label : Label} (m : Marking) (hpass : s.pass = .marking m) :
      PassStep s label (.marking m.next) s.lastCertifiedMatchDrainHubUrl

/-- A hub that took a write. -/
def Written (hub hub' : Hub) : Prop :=
  HubOrder hub.rows → Grows hub.rows hub'.rows ∧ HubOrder hub'.rows

theorem Hub.insert_written {hub hub' : Hub} {m : HubMatch} (h : hub.insert m = some hub') : Written hub hub' := by
  intro hord
  rw [Hub.insert] at h
  split_ifs at h with hnew
  obtain rfl := Option.some.inj h
  obtain ⟨hpos, hnew⟩ := hnew
  refine ⟨⟨fun m' hm' => ⟨m', List.mem_append_left _ hm', rfl, rfl⟩, fun m' hm' => ?_⟩,
    ?_, fun m' hm' => ?_, fun a ha b hb hk => ?_⟩
  · rcases List.mem_append.mp hm' with hm' | hm'
    · exact .inl ⟨m', hm', rfl, rfl⟩
    · obtain rfl := List.mem_singleton.mp hm'
      exact .inr ⟨hpos, fun m'' hm'' => (hnew m'' hm'').1⟩
  · refine List.pairwise_append.mpr ⟨hord.ids, List.pairwise_singleton _ _, ?_⟩
    intro a ha b hb
    exact List.mem_singleton.mp hb ▸ (hnew a ha).1
  · rcases List.mem_append.mp hm' with hm' | hm'
    · exact hord.pos m' hm'
    · exact List.mem_singleton.mp hm' ▸ hpos
  · rcases List.mem_append.mp ha with ha | ha <;> rcases List.mem_append.mp hb with hb | hb
    · exact hord.unique a ha b hb hk
    · exact absurd (List.mem_singleton.mp hb ▸ hk) (hnew a ha).2
    · exact absurd (List.mem_singleton.mp ha ▸ hk).symm (hnew b hb).2
    · rw [List.mem_singleton.mp ha, List.mem_singleton.mp hb]

/-- A write in place keeps ids and matches. -/
theorem Hub.write_written {hub hub' : Hub} {id : ℕ} {row : MirrorRow} (h : hub.write id row = some hub') :
    Written hub hub' := by
  intro hord
  rw [Hub.write] at h
  split_ifs at h with hm
  obtain rfl := Option.some.inj h
  obtain ⟨m, hm, rfl, hadmit⟩ := hm
  have hkey : row .match_id = m.match_id := by
    simp only [admits, Bool.and_eq_true, decide_eq_true_eq] at hadmit
    exact hadmit.1
  have hsame : ∀ m' ∈ hub.rows, (if m'.id = m.id then { m' with row } else m').id = m'.id ∧
      (if m'.id = m.id then { m' with row } else m').match_id = m'.match_id := by
    intro m' hm'
    split_ifs with hid
    · obtain rfl := Page.eq_of_key_eq hord.ids hm' hm hid
      exact ⟨rfl, hkey⟩
    · exact ⟨rfl, rfl⟩
  refine ⟨⟨fun m' hm' => ⟨_, List.mem_map_of_mem hm', hsame m' hm'⟩, fun m' hm' => ?_⟩,
    ?_, fun m' hm' => ?_, fun a ha b hb hk => ?_⟩
  · obtain ⟨m'', hm'', rfl⟩ := List.mem_map.mp hm'
    exact .inl ⟨m'', hm'', (hsame m'' hm'').1.symm, (hsame m'' hm'').2.symm⟩
  · rw [List.pairwise_map]
    refine hord.ids.imp_of_mem fun ha hb hlt => ?_
    rwa [(hsame _ ha).1, (hsame _ hb).1]
  · obtain ⟨m'', hm'', rfl⟩ := List.mem_map.mp hm'
    rw [(hsame m'' hm'').1]
    exact hord.pos m'' hm''
  · obtain ⟨a', ha', rfl⟩ := List.mem_map.mp ha
    obtain ⟨b', hb', rfl⟩ := List.mem_map.mp hb
    rw [(hsame a' ha').2, (hsame b' hb').2] at hk
    rw [hord.unique a' ha' b' hb' hk]

section steps
variable {s t : State} {cols : List Column} {label : Label}

/-- A step is a write of one hub, or it leaves the hubs. -/
theorem step_cases (hs : step cols s label = some t) :
    (∃ url hub, Written (s.hubs url) hub ∧ t = s.setHub url hub) ∨
      t.hubs = s.hubs ∧ PassStep s label t.pass t.lastCertifiedMatchDrainHubUrl := by
  cases label with
  | hubInsert url m =>
    obtain ⟨hub, hinsert, rfl⟩ := Option.map_eq_some_iff.mp hs
    exact .inl ⟨url, hub, Hub.insert_written hinsert, rfl⟩
  | hubWrite url id row =>
    obtain ⟨hub, hwrite, rfl⟩ := Option.map_eq_some_iff.mp hs
    exact .inl ⟨url, hub, Hub.write_written hwrite, rfl⟩
  | moveHub url =>
    cases hs
    exact .inr ⟨rfl, .stay⟩
  | live version =>
    obtain ⟨row, -, rfl⟩ := Option.map_eq_some_iff.mp hs
    exact .inr ⟨rfl, .stay⟩
  | liveRetraction chain range =>
    cases hs
    exact .inr ⟨rfl, .stay⟩
  | liveStamp match_id anchor_txid =>
    cases hs
    exact .inr ⟨rfl, .stay⟩
  | openDrain readable =>
    simp only [step] at hs
    split at hs <;> cases hs
    exact .inr ⟨rfl, .opened readable⟩
  | page watermark =>
    simp only [step] at hs
    split at hs
    case h_1 drain hpass =>
      split_ifs at hs with hready
      cases hs
      simp only [Bool.and_eq_true, List.isEmpty_iff] at hready
      exact .inr ⟨rfl, .page drain _ _ hpass hready.1.1⟩
    · cases hs
  | row outcome =>
    simp only [step] at hs
    split at hs
    case h_1 drain hpass =>
      split at hs
      case h_1 m pending hpending =>
        cases outcome <;> cases hs
        · exact .inr ⟨rfl, .row drain m pending hpass hpending⟩
        · exact .inr ⟨rfl, .row drain m pending hpass hpending⟩
        · exact .inr ⟨rfl, .ended _⟩
      · cases hs
    · cases hs
  | catchUp =>
    simp only [step] at hs
    split at hs
    case h_1 drain hpass =>
      split_ifs at hs with hready
      cases hs
      simp only [Bool.and_eq_true, List.isEmpty_iff] at hready
      exact .inr ⟨rfl, .page drain _ _ hpass hready.1.1.1⟩
    · cases hs
  | finish =>
    simp only [step] at hs
    split at hs
    case h_1 drain hpass =>
      split_ifs at hs with hready hrevision
      · cases hs
        exact .inr ⟨rfl, .ended _⟩
      · simp only [Bool.and_eq_true, List.isEmpty_iff] at hready
        split at hs
        case h_1 m hstale =>
          cases hs
          exact .inr ⟨rfl, .finish drain m hpass hready.1 hready.2 hstale⟩
        · cases hs
          exact .inr ⟨rfl, .ended _⟩
    · cases hs
  | mark =>
    simp only [step] at hs
    split at hs
    case h_1 m hpass =>
      split_ifs at hs
      · cases hs
        exact .inr ⟨rfl, .ended _⟩
      · cases hs
        exact .inr ⟨rfl, .mark m hpass⟩
    · cases hs
  | abort =>
    simp only [step] at hs
    split at hs
    · cases hs
    · cases hs
      exact .inr ⟨rfl, .ended _⟩
    · cases hs
      exact .inr ⟨rfl, .ended _⟩

/-- The rows a pass may mark, and the guard that lets it. -/
theorem staleMatches_eq {drain : MatchDrain} {m : Marking} (hm : staleMatches s drain = some m) :
    ∃ rows watermark, drain.matchPreDrainRows = some rows ∧ drain.watermark = some watermark ∧
      s.lastCertifiedMatchDrainHubUrl = some drain.matchDrainHubUrl ∧
      m = { matchDrainHubUrl := drain.matchDrainHubUrl
            stale := rows.filter fun r => r.2 ≤ watermark && r.1 ∉ drain.servedMatchIds
            matchPreDrainRows := rows
            watermark
            read := drain.read } := by
  unfold staleMatches at hm
  split at hm
  case h_1 rows watermark hrows hwatermark =>
    split_ifs at hm with hsame
    exact ⟨rows, watermark, hrows, hwatermark, hsame, (Option.some.inj hm).symm⟩
  case h_2 => cases hm

theorem DrainInv.staleMatches {hub : List HubMatch} {drain : MatchDrain} (h : DrainInv hub drain)
    (hnil : drain.pending = []) {m : Marking} (hm : staleMatches s drain = some m) : MarkInv m := by
  obtain ⟨rows, watermark, hrows, -, -, rfl⟩ := staleMatches_eq hm
  refine ⟨h.once rows hrows, fun r => ?_⟩
  simp only [List.nil_append, List.mem_filter, Bool.and_eq_true, decide_eq_true_eq, h.served_iff hnil, ne_eq]

theorem MarkInv.next {m : Marking} (h : MarkInv m) : MarkInv m.next where
  once := h.once
  unserved r := by
    have hsplit : m.next.marked ++ m.next.stale = m.marked ++ m.stale := by
      change m.marked ++ m.stale.take MARK_CHUNK ++ m.stale.drop MARK_CHUNK = m.marked ++ m.stale
      rw [List.append_assoc, List.take_append_drop]
    rw [hsplit]
    exact h.unserved r

theorem PassInv.grows {hubs hubs' : HubUrl → Hub} (hg : ∀ url, Grows (hubs url).rows (hubs' url).rows) :
    ∀ {pass : Pass}, PassInv hubs pass → PassInv hubs' pass
  | .idle, _ => trivial
  | .draining _, h => DrainInv.grows (hg _) h
  | .marking _, h => h

theorem Grows.refl (hub : List HubMatch) : Grows hub hub where
  kept m hm := ⟨m, hm, rfl, rfl⟩
  old_or_new m hm := .inl ⟨m, hm, rfl, rfl⟩

/-- Every hub grows where one takes a write. -/
theorem grows_setHub {hub : Hub} {url : HubUrl} (hg : Grows (s.hubs url).rows hub.rows) (url' : HubUrl) :
    Grows (s.hubs url').rows ((s.setHub url hub).hubs url').rows := by
  change Grows _ (Function.update s.hubs url hub url').rows
  rcases eq_or_ne url' url with rfl | hne
  · rwa [Function.update_self]
  · rw [Function.update_of_ne hne]
    exact .refl _

theorem order_setHub (h : ∀ url, HubOrder (s.hubs url).rows) {hub : Hub} {url : HubUrl}
    (hhub : HubOrder hub.rows) (url' : HubUrl) : HubOrder ((s.setHub url hub).hubs url').rows := by
  change HubOrder (Function.update s.hubs url hub url').rows
  rcases eq_or_ne url' url with rfl | hne
  · rwa [Function.update_self]
  · rw [Function.update_of_ne hne]
    exact h url'

theorem Inv.step (h : Inv s) (hs : step cols s label = some t) : Inv t := by
  rcases step_cases hs with ⟨url, hub, hwritten, rfl⟩ | ⟨hhubs, hpass⟩
  · obtain ⟨hg, hord⟩ := hwritten (h.order url)
    exact ⟨order_setHub h.order hord, h.pass.grows (grows_setHub hg), h.sameHub⟩
  suffices hnext : PassInv s.hubs t.pass ∧
      ∀ m, t.pass = .marking m → t.lastCertifiedMatchDrainHubUrl = some m.matchDrainHubUrl by
    rw [← hhubs] at hnext
    exact ⟨by rw [hhubs]; exact h.order, hnext.1, hnext.2⟩
  generalize t.pass = pass at hpass ⊢
  generalize t.lastCertifiedMatchDrainHubUrl = certified at hpass ⊢
  have hinv := h.pass
  cases hpass with
  | stay => exact ⟨h.pass, h.sameHub⟩
  | ended => exact ⟨trivial, fun _ hm => by cases hm⟩
  | opened readable => exact ⟨drainInv_open (h.order _) s.mirror s.hubUrl _ readable, fun _ hm => by cases hm⟩
  | page drain watermark caughtUp hp hnil =>
    rw [hp] at hinv
    exact ⟨(DrainInv.readPage (h.order _) hinv hnil).with_watermark _ _, fun _ hm => by cases hm⟩
  | row drain m pending hp hpending =>
    rw [hp] at hinv
    exact ⟨DrainInv.handled hinv hpending, fun _ hm => by cases hm⟩
  | finish drain m hp hnil hshort hstale =>
    rw [hp] at hinv
    refine ⟨DrainInv.staleMatches hinv hnil hstale, fun m' hm => ?_⟩
    cases hm
    obtain ⟨_, _, -, -, hsame, rfl⟩ := staleMatches_eq hstale
    exact hsame
  | mark m hp =>
    rw [hp] at hinv
    refine ⟨MarkInv.next hinv, fun m' hm => ?_⟩
    cases hm
    exact h.sameHub m hp

end steps

/-! ### A hub that holds what the mirror holds -/

/-- The condition on a drain that may be followed by a pass, one of the hub certified last: that hub holds
    every finalized match of the mirror, as retracted or not. -/
def hubHoldsMirror (s : State) : Label → Bool
  | .openDrain _ =>
    s.lastCertifiedMatchDrainHubUrl ≠ some s.hubUrl ||
      s.mirror.rows.all fun x => !finalized x.value || (s.hubs s.hubUrl).rows.any (·.match_id = x.key)
  | _ => true

/-- Every version that the watermark covers was held by the hub when its pages were read. -/
def AllHeld (m : Marking) : Prop :=
  ∀ r ∈ m.matchPreDrainRows, (r.2 : ℤ) ≤ m.watermark → (m.read r.1).isSome

/-- A pass over the hub that was certified last finds its rows held. -/
def PassHeld (s : State) : Pass → Prop
  | .idle => True
  | .draining drain => s.lastCertifiedMatchDrainHubUrl = some drain.matchDrainHubUrl →
    Held (s.hubs drain.matchDrainHubUrl).rows drain
  | .marking m => AllHeld m

section held
variable {s t : State} {cols : List Column} {label : Label}

theorem held_open (hholds : hubHoldsMirror s (.openDrain true) = true) (readable : Bool) :
    PassHeld s (.draining
      { matchDrainHubUrl := s.hubUrl
        selectorRevision := s.selectorRevision
        matchPreDrainRows := if readable then some (snapshotFinalizedMatches s.mirror) else none }) := by
  intro hsame
  refine ⟨fun rows hrows r hr => ?_, by simp⟩
  cases readable with
  | false => cases hrows
  | true =>
    obtain rfl := Option.some.inj hrows
    obtain ⟨x, hx, rfl⟩ := List.mem_map.mp hr
    obtain ⟨hx, hfinalized⟩ := List.mem_filter.mp hx
    simp only [hubHoldsMirror, hsame, ne_eq, not_true_eq_false, decide_false, Bool.false_or, List.all_eq_true] at hholds
    have hany := hholds x hx
    simp only [hfinalized, Bool.not_true, Bool.false_or, List.any_eq_true, decide_eq_true_eq] at hany
    exact hany

theorem Held.with_watermark {hub : List HubMatch} {drain : MatchDrain} (h : Held hub drain) (watermark : Option ℤ)
    (caughtUp : Bool) : Held hub { drain with watermark, caughtUp } :=
  ⟨h.known, h.complete⟩

theorem PassHeld.step (hinv : Inv s) (h : PassHeld s s.pass) (hholds : hubHoldsMirror s label = true)
    (hs : step cols s label = some t) : PassHeld t t.pass := by
  rcases step_cases hs with ⟨url, hub, hwritten, rfl⟩ | ⟨hhubs, hpass⟩
  · have hg := (hwritten (hinv.order url)).1
    change PassHeld (s.setHub url hub) s.pass
    cases hp : s.pass with
    | idle => trivial
    | marking m =>
      rw [hp] at h
      exact h
    | draining drain =>
      rw [hp] at h
      exact fun hsame => (h hsame).grows (grows_setHub hg _)
  have hpassInv := hinv.pass
  unfold PassHeld
  rw [hhubs]
  generalize t.pass = pass at hpass ⊢
  generalize t.lastCertifiedMatchDrainHubUrl = certified at hpass ⊢
  cases hpass with
  | stay => exact h
  | ended => trivial
  | opened readable => exact held_open hholds readable
  | page drain watermark caughtUp hp hnil =>
    rw [hp] at h hpassInv
    exact fun hsame => ((h hsame).readPage (hinv.order _) hpassInv hnil).with_watermark _ _
  | row drain m pending hp hpending =>
    rw [hp] at h
    exact fun hsame => ⟨(h hsame).known, (h hsame).complete⟩
  | finish drain m hp hnil hshort hstale =>
    rw [hp] at h
    obtain ⟨rows, watermark, hrows, -, hsame, rfl⟩ := staleMatches_eq hstale
    exact fun r hr _ => (h hsame).complete hshort rows hrows r hr
  | mark m hp =>
    rw [hp] at h
    exact h

end held

/-! ### Exactly the retracted ones -/

/-- The versions a pass marks are the finalized ones its drain started from that its watermark covers and
    that the hub held as retracted when its pages were read. -/
def Exact (m : Marking) : Prop :=
  ∀ r, r ∈ m.marked ++ m.stale ↔ r ∈ m.matchPreDrainRows ∧ (r.2 : ℤ) ≤ m.watermark ∧ m.read r.1 = some true

theorem MarkInv.exact_iff {m : Marking} (h : MarkInv m) : Exact m ↔ AllHeld m := by
  constructor
  · intro hexact r hr hle
    by_contra hnone
    have hread : m.read r.1 = none := by simpa using hnone
    have hmem := (h.unserved r).mpr ⟨hr, hle, by simp [hread]⟩
    exact absurd ((hexact r).mp hmem).2.2 (by simp [hread])
  · intro hheld r
    rw [h.unserved r]
    refine and_congr_right fun hr => and_congr_right fun hle => ?_
    obtain ⟨b, hb⟩ := Option.isSome_iff_exists.mp (hheld r hr hle)
    cases b <;> simp [hb]

/-- Hubs in the order of their ids, any mirror, and no drain under way. -/
structure Started (s : State) : Prop where
  order : ∀ url, HubOrder (s.hubs url).rows
  pass : s.pass = .idle

theorem Started.inv {s : State} (h : Started s) : Inv s where
  order := h.order
  pass := by
    rw [h.pass]
    trivial
  sameHub m hm := by
    rw [h.pass] at hm
    cases hm

/-- A row that one `UPDATE` leaves. -/
def marked (chunk : List MatchVersion) (x : UniqueRow SqlValue MirrorRow) :
    UniqueRow SqlValue MirrorRow :=
  if finalized x.value ∧ (x.key, x.value .effective_time) ∈ chunk then
    { x with value := Function.update x.value .status "retracted" }
  else x

theorem mem_markRetracted {mirror : MatchTable} {chunk : List MatchVersion}
    {x : UniqueRow SqlValue MirrorRow} :
    x ∈ markRetracted mirror chunk ↔ ∃ y ∈ mirror, x = marked chunk y := by
  rw [markRetracted, UniqueTable.mem_modify]
  refine exists_congr fun y => and_congr_right fun _ => ?_
  unfold marked
  split_ifs <;> rfl

/-- One more `UPDATE`: what it leaves, and where the pass goes. -/
theorem mark_spec {cols : List Column} {t t' : State} {m : Marking} (hp : t.pass = .marking m)
    (hm : step cols t .mark = some t') :
    (∀ x, x ∈ t'.mirror ↔ ∃ y ∈ t.mirror, x = marked m.chunk y) ∧
      t'.pass = if m.stale = [] then .idle else .marking m.next := by
  simp only [step, hp] at hm
  split_ifs at hm with hdone
  · cases hm
    have hnil : m.stale = [] := by simpa using hdone
    have hchunk : m.chunk = [] := by simp [Marking.chunk, hnil]
    simp [hchunk, marked, hnil, State.certify]
  · cases hm
    have hne : m.stale ≠ [] := by simpa using hdone
    exact ⟨fun x => mem_markRetracted, (if_neg hne).symm⟩

/-- In every run in which each drain of the hub certified last opens while that hub holds the mirror's
    finalized matches, the passes mark exactly the retracted ones. Of any other run a pass does so just where
    the hub held, when its pages were read, every version that the watermark covers. Whatever the run, a pass
    comes after a certified drain of its own hub, each version is marked where it still stands, and a row
    that is another version by then stays as it is. -/
theorem retracted_matches_exact {cols : List Column} {s t : State} {labels : List Label} (hs : Started s)
    (hr : Runs.run (step cols) s labels = some t) :
    (Runs.Meets (step cols) (fun s label => hubHoldsMirror s label = true) s labels →
      ∀ m, t.pass = .marking m → Exact m) ∧
    ∀ m, t.pass = .marking m → (Exact m ↔ AllHeld m) ∧
      t.lastCertifiedMatchDrainHubUrl = some m.matchDrainHubUrl ∧
      ∀ t', step cols t .mark = some t' →
        (∀ x, x ∈ t'.mirror ↔ ∃ y ∈ t.mirror, x = marked m.chunk y) ∧
        (∀ r ∈ m.matchPreDrainRows, ∀ x ∈ t.mirror, x.key = r.1 → x.value .effective_time ≠ r.2 →
          x ∈ t'.mirror) ∧
        t'.pass = if m.stale = [] then .idle else .marking m.next := by
  have hinv : Inv t := Runs.run_inv' (fun _ _ _ => Inv.step) hs.inv hr
  have hmark : ∀ m, t.pass = .marking m → MarkInv m := by
    intro m hp
    have hpass := hinv.pass
    rw [hp] at hpass
    exact hpass
  refine ⟨fun hmeets m hp => ?_, fun m hp => ⟨(hmark m hp).exact_iff, hinv.sameHub m hp, fun t' hm => ?_⟩⟩
  · have hstart : Inv s ∧ PassHeld s s.pass := by
      refine ⟨hs.inv, ?_⟩
      rw [hs.pass]
      trivial
    have hheld := (Runs.run_inv (I := fun s => Inv s ∧ PassHeld s s.pass)
      (fun _ _ _ h hholds hstep => ⟨h.1.step hstep, h.2.step h.1 hholds hstep⟩) hstart hmeets hr).2
    rw [hp] at hheld
    exact (hmark m hp).exact_iff.mpr hheld
  · obtain ⟨hmirror, hpass⟩ := mark_spec hp hm
    refine ⟨hmirror, fun r hr x hx hk hne => (hmirror x).mpr ⟨x, hx, ?_⟩, hpass⟩
    unfold marked
    rw [if_neg]
    rintro ⟨-, hchunk⟩
    -- the drain started from one version of each match
    have hpre := (((hmark m hp).unserved _).mp (List.mem_append_right _ (List.mem_of_mem_take hchunk))).1
    exact hne (congrArg Prod.snd ((hmark m hp).once _ hpre r hr hk))

/-- The match the traces below are about. -/
def matchRow (effective_time : ℕ) (status : String) : MirrorRow
  | .match_id => .int 1
  | .effective_time => effective_time
  | .status => status
  | c => defaultRow c

/-- The marking, if the pass is at it. -/
def Pass.marking? : Pass → Option Marking
  | .marking m => some m
  | _ => none

theorem Pass.marking?_eq_some {pass : Pass} {m : Marking} : pass.marking? = some m ↔ pass = .marking m := by
  cases pass <;> simp [Pass.marking?]

/-- A mirror with nothing on it. Hub A holds the match, hub B never does. -/
def twoHubs : State where
  hubs url := if url = "A" then ⟨[⟨1, matchRow 5 "finalized"⟩], [matchRow 5 "finalized"]⟩ else ⟨[], []⟩
  hubUrl := "A"
  mirror := UniqueTable.empty

theorem started_twoHubs : Started twoHubs := by
  refine ⟨fun url => ?_, rfl⟩
  change HubOrder (if url = "A" then _ else _ : Hub).rows
  split_ifs
  · refine ⟨List.pairwise_singleton _ _, by simp, fun a ha b hb _ => ?_⟩
    rw [List.mem_singleton.mp ha, List.mem_singleton.mp hb]
  · exact ⟨List.Pairwise.nil, by simp, by simp⟩

/-- One hub: a drain mirrors the match, the hub retracts it unseen, and the next drain marks it. -/
def missedRetraction : List Label :=
  [.openDrain true, .page (some 10), .row .applied, .finish, .hubWrite "A" 1 (matchRow 5 "retracted"),
    .openDrain true, .page (some 10), .finish]

theorem retracted_matches_exact_missed : ∃ (t : State) (m : Marking),
    Runs.run (step []) twoHubs missedRetraction = some t ∧ t.pass = .marking m ∧ m.stale = [(.int 1, 5)] ∧
      Exact m := by
  have hrun : ((Runs.run (step []) twoHubs missedRetraction).bind fun t => t.pass.marking?.map (·.stale)) =
      some [(.int 1, 5)] := by decide +kernel
  obtain ⟨t, hr, ht⟩ := Option.bind_eq_some_iff.mp hrun
  obtain ⟨m, hm, hstale⟩ := Option.map_eq_some_iff.mp ht
  rw [Pass.marking?_eq_some] at hm
  exact ⟨t, m, hr, hm, hstale, (retracted_matches_exact started_twoHubs hr).1 (by decide +kernel) m hm⟩

/-- The mirror takes the match from A, moves to B, and drains B twice. -/
def movedMirror : List Label :=
  [.live 0, .moveHub "B", .openDrain true, .page (some 10), .finish, .openDrain true, .page (some 10), .finish]

theorem not_retracted_matches_exact : ¬ ∀ (cols : List Column) (s t : State) (labels : List Label) (m : Marking),
    Started s → Runs.run (step cols) s labels = some t → t.pass = .marking m → Exact m := by
  intro h
  have hrun : ((Runs.run (step []) twoHubs movedMirror).bind fun t =>
      t.pass.marking?.map fun m => (m.stale, m.read (.int 1))) = some ([(.int 1, 5)], none) := by decide +kernel
  obtain ⟨t, hr, ht⟩ := Option.bind_eq_some_iff.mp hrun
  obtain ⟨m, hm, hstale⟩ := Option.map_eq_some_iff.mp ht
  rw [Pass.marking?_eq_some] at hm
  obtain ⟨hstale, hread⟩ := Prod.mk.inj hstale
  have hmem := (h [] twoHubs t movedMirror m started_twoHubs hr hm (.int 1, 5)).mp (by simp [hstale])
  rw [hread] at hmem
  cases hmem.2.2

end HubDbSync.Matches
