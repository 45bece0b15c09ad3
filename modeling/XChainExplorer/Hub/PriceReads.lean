import XChainExplorer.Hub.PriceSteps

/-! # What a price drain has read

    The hub keeps publishing and retracting while a drain pages its table. The rows below the recorded
    start of the next re-page are all older than its floor, and behind the last page of a complete
    drain so is every row of the hub that is below the first one it applied. -/

namespace HubDbSync.Prices

/-! ### The table of the hub -/

/-- A row stands under the key its columns make. -/
def Keyed (hub : PriceTable) : Prop := ∀ h ∈ hub, h.key = priceRoundKey h.value

/-- What the table of the hub may have become: a row keeps its key and its time, or it is new. -/
structure HubLater (hub hub' : PriceTable) : Prop where
  nextId : hub.nextId ≤ hub'.nextId
  rows : ∀ h' ∈ hub', (∃ h ∈ hub, h.id = h'.id ∧ h.key = h'.key ∧
    h.value.block_timestamp = h'.value.block_timestamp) ∨ hub.nextId ≤ h'.id
  keyed : Keyed hub → Keyed hub'

theorem HubLater.refl (hub : PriceTable) : HubLater hub hub :=
  ⟨Nat.le_refl _, fun h hh => .inl ⟨h, hh, rfl, rfl, rfl⟩, fun h => h⟩

theorem hubLater_delete (hub : PriceTable) (p : WireRow → Bool) : HubLater hub (hub.delete p) where
  nextId := Nat.le_refl _
  rows h hh := .inl ⟨h, (UniqueTable.mem_delete.mp hh).1, rfl, rfl, rfl⟩
  keyed hk h hh := hk h (UniqueTable.mem_delete.mp hh).1

theorem hubLater_publish {hub : PriceTable} {row : PriceSnapshot}
    (hts : ∀ h ∈ hub.rows, h.key = priceRoundKey row → h.value.block_timestamp = row.block_timestamp) :
    HubLater hub (hub.upsert (priceRoundKey row) row fun _ => row) := by
  refine ⟨UniqueTable.nextId_le_upsert, fun h' hh' => ?_, fun hkeyed h' hh' => ?_⟩
  · rcases UniqueTable.mem_upsert.mp hh' with ⟨hh, -⟩ | ⟨h, hh, hk, rfl⟩ | ⟨-, rfl⟩
    · exact .inl ⟨h', hh, rfl, rfl, rfl⟩
    · exact .inl ⟨h, hh, rfl, rfl, hts h hh hk⟩
    · exact .inr (Nat.le_refl _)
  · rcases UniqueTable.mem_upsert.mp hh' with ⟨hh, -⟩ | ⟨h, hh, hk, rfl⟩ | ⟨-, rfl⟩
    · exact hkeyed h' hh
    · exact hk
    · rfl

/-- A row of a page: what the hub holds under its id has its key and its time. -/
structure Known (hub : PriceTable) (x : WireRow) : Prop where
  keyed : x.key = priceRoundKey x.value
  id_lt : x.id < hub.nextId
  same : ∀ h ∈ hub, h.id = x.id →
    h.key = x.key ∧ h.value.block_timestamp = x.value.block_timestamp

theorem known_of_mem {hub : PriceTable} {x : WireRow} (hk : Keyed hub) (hx : x ∈ hub) :
    Known hub x := by
  refine ⟨hk x hx, hub.ids_lt x hx, fun h hh hid => ?_⟩
  rw [UniqueTable.eq_of_id_eq hh hx hid]
  exact ⟨rfl, rfl⟩

theorem Known.later {hub hub' : PriceTable} {x : WireRow} (h : Known hub x) (hl : HubLater hub hub') :
    Known hub' x := by
  refine ⟨h.keyed, h.id_lt.trans_le hl.nextId, fun h' hh' hid => ?_⟩
  rcases hl.rows h' hh' with ⟨y, hy, hyid, hkey, hts⟩ | hnew
  · rw [← hkey, ← hts]
    exact h.same y hy (hyid.trans hid)
  · have hlt := h.id_lt
    omega

/-- The rows below a recorded start are older than its floor. -/
structure MarkBelow (hub : PriceTable) (mark : RepageFloor) : Prop where
  wireId_lt : mark.wireId < hub.nextId
  below : ∀ h ∈ hub, h.id < mark.wireId → h.value.block_timestamp < mark.floorTs

theorem MarkBelow.later {hub hub' : PriceTable} {mark : RepageFloor} (h : MarkBelow hub mark)
    (hl : HubLater hub hub') : MarkBelow hub' mark := by
  refine ⟨h.wireId_lt.trans_le hl.nextId, fun h' hh' hid => ?_⟩
  rcases hl.rows h' hh' with ⟨y, hy, hyid, -, hts⟩ | hnew
  · rw [← hts]
    exact h.below y hy (hyid ▸ hid)
  · have hlt := h.wireId_lt
    omega

/-! ### A drain over it -/

/-- An id ahead of what the drain read. -/
def PriceDrain.Unread (d : PriceDrain) (id : ℕ) : Prop :=
  d.lastId < id ∧ ∀ x ∈ d.pending, x.id < id

/-- A row of the page in hand. -/
def PriceDrain.InHand (d : PriceDrain) (id : ℕ) : Prop := ∃ x ∈ d.pending, x.id = id

/-- A drain before its first page. -/
structure Opening (position : ℕ) (d : PriceDrain) : Prop where
  pending : d.pending = []
  shortPage : d.shortPage = false
  floorStart : d.floorStart = false
  start : d.fullTable = true → d.lastId = 0
  minApplied : d.minAppliedWireId = none
  pairHeld : d.pricePairHeld = []
  position_le : position ≤ d.lastId

/-- The accounting of a drain whose pages are read. -/
structure Reads (hub : PriceTable) (position : ℕ) (d : PriceDrain) : Prop where
  position_le : position ≤ d.lastId
  lastId_lt : d.complete = true → d.lastId < hub.nextId
  known : ∀ x ∈ d.pending, Known hub x
  minApplied_le : ∀ m ∈ d.minAppliedWireId, m ≤ d.lastId
  above : d.complete = true → 0 < d.priceHorizon → ∀ h ∈ hub, d.InHand h.id ∨ d.Unread h.id ∨
    h.value.block_timestamp < d.priceFloor ∨ ∃ m ∈ d.minAppliedWireId, m ≤ h.id

variable {hub hub' : PriceTable} {position position' : ℕ} {d : PriceDrain}

theorem Opening.lower (h : Opening position d) (hp : position' ≤ position) : Opening position' d :=
  { h with position_le := hp.trans h.position_le }

theorem Reads.later (h : Reads hub position d) (hl : HubLater hub hub') (hp : position' ≤ position) :
    Reads hub' position' d where
  position_le := hp.trans h.position_le
  lastId_lt hc := (h.lastId_lt hc).trans_le hl.nextId
  known x hx := (h.known x hx).later hl
  minApplied_le := h.minApplied_le
  above hc hh h' hh' := by
    rcases hl.rows h' hh' with ⟨y, hy, hyid, -, hts⟩ | hnew
    · rw [← hyid, ← hts]
      exact h.above hc hh y hy
    · refine .inr (.inl ⟨(h.lastId_lt hc).trans_le hnew, fun x hx => ?_⟩)
      exact (h.known x hx).id_lt.trans_le hnew

/-- A row ahead of what the drain read is in its next page, or ahead of a page that came back full. -/
theorem inHand_or_unread_readPage {since : ℕ} {h : WireRow} (hh : h ∈ hub) (hs : since ≤ d.lastId)
    (hl : d.lastId < h.id) : h ∈ (readPage hub d since).pending ∨
      (readPage hub d since).shortPage = d.shortPage ∧ (readPage hub d since).Unread h.id := by
  rcases Page.mem_fetch_or_above hub.ids_ascending hh (hs.trans_lt hl) with hmem | ⟨hfull, habove⟩
  · exact .inl hmem
  · refine .inr ⟨?_, hl, habove⟩
    have hnot : ¬ (Page.fetch UniqueRow.id hub.rows since PAGE_LIMIT).length < PAGE_LIMIT :=
      Nat.not_lt_of_le hfull
    simp [readPage, hnot]

theorem Reads.readPage {since : ℕ} (h : Reads hub position d) (hk : Keyed hub)
    (hnil : d.pending = []) (hs : since ≤ d.lastId) : Reads hub position (readPage hub d since) where
  position_le := h.position_le
  lastId_lt := h.lastId_lt
  known x hx := known_of_mem hk (Page.mem_of_mem_fetch hx).1
  minApplied_le := h.minApplied_le
  above hc hh y hy := by
    rcases h.above hc hh y hy with ⟨x, hx, -⟩ | ⟨hl, -⟩ | hrest
    · rw [hnil] at hx
      cases hx
    · rcases inHand_or_unread_readPage hy hs hl with hmem | ⟨-, hunread⟩
      · exact .inl ⟨y, hmem, rfl⟩
      · exact .inr (.inl hunread)
    · exact .inr (.inr hrest)

/-! ### A row -/

theorem PriceDrain.Unread.handled {x : WireRow} {pending : List WireRow} {id : ℕ} (hp : d.pending = x :: pending)
    (h : d.Unread id) : (d.handled x pending).Unread id := by
  rw [PriceDrain.Unread, hp] at h
  obtain ⟨hl, hpending⟩ := h
  refine ⟨max_lt hl (hpending x List.mem_cons_self), fun y hy => ?_⟩
  exact hpending y (List.mem_cons_of_mem _ hy)

/-- The rows in hand but for the first one stay in hand. -/
theorem inHand_handled {x : WireRow} {pending : List WireRow} {id : ℕ} (hp : d.pending = x :: pending)
    (h : d.InHand id) : x.id = id ∨ (d.handled x pending).InHand id := by
  obtain ⟨y, hy, hid⟩ := h
  rw [hp] at hy
  rcases List.mem_cons.mp hy with rfl | hy
  · exact .inl hid
  · exact .inr ⟨y, hy, hid⟩

/-- The lowest id applied only falls. -/
theorem minApplied_handled (x : WireRow) (pending : List WireRow) {m : ℕ}
    (hm : m ∈ d.minAppliedWireId) : ∃ n ∈ (d.handled x pending).minAppliedWireId, n ≤ m := by
  rw [Option.mem_def] at hm
  rw [PriceDrain.handled]
  simp only [hm]
  split_ifs
  · exact ⟨min x.id m, rfl, min_le_right _ _⟩
  · exact ⟨m, rfl, Nat.le_refl _⟩

theorem minApplied_handled_of_applied {x : WireRow} (pending : List WireRow)
    (hh : 0 < d.priceHorizon) (hb : d.priceRowBoundOut x.value = false) :
    ∃ n ∈ (d.handled x pending).minAppliedWireId, n ≤ x.id := by
  rw [PriceDrain.handled]
  simp only [hh, hb, decide_true, Bool.not_false, Bool.and_self, if_true]
  cases d.minAppliedWireId with
  | none => exact ⟨x.id, rfl, Nat.le_refl _⟩
  | some m => exact ⟨min x.id m, rfl, min_le_left _ _⟩

theorem minApplied_handled_le {x : WireRow} {pending : List WireRow}
    (h : ∀ m ∈ d.minAppliedWireId, m ≤ d.lastId) :
    ∀ m ∈ (d.handled x pending).minAppliedWireId, m ≤ (d.handled x pending).lastId := by
  intro m hm
  rw [PriceDrain.handled] at hm ⊢
  simp only at hm ⊢
  split_ifs at hm with happlied
  · cases hmin : d.minAppliedWireId with
    | none =>
      rw [hmin] at hm
      cases hm
      exact le_max_right _ _
    | some n =>
      rw [hmin] at hm
      cases hm
      exact (min_le_left _ _).trans (le_max_right _ _)
  · exact (h m hm).trans (le_max_left _ _)

theorem boundOut_lt {x : WireRow} (hb : d.priceRowBoundOut x.value = true) :
    x.value.block_timestamp < d.priceFloor := by
  simp only [PriceDrain.priceRowBoundOut, Bool.and_eq_true, decide_eq_true_eq] at hb
  exact hb.2

theorem Reads.handled {x : WireRow} {pending : List WireRow} (h : Reads hub position d)
    (hp : d.pending = x :: pending) :
    Reads hub (if d.lastId < x.id then x.id else position) (d.handled x pending) where
  position_le := by
    have hle := h.position_le
    have hlast : (d.handled x pending).lastId = max d.lastId x.id := rfl
    rw [hlast]
    split_ifs <;> omega
  lastId_lt hc := max_lt (h.lastId_lt hc) (h.known x (hp ▸ List.mem_cons_self)).id_lt
  known y hy := h.known y (hp ▸ List.mem_cons_of_mem _ hy)
  minApplied_le := minApplied_handled_le h.minApplied_le
  above hc hh y hy := by
    rcases h.above hc hh y hy with hin | hunread | hold | ⟨m, hm, hle⟩
    · rcases inHand_handled hp hin with hid | hin
      · -- the row handled: bounded out for its time, or applied
        cases hb : d.priceRowBoundOut x.value with
        | true =>
          have hsame := (h.known x (hp ▸ List.mem_cons_self)).same y hy hid.symm
          rw [hsame.2]
          exact .inr (.inr (.inl (boundOut_lt hb)))
        | false =>
          obtain ⟨n, hn, hle⟩ := minApplied_handled_of_applied pending (d := d) hh hb
          exact .inr (.inr (.inr ⟨n, hn, hid ▸ hle⟩))
      · exact .inl hin
    · exact .inr (.inl (hunread.handled hp))
    · exact .inr (.inr (.inl hold))
    · obtain ⟨n, hn, hnm⟩ := minApplied_handled x pending (d := d) hm
      exact .inr (.inr (.inr ⟨n, hn, hnm.trans hle⟩))

/-! ### The start and the end of a drain -/

theorem repageStart_mem {s : PriceSync} {mark : RepageFloor} (h : s.repageStart d = some mark) :
    mark ∈ s.priceRepageFloor ∧ d.lastId = 0 ∧ mark.floorTs ≤ d.priceFloor := by
  obtain ⟨hm, hp⟩ := Option.filter_eq_some_iff.mp h
  simp only [Bool.and_eq_true, decide_eq_true_eq] at hp
  exact ⟨hm, hp.1.1.1.1, hp.1.2⟩

/-- A drain that is not to start at the recorded start reads from where it was opened. -/
theorem Opening.reads (h : Opening position d) (horizon floor : ℕ) :
    Reads hub position { d with priceHorizon := horizon, priceFloor := floor } where
  position_le := h.position_le
  lastId_lt hc := by
    have hfull : d.fullTable = true := by simpa [PriceDrain.complete, h.floorStart] using hc
    exact (h.start hfull).trans_lt hub.nextId_pos
  known x hx := by simp [h.pending] at hx
  minApplied_le m hm := by simp [h.minApplied] at hm
  above hc _ y hy := by
    have hfull : d.fullTable = true := by simpa [PriceDrain.complete, h.floorStart] using hc
    refine .inr (.inl ⟨(h.start hfull).trans_lt (hub.ids_pos y hy), fun x hx => ?_⟩)
    simp [h.pending] at hx

theorem Opening.start_reads {s : PriceSync} (h : Opening s.drainPosition d)
    (hm : ∀ mark ∈ s.priceRepageFloor, MarkBelow hub mark) (answer : Option ℕ) :
    Reads hub (s.startDrain d answer).1.drainPosition (s.startDrain d answer).2 := by
  rw [PriceSync.startDrain, PriceSync.choosePriceRepageStart]
  split
  case h_1 mark hmark =>
    obtain ⟨hmem, -, hfloor⟩ := repageStart_mem hmark
    have hbelow := hm mark hmem
    refine ⟨Nat.le_refl _, fun _ => ?_, fun x hx => ?_, fun m hm => ?_, fun _ _ y hy => ?_⟩
    · exact (Nat.sub_le _ _).trans_lt hbelow.wireId_lt
    · exact absurd (h.pending ▸ hx) List.not_mem_nil
    · exact absurd (h.minApplied ▸ hm) (Option.not_mem_none _)
    · by_cases hlow : y.id < mark.wireId
      · exact .inr (.inr (.inl ((hbelow.below y hy hlow).trans_le hfloor)))
      · have hpos := hub.ids_pos y hy
        refine .inr (.inl ⟨?_, fun x hx => absurd (h.pending ▸ hx) List.not_mem_nil⟩)
        change mark.wireId - 1 < y.id
        omega
  case h_2 => exact h.reads _ _

/-- What a drain that came to its end records as the next start. -/
theorem Reads.markBelow (h : Reads hub position d) (hnil : d.pending = []) {s : PriceSync}
    (hm : ∀ mark ∈ s.priceRepageFloor, MarkBelow hub mark) :
    ∀ mark ∈ (s.certifyPriceDrain d).priceRepageFloor, MarkBelow hub mark := by
  have hkeep : ((s.certifyTableDrain d).settleRepageOwed d).priceRepageFloor = s.priceRepageFloor := by
    unfold PriceSync.settleRepageOwed
    split_ifs <;> rfl
  intro mark hmark
  rw [PriceSync.certifyPriceDrain, PriceSync.notePriceRepageFloor] at hmark
  split_ifs at hmark with hc hh
  · obtain ⟨wireId, hmin, rfl⟩ := Option.map_eq_some_iff.mp hmark
    have hle := h.minApplied_le wireId hmin
    refine ⟨hle.trans_lt (h.lastId_lt hc), fun y hy hid => ?_⟩
    change y.id < wireId at hid
    rcases h.above hc hh y hy with ⟨x, hx, -⟩ | hunread | hold | ⟨m, hm, hmle⟩
    · rw [hnil] at hx
      cases hx
    · have hahead := hunread.1
      omega
    · exact hold
    · obtain rfl := Option.mem_unique hmin hm
      omega
  · cases hmark
  · exact hm mark (hkeep ▸ hmark)

/-! ### In every state reached -/

/-- What the drain in flight has read, by where it stands. -/
def PassReads (hub : PriceTable) (position : ℕ) (d : PriceDrain) : Phase → Prop
  | .opening | .resolving => Opening position d
  | .paging => Reads hub position d
  | .drained => True
  | _ => Reads hub position d ∧ d.pending = [] ∧ d.shortPage = true

structure ReadsInv (s : State) : Prop where
  keyed : Keyed s.hub
  mark : ∀ mark ∈ s.sync.priceRepageFloor, MarkBelow s.hub mark
  pass : ∀ d phase, s.pass = some ⟨d, phase⟩ → PassReads s.hub s.sync.drainPosition d phase

theorem PassReads.later {phase : Phase} (h : PassReads hub position d phase) (hl : HubLater hub hub')
    (hp : position' ≤ position) : PassReads hub' position' d phase := by
  cases phase with
  | opening | resolving => exact Opening.lower h hp
  | paging => exact Reads.later h hl hp
  | drained => trivial
  | _ => exact ⟨Reads.later h.1 hl hp, h.2⟩

/-- What a step that is not of the drain leaves of what the drains rest on. -/
structure Aside (s t : State) : Prop where
  hub : HubLater s.hub t.hub
  position : t.sync.drainPosition ≤ s.sync.drainPosition
  mark : ∀ mark ∈ t.sync.priceRepageFloor, mark ∈ s.sync.priceRepageFloor
  pass : t.pass = s.pass

theorem ReadsInv.aside {s t : State} (h : ReadsInv s) (ha : Aside s t) : ReadsInv t where
  keyed := ha.hub.keyed h.keyed
  mark mark hm := (h.mark mark (ha.mark mark hm)).later ha.hub
  pass d phase hp := (h.pass d phase (ha.pass ▸ hp)).later ha.hub ha.position

section steps
variable {s t : State} {l : Label}

/-- A step that leaves the hub, the position and the recorded start. -/
theorem aside_of_same (hhub : t.hub = s.hub) (hpos : t.sync.drainPosition = s.sync.drainPosition)
    (hmark : t.sync.priceRepageFloor = s.sync.priceRepageFloor) (hpass : t.pass = s.pass) :
    Aside s t where
  hub := hhub ▸ HubLater.refl _
  position := hpos.le
  mark _ hm := hmark ▸ hm
  pass := hpass

theorem aside_handleRowEvent (s : State) (event : LiveEvent) : Aside s (s.handleRowEvent event) := by
  unfold State.handleRowEvent PriceSync.bufferPriceEvent
  split_ifs <;> exact aside_of_same rfl rfl rfl rfl

theorem aside_writeEvent (s : State) (inflight : List LiveEvent) (event : LiveEvent) :
    Aside s (State.writeEvent { s with inflight } event) := by
  cases event <;> exact aside_of_same rfl rfl rfl rfl

theorem aside_adoptReadyFrame (s : State) (instanceId maxId : Option ℕ) :
    Aside s { s with sync := s.sync.adoptReadyFrame instanceId maxId } where
  hub := HubLater.refl _
  position := by
    simp only [PriceSync.adoptReadyFrame, PriceSync.markRepageOwed]
    split_ifs
    · exact Nat.zero_le _
    · exact Nat.le_refl _
  mark mark hm := by
    simp only [PriceSync.adoptReadyFrame, PriceSync.markRepageOwed] at hm
    split_ifs at hm
    · cases hm
    · exact hm
  pass := rfl

theorem aside_mirrorStep (hs : s.mirrorStep l = some t) : Aside s t := by
  cases l with
  | publish row =>
    simp only [State.mirrorStep] at hs
    split_ifs at hs with hpub
    cases hs
    exact ⟨hubLater_publish hpub.2, Nat.le_refl _, fun _ hm => hm, rfl⟩
  | retract chain range =>
    cases hs
    exact ⟨hubLater_delete _ _, Nat.le_refl _, fun _ hm => hm, rfl⟩
  | ready instanceId maxId =>
    cases hs
    exact aside_adoptReadyFrame s instanceId maxId
  | resync =>
    cases hs
    exact ⟨HubLater.refl _, Nat.zero_le _, fun _ hm => absurd hm (Option.not_mem_none _), rfl⟩
  | move =>
    cases hs
    exact ⟨HubLater.refl _, Nat.zero_le _, fun _ hm => hm, rfl⟩
  | refuseSchema =>
    cases hs
    exact ⟨HubLater.refl _, Nat.le_refl _, fun _ hm => absurd hm (Option.not_mem_none _), rfl⟩
  | live version =>
    obtain ⟨row, -, rfl⟩ := Option.map_eq_some_iff.mp hs
    exact aside_handleRowEvent s _
  | liveRetraction retraction =>
    obtain ⟨e, -, rfl⟩ := Option.map_eq_some_iff.mp hs
    exact aside_handleRowEvent s _
  | land i ok =>
    obtain ⟨event, -, rfl⟩ := Option.map_eq_some_iff.mp hs
    cases ok with
    | true => exact aside_writeEvent s _ event
    | false => exact aside_of_same rfl rfl rfl rfl
  | gate blockTime =>
    cases hs
    unfold PriceSync.notePriceMirrorFloor
    split_ifs <;> exact aside_of_same rfl rfl rfl rfl
  | close | failApply | refresh =>
    cases hs
    exact aside_of_same rfl rfl rfl rfl
  | _ => cases hs

theorem opening_newDrain (s : PriceSync) : Opening s.newDrain.lastId s.newDrain where
  pending := rfl
  shortPage := rfl
  floorStart := rfl
  start h := by simpa [PriceSync.newDrain] using h
  minApplied := rfl
  pairHeld := rfl
  position_le := Nat.le_refl _

theorem ReadsInv.ended (h : ReadsInv s) (hhub : t.hub = s.hub)
    (hmark : t.sync.priceRepageFloor = s.sync.priceRepageFloor) : ReadsInv t.ended := by
  refine ⟨hhub ▸ h.keyed, fun mark hm => ?_, fun _ _ hp => by cases hp⟩
  rw [State.ended, hhub]
  exact h.mark mark (hmark ▸ hm)

theorem ReadsInv.withDrain (h : ReadsInv s) {d : PriceDrain} {phase : Phase} (hhub : t.hub = s.hub)
    (hmark : t.sync.priceRepageFloor = s.sync.priceRepageFloor)
    (hreads : PassReads s.hub t.sync.drainPosition d phase) : ReadsInv (t.withDrain d phase) := by
  refine ⟨hhub ▸ h.keyed, fun mark hm => ?_, fun d' phase' hp => ?_⟩
  · rw [State.withDrain, hhub]
    exact h.mark mark (hmark ▸ hm)
  · cases hp
    rw [State.withDrain, hhub]
    exact hreads

/-- The bound of a drain resolved, and the position where it starts. -/
theorem ReadsInv.startDrain (h : ReadsInv s) (d : PriceDrain) (answer : Option ℕ) :
    ∀ mark ∈ (s.sync.startDrain d answer).1.priceRepageFloor, MarkBelow s.hub mark := by
  intro mark hm
  rw [PriceSync.startDrain, PriceSync.choosePriceRepageStart] at hm
  split at hm <;> exact h.mark mark hm

theorem ReadsInv.drainTrans (h : ReadsInv s) {d : PriceDrain} {phase : Phase}
    (hp : s.pass = some ⟨d, phase⟩) (ht : DrainTrans s d phase l t) : ReadsInv t := by
  have hreads := h.pass d phase hp
  cases ht with
  | ended => exact h.ended rfl rfl
  | askHorizon =>
    have hopening : Opening s.sync.drainPosition d := hreads
    have hresolving : PassReads s.hub s.sync.drainPosition
      { d with boundDisabled := s.sync.priceMirrorBoundDisabled } .resolving := { hopening with }
    exact h.withDrain rfl rfl hresolving
  | start answer =>
    refine ⟨h.keyed, h.startDrain d answer, fun d' phase' hp => ?_⟩
    cases hp
    exact Opening.start_reads hreads h.mark answer
  | startLost answer => exact ⟨h.keyed, h.startDrain d answer, fun _ _ hp => by cases hp⟩
  | page hnil hlong => exact h.withDrain rfl rfl (Reads.readPage hreads h.keyed hnil (Nat.le_refl _))
  | catchUp hnil hshort =>
    have hread := Reads.readPage hreads h.keyed hnil hreads.position_le
    have hpaging : PassReads s.hub s.sync.drainPosition
      { readPage s.hub d s.sync.drainPosition with caughtUp := true } .paging := { hread with }
    exact h.withDrain rfl rfl hpaging
  | boundRow hpending hb => exact h.withDrain rfl rfl (Reads.handled hreads hpending)
  | applyRow hpending hb => exact h.withDrain rfl rfl (Reads.handled hreads hpending)
  | pagesDone hnil hshort => exact h.withDrain rfl rfl ⟨hreads, hnil, hshort⟩
  | refused => exact ⟨h.keyed, fun _ hm => absurd hm (Option.not_mem_none _), fun _ _ hp => by cases hp⟩
  | predecessor | judged | select | remove | stopRemoving | replay | take | flushed =>
    exact h.withDrain rfl rfl hreads
  | @write epoch event => cases event <;> exact h.withDrain rfl rfl hreads
  | judgedLost | writeFailed | overflowed | passEnd => exact h.ended rfl rfl
  | certify hon =>
    have hmark := Reads.markBelow hreads.1 hreads.2.1 h.mark
    exact ⟨h.keyed, hmark, fun d' phase' hp => by cases hp; trivial⟩

theorem ReadsInv.step (h : ReadsInv s) (hs : step s l = some t) : ReadsInv t := by
  rcases step_cases hs with hs | ⟨-, -, rfl⟩ | ⟨d, phase, hp, ht⟩
  · exact h.aside (aside_mirrorStep hs)
  · refine ⟨h.keyed, h.mark, fun d phase hp => ?_⟩
    cases hp
    exact opening_newDrain s.sync
  · exact h.drainTrans hp ht

end steps

/-! ### The start -/

/-- A hub with any rows and a client that has just started over any mirror. -/
structure Started (s : State) : Prop where
  keyed : Keyed s.hub
  sync : s.sync = {}
  pass : s.pass = none
  boundOut : s.boundOut = []

theorem Started.readsInv {s : State} (h : Started s) : ReadsInv s where
  keyed := h.keyed
  mark mark hm := by simp [h.sync] at hm
  pass d phase hp := by simp [h.pass] at hp

theorem fresh_started : Started .fresh :=
  ⟨fun _ hh => absurd hh List.not_mem_nil, rfl, rfl, rfl⟩

end HubDbSync.Prices
