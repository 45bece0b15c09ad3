import XChainExplorer.Hub.PriceReads

/-! # The floor of a bounded price mirror

    The floor is written at the judgement of each drain, from what that drain skipped. A complete drain
    reads every bounded row of the hub again, and its floor is above each it skips again. A drain that
    resumes at its position reads none of them, and writes the floor all the same. -/

namespace HubDbSync.Prices

/-- Each row bounded out is below the floor, or the re-floor is pending. -/
def State.Policed (s : State) : Prop := ∀ r ∈ s.boundOut,
  r.value.block_timestamp < s.sync.priceMirrorFloorTs ∨ s.sync.priceMirrorRefloor = true

instance (s : State) : Decidable s.Policed :=
  inferInstanceAs (Decidable (∀ r ∈ s.boundOut, _ ∨ _))

/-- A row is bounded out of a table that is not certified, or below the floor. A drain whose judgement
    refuses the bound leaves nothing bounded behind, or no certificate. One that is accepted read every
    row bounded out again, but for those below its own floor, and it is bounded where there are any. -/
def KeepsFloor (s : State) : Label → Prop
  | .row _ => ∀ p ∈ s.pass, ∀ x ∈ p.drain.pending.head?, p.drain.priceRowBoundOut x.value = true →
    x.value.status = .finalized → s.sync.tableCertifiedOnCurrentConnection = true →
      x.value.block_timestamp < s.sync.priceMirrorFloorTs ∨ s.sync.priceMirrorRefloor = true
  | .judge => ∀ p ∈ s.pass,
    if p.drain.acceptPriceMirrorBound then
      ∀ r ∈ s.boundOut, (p.drain.complete = true ∧ ∃ h ∈ s.hub.rows, h.id = r.id) ∨
        p.drain.bounded = true ∧
          (r.value.block_timestamp < p.drain.priceFloor ∨ s.sync.priceMirrorRefloor = true)
    else s.sync.tableCertifiedOnCurrentConnection = true →
      s.boundOut = [] ∨ s.sync.priceMirrorRefloor = true
  | _ => True

instance (s : State) : ∀ l, Decidable (KeepsFloor s l)
  | .row _ => inferInstanceAs (Decidable (∀ p ∈ s.pass, ∀ x ∈ p.drain.pending.head?, _ → _ → _ → _ ∨ _))
  | .judge => inferInstanceAs (Decidable (∀ p ∈ s.pass, if p.drain.acceptPriceMirrorBound then
      ∀ r ∈ s.boundOut, (p.drain.complete = true ∧ ∃ h ∈ s.hub.rows, h.id = r.id) ∨
        p.drain.bounded = true ∧
          (r.value.block_timestamp < p.drain.priceFloor ∨ s.sync.priceMirrorRefloor = true)
    else s.sync.tableCertifiedOnCurrentConnection = true →
      s.boundOut = [] ∨ s.sync.priceMirrorRefloor = true))
  | .publish _ | .retract .. | .ready .. | .close _ | .resync | .move | .refuseSchema | .failApply
  | .live _ | .liveRetraction _ | .land .. | .gate _ | .refresh | .openDrain | .askHorizon
  | .horizon _ | .page | .catchUp | .pagesDone | .predecessor _ | .select _ | .remove _
  | .replay | .flush _ | .certify | .passEnd _ | .abort => isTrue trivial

/-! ### What a complete drain finds of the rows bounded out -/

/-- Each row bounded out that the hub still holds is in hand, unread, or older than the floor of the
    drain. -/
def BoundReads (hub : PriceTable) (boundOut : List WireRow) (d : PriceDrain) : Prop :=
  d.complete = true → ∀ r ∈ boundOut, (∃ h ∈ hub, h.id = r.id) → d.InHand r.id ∨
    (d.shortPage = false ∧ d.Unread r.id) ∨
      r.value.block_timestamp < d.priceFloor ∧ d.bounded = true

section reads
variable {hub hub' : PriceTable} {boundOut boundOut' : List WireRow} {position : ℕ} {d : PriceDrain}

theorem BoundReads.later (h : BoundReads hub boundOut d) (hl : HubLater hub hub')
    (hknown : ∀ r ∈ boundOut, Known hub r) (hsub : ∀ r ∈ boundOut', r ∈ boundOut) :
    BoundReads hub' boundOut' d := by
  intro hc r hr ⟨y, hy, hid⟩
  refine h hc r (hsub r hr) ?_
  rcases hl.rows y hy with ⟨z, hz, hzid, -⟩ | hnew
  · exact ⟨z, hz, hzid.trans hid⟩
  · have hlt := (hknown r (hsub r hr)).id_lt
    omega

theorem BoundReads.readPage {since : ℕ} (h : BoundReads hub boundOut d) (hnil : d.pending = [])
    (hs : since ≤ d.lastId) : BoundReads hub boundOut (readPage hub d since) := by
  intro hc r hr hheld
  obtain ⟨y, hy, hid⟩ := hheld
  rcases h hc r hr ⟨y, hy, hid⟩ with ⟨x, hx, -⟩ | ⟨hlong, hl, -⟩ | hold
  · rw [hnil] at hx
    cases hx
  · rw [← hid] at hl ⊢
    rcases inHand_or_unread_readPage hy hs hl with hmem | ⟨hshort, hunread⟩
    · exact .inl ⟨y, hmem, rfl⟩
    · exact .inr (.inl ⟨hshort.trans hlong, hunread⟩)
  · exact .inr (.inr hold)

theorem bounded_handled (x : WireRow) (pending : List WireRow)
    (h : d.priceRowBoundOut x.value = true ∨ d.bounded = true) :
    (d.handled x pending).bounded = true := by
  have hskipped : (d.handled x pending).priceSkipped =
    if d.priceRowBoundOut x.value then d.priceSkipped + 1 else d.priceSkipped := rfl
  have hstart : (d.handled x pending).floorStart = d.floorStart := rfl
  rw [PriceDrain.bounded, hskipped, hstart]
  rcases h with hb | hb
  · simp [hb]
  · simp only [PriceDrain.bounded, Bool.or_eq_true, decide_eq_true_eq] at hb ⊢
    split_ifs <;> omega

/-- The row handled is bounded out, or no longer among the rows that are. -/
theorem BoundReads.handled {x : WireRow} {pending : List WireRow} (h : BoundReads hub boundOut d)
    (hreads : Reads hub position d) (hknown : ∀ r ∈ boundOut, Known hub r)
    (hp : d.pending = x :: pending)
    (hsub : ∀ r ∈ boundOut', (d.priceRowBoundOut x.value = true ∧ (r = x ∨ r ∈ boundOut)) ∨
      r ∈ boundOut ∧ r.key ≠ x.key) :
    BoundReads hub boundOut' (d.handled x pending) := by
  intro hc r hr hheld
  have hx := hreads.known x (hp ▸ List.mem_cons_self)
  have hmem : r = x ∧ d.priceRowBoundOut x.value = true ∨ r ∈ boundOut := by
    rcases hsub r hr with ⟨hb, hrx | hr⟩ | ⟨hr, -⟩
    · exact .inl ⟨hrx, hb⟩
    · exact .inr hr
    · exact .inr hr
  rcases hmem with ⟨rfl, hb⟩ | hold
  · exact .inr (.inr ⟨boundOut_lt hb, bounded_handled r pending (.inl hb)⟩)
  · rcases h hc r hold hheld with hin | ⟨hlong, hunread⟩ | ⟨hts, hbounded⟩
    · rcases inHand_handled hp hin with hid | hin
      · -- the hub holds the row under the id of the row handled
        obtain ⟨y, hy, hyid⟩ := hheld
        have hsame := hx.same y hy (hyid.trans hid.symm)
        have hsame' := (hknown r hold).same y hy hyid
        rcases hsub r hr with ⟨hb, -⟩ | ⟨-, hkey⟩
        · refine .inr (.inr ⟨?_, bounded_handled x pending (.inl hb)⟩)
          rw [← hsame'.2, hsame.2]
          exact boundOut_lt hb
        · exact absurd (hsame'.1.symm.trans hsame.1) hkey
      · exact .inl hin
    · exact .inr (.inl ⟨hlong, hunread.handled hp⟩)
    · exact .inr (.inr ⟨hts, bounded_handled x pending (.inr hbounded)⟩)

theorem Opening.boundReads {s : PriceSync} (h : Opening s.drainPosition d)
    (hm : ∀ mark ∈ s.priceRepageFloor, MarkBelow hub mark) (hknown : ∀ r ∈ boundOut, Known hub r)
    (answer : Option ℕ) : BoundReads hub boundOut (s.startDrain d answer).2 := by
  intro hc r hr ⟨y, hy, hid⟩
  have hpos := hub.ids_pos y hy
  rw [PriceSync.startDrain, PriceSync.choosePriceRepageStart] at hc ⊢
  generalize hstart : s.repageStart _ = start at hc ⊢
  cases start with
  | some mark =>
    obtain ⟨hmem, -, hfloor⟩ := repageStart_mem hstart
    by_cases hlow : y.id < mark.wireId
    · have hts := (hm mark hmem).below y hy hlow
      rw [((hknown r hr).same y hy hid).2] at hts
      exact .inr (.inr ⟨hts.trans_le hfloor, Bool.or_true _⟩)
    · refine .inr (.inl ⟨h.shortPage, ?_, fun x hx => absurd (h.pending ▸ hx) List.not_mem_nil⟩)
      change mark.wireId - 1 < r.id
      omega
  | none =>
    have hfull : d.fullTable = true := by
      simpa [PriceSync.newPriceBoundState, PriceDrain.complete, h.floorStart] using hc
    refine .inr (.inl ⟨h.shortPage, ?_, fun x hx => absurd (h.pending ▸ hx) List.not_mem_nil⟩)
    exact (h.start hfull).trans_lt (hid ▸ hpos)

end reads

/-! ### What the guards rest on -/

/-- The fields the two guards are read from. -/
def PriceSync.guards (s : PriceSync) : ℕ × Bool × Option (ℕ × ℕ) × ℕ × ℕ × Bool × Bool × Bool :=
  (s.priceMirrorFloorTs, s.priceMirrorRefloor, s.tableDrain, s.wsEpoch, s.selectorRevision,
    s.bootstrapDrained, s.schemaMismatchSeen, s.applyFailureSeen)

/-- The table was not certified on a connection still to come. -/
def PriceSync.CertifiedBefore (s : PriceSync) : Prop :=
  ∀ p ∈ s.tableDrain, p.1 ≤ s.wsEpoch ∧ p.2 ≤ s.selectorRevision

/-- A step that neither lowers the floor nor certifies the table. -/
structure Unlowered (s t : PriceSync) : Prop where
  floor : t.priceMirrorFloorTs = s.priceMirrorFloorTs ∧ t.priceMirrorRefloor = s.priceMirrorRefloor ∨
    t.priceMirrorRefloor = true
  certified : t.tableCertifiedOnCurrentConnection = true →
    s.tableCertifiedOnCurrentConnection = true
  before : t.CertifiedBefore

theorem unlowered_of_guards {s t : PriceSync} (hb : s.CertifiedBefore) (h : t.guards = s.guards) :
    Unlowered s t := by
  simp only [PriceSync.guards, Prod.mk.injEq] at h
  obtain ⟨hfloor, hrefloor, hdrain, hepoch, hrev, hboot, hschema, happly⟩ := h
  refine ⟨.inl ⟨hfloor, hrefloor⟩, fun hc => ?_, ?_⟩
  · simpa only [PriceSync.tableCertifiedOnCurrentConnection, hdrain, hepoch, hrev, hboot, hschema,
      happly] using hc
  · simpa only [PriceSync.CertifiedBefore, hdrain, hepoch, hrev] using hb

/-- A certificate does not outlive its connection. -/
theorem tableDrain_ne_of_lt {s : PriceSync} (hb : s.CertifiedBefore) (epoch revision : ℕ)
    (h : s.wsEpoch < epoch ∨ s.selectorRevision < revision) :
    s.tableDrain ≠ some (epoch, revision) := by
  intro heq
  have hle := hb _ heq
  omega

theorem CertifiedBefore.mono {s t : PriceSync} (hb : s.CertifiedBefore) (hdrain : t.tableDrain = s.tableDrain)
    (hepoch : s.wsEpoch ≤ t.wsEpoch) (hrev : s.selectorRevision ≤ t.selectorRevision) :
    t.CertifiedBefore := by
  intro p hp
  have hle := hb p (hdrain ▸ hp)
  omega

theorem unlowered_closeSocket {s : PriceSync} (hb : s.CertifiedBefore) (resync : Bool) :
    Unlowered s (s.closeSocket resync) := by
  refine ⟨.inl ⟨rfl, rfl⟩, fun hc => ?_, CertifiedBefore.mono hb rfl (Nat.le_succ _) (Nat.le_refl _)⟩
  have hne := tableDrain_ne_of_lt hb _ s.selectorRevision (.inl (Nat.lt_succ_self s.wsEpoch))
  simp [PriceSync.tableCertifiedOnCurrentConnection, PriceSync.closeSocket,
    PriceSync.resetOnSocketClose, hne] at hc

theorem unlowered_adoptReadyFrame {s : PriceSync} (hb : s.CertifiedBefore)
    (instanceId maxId : Option ℕ) : Unlowered s (s.adoptReadyFrame instanceId maxId) := by
  cases hmoved : s.lastHubInstanceId.isSome && instanceId != s.lastHubInstanceId with
  | false =>
    refine unlowered_of_guards hb ?_
    simp [PriceSync.adoptReadyFrame, PriceSync.markRepageOwed, PriceSync.guards, hmoved]
  | true =>
    have hne := tableDrain_ne_of_lt hb s.wsEpoch _ (.inr (Nat.lt_succ_self s.selectorRevision))
    refine ⟨.inl ⟨rfl, rfl⟩, fun hc => ?_, CertifiedBefore.mono hb rfl (Nat.le_refl _) ?_⟩
    · simp [PriceSync.tableCertifiedOnCurrentConnection, PriceSync.adoptReadyFrame,
        PriceSync.markRepageOwed, hmoved, hne] at hc
    · simp [PriceSync.adoptReadyFrame, PriceSync.markRepageOwed, hmoved]

/-- A latch that is set leaves the table uncertified. -/
theorem unlowered_of_latched {s t : PriceSync} (hb : t.CertifiedBefore)
    (hfloor : t.priceMirrorFloorTs = s.priceMirrorFloorTs)
    (hrefloor : t.priceMirrorRefloor = s.priceMirrorRefloor)
    (hl : t.schemaMismatchSeen = true ∨ t.applyFailureSeen = true) : Unlowered s t := by
  refine ⟨.inl ⟨hfloor, hrefloor⟩, fun hc => ?_, hb⟩
  rcases hl with hl | hl <;> simp [PriceSync.tableCertifiedOnCurrentConnection, hl] at hc

theorem unlowered_resetForMove {s : PriceSync} (hb : s.CertifiedBefore) :
    Unlowered s s.resetForMove := by
  refine ⟨.inl ⟨rfl, rfl⟩, fun hc => ?_, hb⟩
  rw [PriceSync.tableCertifiedOnCurrentConnection, Bool.and_eq_true, Bool.or_eq_true] at hc ⊢
  exact ⟨hc.1, .inl (hc.2.resolve_right Bool.false_ne_true)⟩

theorem unlowered_notePriceMirrorFloor {s : PriceSync} (hb : s.CertifiedBefore) (blockTime : ℕ) :
    Unlowered s (s.notePriceMirrorFloor blockTime) := by
  unfold PriceSync.notePriceMirrorFloor
  split_ifs
  · exact ⟨.inr rfl, fun hc => hc, hb⟩
  · exact unlowered_of_guards hb rfl

theorem guards_bufferPriceEvent (s : PriceSync) (event : LiveEvent) :
    (s.bufferPriceEvent event).guards = s.guards := by
  unfold PriceSync.bufferPriceEvent
  split_ifs <;> rfl

theorem guards_handleRowEvent (s : State) (event : LiveEvent) :
    (s.handleRowEvent event).sync.guards = s.sync.guards := by
  unfold State.handleRowEvent
  split_ifs
  · rfl
  · exact guards_bufferPriceEvent s.sync event

theorem guards_startDrain (s : PriceSync) (d : PriceDrain) (answer : Option ℕ) :
    (s.startDrain d answer).1.guards = s.guards := by
  rw [PriceSync.startDrain, PriceSync.choosePriceRepageStart]
  split <;> rfl

theorem unlowered_mirrorStep {s t : State} {l : Label} (hb : s.sync.CertifiedBefore)
    (hs : s.mirrorStep l = some t) : Unlowered s.sync t.sync := by
  cases l with
  | publish row =>
    simp only [State.mirrorStep] at hs
    split_ifs at hs
    cases hs
    exact unlowered_of_guards hb rfl
  | ready instanceId maxId =>
    cases hs
    exact unlowered_adoptReadyFrame hb instanceId maxId
  | close resync =>
    cases hs
    exact unlowered_closeSocket hb resync
  | move =>
    cases hs
    exact unlowered_resetForMove hb
  | refuseSchema =>
    cases hs
    exact unlowered_of_latched hb rfl rfl (.inl rfl)
  | failApply =>
    cases hs
    exact unlowered_of_latched hb rfl rfl (.inr rfl)
  | live version =>
    obtain ⟨row, -, rfl⟩ := Option.map_eq_some_iff.mp hs
    exact unlowered_of_guards hb (guards_handleRowEvent s _)
  | liveRetraction retraction =>
    obtain ⟨e, -, rfl⟩ := Option.map_eq_some_iff.mp hs
    exact unlowered_of_guards hb (guards_handleRowEvent s _)
  | land i ok =>
    obtain ⟨event, -, rfl⟩ := Option.map_eq_some_iff.mp hs
    cases ok with
    | true => cases event <;> exact unlowered_of_guards hb rfl
    | false => exact unlowered_of_latched hb rfl rfl (.inr rfl)
  | gate blockTime =>
    cases hs
    exact unlowered_notePriceMirrorFloor hb blockTime
  | retract | resync | refresh =>
    cases hs
    exact unlowered_of_guards hb rfl
  | _ => cases hs

/-! ### The rows bounded out -/

/-- No step outside a drain bounds a row out. -/
theorem boundOut_writeEvent {s : State} (event : LiveEvent) :
    ∀ r ∈ (s.writeEvent event).boundOut, r ∈ s.boundOut := by
  intro r hr
  cases event with
  | inserted row => exact List.mem_of_mem_filter hr
  | deleted chain range => exact hr

theorem boundOut_mirrorStep {s t : State} {l : Label} (hs : s.mirrorStep l = some t) :
    ∀ r ∈ t.boundOut, r ∈ s.boundOut := by
  intro r hr
  cases l with
  | publish row =>
    simp only [State.mirrorStep] at hs
    split_ifs at hs
    cases hs
    exact hr
  | live version =>
    obtain ⟨row, -, rfl⟩ := Option.map_eq_some_iff.mp hs
    unfold State.handleRowEvent at hr
    split_ifs at hr <;> exact hr
  | liveRetraction retraction =>
    obtain ⟨e, -, rfl⟩ := Option.map_eq_some_iff.mp hs
    unfold State.handleRowEvent at hr
    split_ifs at hr <;> exact hr
  | land i ok =>
    obtain ⟨event, -, rfl⟩ := Option.map_eq_some_iff.mp hs
    cases ok with
    | true => exact boundOut_writeEvent (s := { s with inflight := s.inflight.eraseIdx i }) event r hr
    | false => exact hr
  | retract | ready | close | resync | move | refuseSchema | failApply | gate | refresh =>
    cases hs
    exact hr
  | _ => cases hs

/-! ### In every state reached -/

/-- What the drain in flight knows of the rows bounded out, by where it stands. -/
def PassBounds (s : State) (d : PriceDrain) : Phase → Prop
  | .opening | .resolving => True
  | .paging | .predecessors _ => BoundReads s.hub s.boundOut d
  | _ => s.Policed

structure FloorInv (s : State) : Prop where
  reads : ReadsInv s
  known : ∀ r ∈ s.boundOut, Known s.hub r
  before : s.sync.CertifiedBefore
  policed : s.sync.tableCertifiedOnCurrentConnection = true → s.Policed
  pass : ∀ d phase, s.pass = some ⟨d, phase⟩ → PassBounds s d phase

section steps
variable {s t : State} {l : Label} {d : PriceDrain} {phase : Phase}

theorem State.Policed.unlowered (h : s.Policed) (hu : Unlowered s.sync t.sync)
    (hsub : ∀ r ∈ t.boundOut, r ∈ s.boundOut) : t.Policed := by
  intro r hr
  rcases hu.floor with ⟨hfloor, hrefloor⟩ | hrefloor
  · rw [hfloor, hrefloor]
    exact h r (hsub r hr)
  · exact .inr hrefloor

theorem PassBounds.unlowered (h : PassBounds s d phase) (hhub : HubLater s.hub t.hub)
    (hknown : ∀ r ∈ s.boundOut, Known s.hub r) (hu : Unlowered s.sync t.sync)
    (hsub : ∀ r ∈ t.boundOut, r ∈ s.boundOut) : PassBounds t d phase := by
  cases phase with
  | opening | resolving => trivial
  | paging | predecessors => exact BoundReads.later h hhub hknown hsub
  | _ => exact State.Policed.unlowered h hu hsub

/-- A step that bounds no row out, and neither lowers the floor nor certifies. -/
theorem FloorInv.quiet (h : FloorInv s) (hreads : ReadsInv t) (hhub : HubLater s.hub t.hub)
    (hu : Unlowered s.sync t.sync) (hsub : ∀ r ∈ t.boundOut, r ∈ s.boundOut)
    (hpass : ∀ d phase, t.pass = some ⟨d, phase⟩ → PassBounds t d phase) : FloorInv t where
  reads := hreads
  known r hr := (h.known r (hsub r hr)).later hhub
  before := hu.before
  policed hc := (h.policed (hu.certified hc)).unlowered hu hsub
  pass := hpass

theorem FloorInv.mirrorStep (h : FloorInv s) (hs : s.mirrorStep l = some t) : FloorInv t := by
  have haside := aside_mirrorStep hs
  have hu := unlowered_mirrorStep h.before hs
  have hsub := boundOut_mirrorStep hs
  refine h.quiet (h.reads.aside haside) haside.hub hu hsub fun d phase hp => ?_
  exact (h.pass d phase (haside.pass ▸ hp)).unlowered haside.hub h.known hu hsub

/-- The state the drain goes on from, or ends in. -/
theorem FloorInv.kept (h : FloorInv s) (hreads : ReadsInv t) (hhub : t.hub = s.hub)
    (hguards : t.sync.guards = s.sync.guards) (hsub : ∀ r ∈ t.boundOut, r ∈ s.boundOut)
    (hpass : ∀ d phase, t.pass = some ⟨d, phase⟩ → PassBounds t d phase) : FloorInv t :=
  h.quiet hreads (hhub ▸ HubLater.refl _) (unlowered_of_guards h.before hguards) hsub hpass

theorem FloorInv.boundRow (h : FloorInv s) (hp : s.pass = some ⟨d, .paging⟩)
    (hc : ∀ ok, KeepsFloor s (.row ok)) {x : WireRow} {pending : List WireRow}
    (hpending : d.pending = x :: pending) (hb : d.priceRowBoundOut x.value = true) (hreads : ReadsInv
      ((State.boundRow { s with sync := s.sync.passRow d x } x).withDrain (d.handled x pending) .paging)) :
    FloorInv
      ((State.boundRow { s with sync := s.sync.passRow d x } x).withDrain (d.handled x pending) .paging) := by
  have hread : Reads s.hub s.sync.drainPosition d := h.reads.pass d .paging hp
  have hsub : ∀ r ∈ (s.boundRow x).boundOut, r = x ∧ x.value.status = .finalized ∨ r ∈ s.boundOut := by
    intro r hr
    unfold State.boundRow at hr
    split_ifs at hr with hfinal
    · rcases List.mem_cons.mp hr with rfl | hr
      · exact .inl ⟨rfl, hfinal⟩
      · exact .inr (List.mem_of_mem_filter hr)
    · exact .inr hr
  refine ⟨hreads, fun r hr => ?_, h.before, fun hcert r hr => ?_, fun d' phase' hp' => ?_⟩
  · rcases hsub r hr with ⟨rfl, -⟩ | hr
    · exact hread.known r (hpending ▸ List.mem_cons_self)
    · exact h.known r hr
  · rcases hsub r hr with ⟨rfl, hfinal⟩ | hr
    · refine hc true _ hp r ?_ hb hfinal hcert
      rw [hpending]
      exact rfl
    · exact h.policed hcert r hr
  · cases hp'
    refine BoundReads.handled (h.pass d .paging hp) hread h.known hpending fun r hr => .inl ⟨hb, ?_⟩
    exact (hsub r hr).imp_left And.left

theorem FloorInv.judged (h : FloorInv s) (hp : s.pass = some ⟨d, .predecessors []⟩)
    (hc : KeepsFloor s .judge) (ha : d.acceptPriceMirrorBound = true) :
    State.Policed { s with sync := s.sync.notePriceFloorAfterDrain d } := by
  have hjudge := hc _ hp
  rw [if_pos ha] at hjudge
  have hreads : Reads s.hub s.sync.drainPosition d ∧ d.pending = [] ∧ d.shortPage = true :=
    h.reads.pass d _ hp
  have hbounds : BoundReads s.hub s.boundOut d := h.pass d _ hp
  intro r hr
  have hcover : d.bounded = true ∧
      (r.value.block_timestamp < d.priceFloor ∨ s.sync.priceMirrorRefloor = true) := by
    rcases hjudge r hr with ⟨hcomplete, hheld⟩ | hcover
    · -- a complete drain read the row again
      rcases hbounds hcomplete r hr hheld with ⟨x, hx, -⟩ | ⟨hlong, -⟩ | ⟨hts, hb⟩
      · rw [hreads.2.1] at hx
        cases hx
      · rw [hreads.2.2] at hlong
        cases hlong
      · exact ⟨hb, .inl hts⟩
    · exact hcover
  rw [PriceSync.notePriceFloorAfterDrain, hcover.1, if_pos rfl, Bool.and_true]
  exact hcover.2

theorem policed_refuseBound (hp : s.pass = some ⟨d, .predecessors []⟩)
    (hc : KeepsFloor s .judge) (ha : ¬ d.acceptPriceMirrorBound = true)
    (hcert : s.sync.tableCertifiedOnCurrentConnection = true) :
    State.Policed { s with sync := s.sync.refuseBound } := by
  have hjudge := hc _ hp
  rw [if_neg ha] at hjudge
  intro r hr
  rcases hjudge hcert with hnone | hrefloor
  · have hr' : r ∈ s.boundOut := hr
    rw [hnone] at hr'
    cases hr'
  · exact .inr hrefloor

theorem guards_certifyPriceDrain (s : PriceSync) (d : PriceDrain) :
    (s.certifyPriceDrain d).guards = (s.certifyTableDrain d).guards := by
  unfold PriceSync.certifyPriceDrain PriceSync.notePriceRepageFloor PriceSync.settleRepageOwed
  split_ifs <;> rfl

/-- Behind its judgement, what a drain certifies is policed. -/
theorem FloorInv.certified (h : FloorInv s) (hreads : ReadsInv t) (hpoliced : s.Policed)
    (hhub : t.hub = s.hub) (hbound : t.boundOut = s.boundOut)
    (hfloor : t.sync.priceMirrorFloorTs = s.sync.priceMirrorFloorTs)
    (hrefloor : t.sync.priceMirrorRefloor = s.sync.priceMirrorRefloor)
    (hbefore : t.sync.CertifiedBefore)
    (hpass : ∀ d phase, t.pass = some ⟨d, phase⟩ → phase = .drained) : FloorInv t := by
  have ht : t.Policed := by
    intro r hr
    rw [hfloor, hrefloor]
    exact hpoliced r (hbound ▸ hr)
  refine ⟨hreads, fun r hr => hhub ▸ h.known r (hbound ▸ hr), hbefore, fun _ => ht, ?_⟩
  intro d phase hp
  rw [hpass d phase hp]
  exact ht

theorem FloorInv.drainTrans (h : FloorInv s) (hc : KeepsFloor s l) (hp : s.pass = some ⟨d, phase⟩)
    (ht : DrainTrans s d phase l t) : FloorInv t := by
  have hreads := h.reads.drainTrans hp ht
  have hbounds := h.pass d phase hp
  have hread := h.reads.pass d phase hp
  cases ht with
  | ended | overflowed => exact h.kept hreads rfl rfl (fun _ hr => hr) fun _ _ hp => by cases hp
  | askHorizon =>
    refine h.kept hreads rfl rfl (fun _ hr => hr) fun _ _ hp => ?_
    cases hp
    trivial
  | start answer =>
    refine h.kept hreads rfl (guards_startDrain s.sync d answer) (fun _ hr => hr) fun _ _ hp => ?_
    cases hp
    exact Opening.boundReads hread h.reads.mark h.known answer
  | startLost answer =>
    exact h.kept hreads rfl (guards_startDrain s.sync d answer) (fun _ hr => hr)
      fun _ _ hp => by cases hp
  | page hnil hlong =>
    refine h.kept hreads rfl rfl (fun _ hr => hr) fun _ _ hp => ?_
    cases hp
    exact BoundReads.readPage hbounds hnil (Nat.le_refl _)
  | catchUp hnil hshort =>
    refine h.kept hreads rfl rfl (fun _ hr => hr) fun _ _ hp => ?_
    cases hp
    exact BoundReads.readPage hbounds hnil (Reads.position_le hread)
  | boundRow hpending hb => exact h.boundRow hp (fun _ => hc) hpending hb hreads
  | @applyRow x pending hpending hb =>
    refine h.kept hreads rfl rfl (boundOut_writeEvent (.inserted x.value)) fun _ _ hp => ?_
    cases hp
    refine BoundReads.handled hbounds hread h.known hpending fun r hr => .inr ?_
    obtain ⟨hr, hkey⟩ := List.mem_filter.mp hr
    have hkeyed := (Reads.known hread x (hpending ▸ List.mem_cons_self)).keyed
    exact ⟨hr, hkeyed ▸ of_decide_eq_true hkey⟩
  | pagesDone hnil hshort =>
    refine h.kept hreads rfl rfl (fun _ hr => hr) fun _ _ hp => ?_
    cases hp
    exact hbounds
  | @predecessor row rows =>
    refine h.kept hreads rfl rfl (boundOut_writeEvent (.inserted row)) fun _ _ hp => ?_
    cases hp
    exact BoundReads.later hbounds (HubLater.refl _) h.known (boundOut_writeEvent (.inserted row))
  | refused ha =>
    have hpoliced := fun hcert => policed_refuseBound (s := s) hp hc ha hcert
    exact ⟨hreads, h.known, h.before, hpoliced, fun _ _ hp => by cases hp⟩
  | judged ha =>
    have hpoliced := h.judged hp hc ha
    refine ⟨hreads, h.known, h.before, fun _ => hpoliced, fun _ _ hp => ?_⟩
    cases hp
    exact hpoliced
  | judgedLost ha =>
    have hpoliced := h.judged hp hc ha
    exact ⟨hreads, h.known, h.before, fun _ => hpoliced, fun _ _ hp => by cases hp⟩
  | select | stopRemoving | replay | take =>
    refine h.kept hreads rfl rfl (fun _ hr => hr) fun _ _ hp => ?_
    cases hp
    exact hbounds
  | remove hne =>
    refine h.kept hreads rfl rfl (fun _ hr => hr) fun _ _ hp => ?_
    cases hp
    exact hbounds
  | @write epoch event =>
    have hsub := boundOut_writeEvent (s := s) event
    have hsync : (s.writeEvent event).sync = s.sync := by cases event <;> rfl
    have hhub : (s.writeEvent event).hub = s.hub := by cases event <;> rfl
    have hu := unlowered_of_guards h.before
      (t := { (s.writeEvent event).sync with
        pendingPriceEvents := (s.writeEvent event).sync.pendingPriceEvents.tail }) (by rw [hsync]; rfl)
    refine h.quiet hreads (hhub ▸ HubLater.refl _) hu hsub fun _ _ hp => ?_
    cases hp
    exact State.Policed.unlowered hbounds hu hsub
  | writeFailed =>
    exact h.quiet hreads (HubLater.refl _) (unlowered_of_latched h.before rfl rfl (.inr rfl))
      (fun _ hr => hr) fun _ _ hp => by cases hp
  | flushed =>
    refine h.kept hreads rfl rfl (fun _ hr => hr) fun _ _ hp => ?_
    cases hp
    exact hbounds
  | certify hon =>
    have hguards := guards_certifyPriceDrain s.sync d
    simp only [PriceSync.guards, Prod.mk.injEq] at hguards
    obtain ⟨hfloor, hrefloor, hdrain, hepoch, hrev, -⟩ := hguards
    simp only [PriceDrain.onConnection, Bool.and_eq_true, decide_eq_true_eq] at hon
    refine h.certified hreads hbounds rfl rfl hfloor hrefloor (fun p hp => ?_)
      fun _ _ hp => by cases hp; rfl
    cases hdrain ▸ hp
    exact ⟨(hon.1.trans hepoch.symm).le, (hon.2.trans hrev.symm).le⟩
  | passEnd =>
    exact h.certified hreads hbounds rfl rfl rfl rfl h.before fun _ _ hp => by cases hp

theorem FloorInv.step (h : FloorInv s) (hc : KeepsFloor s l) (hs : step s l = some t) : FloorInv t := by
  rcases step_cases hs with hs' | ⟨-, -, rfl⟩ | ⟨d, phase, hp, ht⟩
  · exact h.mirrorStep hs'
  · refine h.kept (h.reads.step hs) rfl rfl (fun _ hr => hr) fun _ _ hp => ?_
    cases hp
    trivial
  · exact h.drainTrans hc hp ht

end steps

/-! ### Every run of a client -/

theorem Started.floorInv {s : State} (h : Started s) : FloorInv s where
  reads := h.readsInv
  known r hr := by simp [h.boundOut] at hr
  before p hp := by simp [h.sync] at hp
  policed hc := by simp [h.sync, PriceSync.tableCertifiedOnCurrentConnection] at hc
  pass d phase hp := by simp [h.pass] at hp

/-- In every run in which no step leaves the floor below a row it bounds out or bounded out before,
    each finalized row bounded out and not applied since is below the floor, or the barriers are
    shut. -/
theorem bounded_rows_policed {s t : State} {labels : List Label} (hs : Started s)
    (hm : Runs.Meets step KeepsFloor s labels) (hr : Runs.run step s labels = some t) :
    ∀ r ∈ t.boundOut, (0 < t.sync.priceMirrorFloorTs ∧
        r.value.block_timestamp < t.sync.priceMirrorFloorTs) ∨
      t.sync.priceMirrorRefloor = true ∨ t.sync.tableCertifiedOnCurrentConnection = false := by
  have hinv : FloorInv t := Runs.run_inv (fun _ _ _ => FloorInv.step) hs.floorInv hm hr
  intro r hmem
  cases hcert : t.sync.tableCertifiedOnCurrentConnection with
  | false => exact .inr (.inr rfl)
  | true =>
    rcases hinv.policed hcert r hmem with hfloor | hrefloor
    · exact .inl ⟨Nat.zero_lt_of_lt hfloor, hfloor⟩
    · exact .inr (.inl hrefloor)

theorem bounded_rows_policed_once : ∃ t, Runs.run step .fresh firstDrain = some t ∧
    t.boundOut ≠ [] ∧ ∀ r ∈ t.boundOut, (0 < t.sync.priceMirrorFloorTs ∧
        r.value.block_timestamp < t.sync.priceMirrorFloorTs) ∨
      t.sync.priceMirrorRefloor = true ∨ t.sync.tableCertifiedOnCurrentConnection = false := by
  obtain ⟨t, ht, hbound⟩ : ∃ t, Runs.run step .fresh firstDrain = some t ∧ t.boundOut.length = 1 :=
    ⟨_, rfl, rfl⟩
  refine ⟨t, ht, fun hnil => ?_, bounded_rows_policed fresh_started (by decide +kernel) ht⟩
  rw [hnil] at hbound
  cases hbound

/-- The drain that resumes at its position with the same horizon skips nothing, and the floor of the
    first one is gone. -/
theorem not_bounded_rows_policed :
    ¬ ∀ (s t : State) (labels : List Label), Started s → Runs.run step s labels = some t →
      ∀ r ∈ t.boundOut, (0 < t.sync.priceMirrorFloorTs ∧
          r.value.block_timestamp < t.sync.priceMirrorFloorTs) ∨
        t.sync.priceMirrorRefloor = true ∨ t.sync.tableCertifiedOnCurrentConnection = false := by
  intro hclaim
  obtain ⟨t, ht, hbound, hfloor, hrefloor, hcert⟩ : ∃ t, Runs.run step .fresh (firstDrain ++
      [.openDrain, .askHorizon, .horizon (some 1000100), .page, .pagesDone, .judge]) = some t ∧
      t.boundOut = [⟨1, (7, "DOGE"), priceRow 0 7 "DOGE" 50000⟩] ∧ t.sync.priceMirrorFloorTs = 0 ∧
      t.sync.priceMirrorRefloor = false ∧ t.sync.tableCertifiedOnCurrentConnection = true :=
    ⟨_, rfl, rfl, rfl, rfl, rfl⟩
  have hpoliced := hclaim _ _ _ fresh_started ht _ (hbound ▸ List.mem_singleton_self _)
  simp [hfloor, hrefloor, hcert] at hpoliced

end HubDbSync.Prices
