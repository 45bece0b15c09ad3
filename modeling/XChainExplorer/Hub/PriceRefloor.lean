import XChainExplorer.Hub.PriceSteps

/-! # The re-floor of a bounded price mirror

    A block below the policed floor abandons the bound and shuts both price barriers until the table
    is mirrored in full. Only the judgement of a drain that fully drained opens them again, and it asks
    what the drain bounded out, not where it started. -/

namespace HubDbSync.Prices

/-- The drain started from id 0, with the bound given up. -/
def PriceDrain.remirrors (d : PriceDrain) : Bool := d.fullTable && d.boundDisabled

/-- The drain the judgement is about, where it fully drained. -/
def State.completing (s : State) : Option PriceDrain := s.pass.bind fun p =>
  if p.phase = .predecessors [] ∧ p.drain.acceptPriceMirrorBound = true then some p.drain else none

/-- While the re-floor is pending, a drain that completes and bounded nothing is one that
    re-mirrored. -/
def RemirrorsOrBounds (s : State) : Label → Prop
  | .judge => s.sync.priceMirrorRefloor = true →
    s.completing.all (fun d => d.bounded || d.remirrors) = true
  | _ => True

/-- No drain that completes is one that re-mirrored. -/
def BeforeRemirror (s : State) : Label → Prop
  | .judge => s.completing.any PriceDrain.remirrors = false
  | _ => True

instance (s : State) : ∀ l, Decidable (RemirrorsOrBounds s l)
  | .judge => inferInstanceAs (Decidable (_ = true → _ = true))
  | .publish _ | .retract .. | .ready .. | .close _ | .resync | .move | .refuseSchema | .failApply
  | .live _ | .liveRetraction _ | .land .. | .gate _ | .refresh | .openDrain | .askHorizon
  | .horizon _ | .page | .row _ | .catchUp | .pagesDone | .predecessor _ | .select _ | .remove _
  | .replay | .flush _ | .certify | .passEnd _ | .abort => isTrue trivial

instance (s : State) : ∀ l, Decidable (BeforeRemirror s l)
  | .judge => inferInstanceAs (Decidable (_ = false))
  | .publish _ | .retract .. | .ready .. | .close _ | .resync | .move | .refuseSchema | .failApply
  | .live _ | .liveRetraction _ | .land .. | .gate _ | .refresh | .openDrain | .askHorizon
  | .horizon _ | .page | .row _ | .catchUp | .pagesDone | .predecessor _ | .select _ | .remove _
  | .replay | .flush _ | .certify | .passEnd _ | .abort => isTrue trivial

/-! ### Each step -/

section steps
variable {s t : State} {l : Label}

theorem refloor_writeEvent (s : State) (event : LiveEvent) : (s.writeEvent event).sync = s.sync := by
  cases event <;> rfl

theorem refloor_bufferPriceEvent (s : PriceSync) (event : LiveEvent) :
    (s.bufferPriceEvent event).priceMirrorRefloor = s.priceMirrorRefloor := by
  unfold PriceSync.bufferPriceEvent
  split_ifs <;> rfl

theorem refloor_handleRowEvent (s : State) (event : LiveEvent) :
    (s.handleRowEvent event).sync.priceMirrorRefloor = s.sync.priceMirrorRefloor := by
  unfold State.handleRowEvent
  split_ifs
  · rfl
  · exact refloor_bufferPriceEvent s.sync event

theorem refloor_choosePriceRepageStart (s : PriceSync) (d : PriceDrain) :
    (s.choosePriceRepageStart d).1.priceMirrorRefloor = s.priceMirrorRefloor := by
  unfold PriceSync.choosePriceRepageStart
  split <;> rfl

theorem refloor_certifyPriceDrain (s : PriceSync) (d : PriceDrain) :
    (s.certifyPriceDrain d).priceMirrorRefloor = s.priceMirrorRefloor := by
  unfold PriceSync.certifyPriceDrain PriceSync.notePriceRepageFloor PriceSync.settleRepageOwed
  split_ifs <;> rfl

theorem refloor_notePriceMirrorFloor {s : PriceSync} (hr : s.priceMirrorRefloor = true)
    (blockTime : ℕ) : (s.notePriceMirrorFloor blockTime).priceMirrorRefloor = true := by
  unfold PriceSync.notePriceMirrorFloor
  split_ifs
  · rfl
  · exact hr

theorem refloor_mirrorStep (hr : s.sync.priceMirrorRefloor = true) (hs : s.mirrorStep l = some t) :
    t.sync.priceMirrorRefloor = true := by
  cases l with
  | publish row =>
    simp only [State.mirrorStep] at hs
    split_ifs at hs
    cases hs
    exact hr
  | live version =>
    obtain ⟨row, -, rfl⟩ := Option.map_eq_some_iff.mp hs
    rw [refloor_handleRowEvent, hr]
  | liveRetraction retraction =>
    obtain ⟨e, -, rfl⟩ := Option.map_eq_some_iff.mp hs
    rw [refloor_handleRowEvent, hr]
  | land i ok =>
    obtain ⟨event, -, rfl⟩ := Option.map_eq_some_iff.mp hs
    cases ok with
    | true =>
      rw [if_pos rfl, refloor_writeEvent]
      exact hr
    | false => exact hr
  | gate blockTime =>
    cases hs
    exact refloor_notePriceMirrorFloor hr blockTime
  | retract | ready | close | resync | move | refuseSchema | failApply | refresh =>
    cases hs
    exact hr
  | _ => cases hs

/-- A drain that bounded something leaves the re-floor pending. -/
theorem refloor_notePriceFloorAfterDrain {s : PriceSync} {d : PriceDrain}
    (hr : s.priceMirrorRefloor = true) (hb : d.bounded = true) :
    (s.notePriceFloorAfterDrain d).priceMirrorRefloor = true := by
  rw [PriceSync.notePriceFloorAfterDrain, hr, hb, Bool.and_self]

theorem bounded_of_meets {d : PriceDrain} (hp : s.pass = some ⟨d, .predecessors []⟩)
    (ha : d.acceptPriceMirrorBound = true) (hr : s.sync.priceMirrorRefloor = true)
    (hc : RemirrorsOrBounds s .judge) (hb : BeforeRemirror s .judge) : d.bounded = true := by
  have hd : s.completing = some d := by
    rw [State.completing, hp]
    exact if_pos ⟨rfl, ha⟩
  have hcover := hc hr
  have hbefore : s.completing.any PriceDrain.remirrors = false := hb
  rw [hd] at hcover hbefore
  have hnot : d.remirrors = false := hbefore
  have hor : (d.bounded || d.remirrors) = true := hcover
  rwa [hnot, Bool.or_false] at hor

theorem refloor_drainTrans {d : PriceDrain} {phase : Phase} (hp : s.pass = some ⟨d, phase⟩)
    (hr : s.sync.priceMirrorRefloor = true) (hc : RemirrorsOrBounds s l) (hb : BeforeRemirror s l)
    (ht : DrainTrans s d phase l t) : t.sync.priceMirrorRefloor = true := by
  cases ht with
  | start answer | startLost answer =>
    have hsync := refloor_choosePriceRepageStart s.sync
      (s.sync.newPriceBoundState d (s.sync.resolvePriceMirrorHorizon d answer))
    exact hsync.trans hr
  | judged ha | judgedLost ha =>
    exact refloor_notePriceFloorAfterDrain hr (bounded_of_meets hp ha hr hc hb)
  | @write epoch event =>
    have hsync := refloor_writeEvent s event
    exact (congrArg PriceSync.priceMirrorRefloor hsync).trans hr
  | certify => exact (refloor_certifyPriceDrain s.sync d).trans hr
  | _ => exact hr

theorem refloor_step (hr : s.sync.priceMirrorRefloor = true) (hc : RemirrorsOrBounds s l)
    (hb : BeforeRemirror s l) (hs : step s l = some t) : t.sync.priceMirrorRefloor = true := by
  rcases step_cases hs with hs | ⟨-, -, rfl⟩ | ⟨d, phase, hp, ht⟩
  · exact refloor_mirrorStep hr hs
  · exact hr
  · exact refloor_drainTrans hp hr hc hb ht

end steps

/-! ### What the barriers answer -/

/-- Both price barriers refuse a block at any height and time. -/
def PriceSync.RefusesBlocks (s : PriceSync) (reads : BarrierReads) : Prop :=
  (∀ height time, s.priceSyncSatisfied reads height time = false) ∧
    ∀ time height, s.priceTimeSyncSatisfied reads (some time) height = false

theorem refusesBlocks_of_refloor {s : PriceSync} (hr : s.priceMirrorRefloor = true)
    (reads : BarrierReads) : s.RefusesBlocks reads := by
  constructor
  · intro height time
    rw [PriceSync.priceSyncSatisfied, if_pos hr]
  · intro time height
    simp [PriceSync.priceTimeSyncSatisfied, hr]

/-- Behind the gating of a block below the floor, both price barriers refuse every block until a drain
    that re-mirrored has completed, in every run in which no other drain completes with nothing
    bounded. -/
theorem refuses_until_remirrored {s t u : State} {labels : List Label} {blockTime : ℕ}
    (hfloor : blockTime < s.sync.priceMirrorFloorTs) (htime : 0 < blockTime)
    (hs : step s (.gate blockTime) = some t) (hc : Runs.Meets step RemirrorsOrBounds t labels)
    (hb : Runs.Meets step BeforeRemirror t labels) (hr : Runs.run step t labels = some u)
    (reads : BarrierReads) : u.sync.RefusesBlocks reads := by
  have htrip : t.sync.priceMirrorRefloor = true := by
    cases hs
    exact congrArg PriceSync.priceMirrorRefloor (if_pos ⟨htime.trans hfloor, htime, hfloor⟩)
  have hmeets : Runs.Meets step (fun s l => RemirrorsOrBounds s l ∧ BeforeRemirror s l) t labels :=
    Runs.meets_and.mpr ⟨hc, hb⟩
  have hpending : u.sync.priceMirrorRefloor = true :=
    Runs.run_inv (fun s l t hr hm hs => refloor_step hr hm.1 hm.2 hs) htrip hmeets hr
  exact refusesBlocks_of_refloor hpending reads

theorem refuses_until_remirrored_once : ∃ s t u, Runs.run step .fresh firstDrain = some s ∧
    step s (.gate 60000) = some t ∧ Runs.run step t (pageThree none) = some u ∧
      ∀ reads, u.sync.RefusesBlocks reads := by
  obtain ⟨s, hs, hfloor⟩ : ∃ s, Runs.run step .fresh firstDrain = some s ∧
      s.sync.priceMirrorFloorTs = 100100 := ⟨_, rfl, rfl⟩
  have hreached : (Runs.run step s (.gate 60000 :: pageThree none)).isSome = true ∧
      Runs.Meets step RemirrorsOrBounds s (.gate 60000 :: pageThree none) ∧
      Runs.Meets step BeforeRemirror s (.gate 60000 :: pageThree none) := by
    obtain rfl := Option.some.inj hs
    decide +kernel
  obtain ⟨hsome, hc, hb⟩ := hreached
  obtain ⟨u, hrun⟩ := Option.isSome_iff_exists.mp hsome
  obtain ⟨t, ht, hu⟩ := Runs.run_cons.mp hrun
  rw [Runs.meets_cons ht] at hc hb
  exact ⟨s, t, u, hs, ht, hu, refuses_until_remirrored (by omega) (by decide) ht hc.2 hb.2 hu⟩

/-- What a barrier reads before any watermark and with no admission. -/
def idleReads : BarrierReads where
  tableWatermark := 0
  priceWatermarkGraceS := 0
  admissionActiveAt _ := false
  heightSatisfied _ := false
  admissionStreamSatisfied _ := false

/-- The drain that resumes behind the position finds nothing, and clears the re-floor: the block that
    tripped it passes the barrier, and the round below it is not in the mirror. -/
theorem not_refuses_until_remirrored :
    ¬ ∀ (s t u : State) (reached labels : List Label) (blockTime : ℕ),
      Runs.run step .fresh reached = some s → blockTime < s.sync.priceMirrorFloorTs → 0 < blockTime →
      step s (.gate blockTime) = some t → Runs.Meets step BeforeRemirror t labels →
      Runs.run step t labels = some u → ∀ reads, u.sync.RefusesBlocks reads := by
  intro hclaim
  obtain ⟨s, hs, hfloor⟩ : ∃ s, Runs.run step .fresh firstDrain = some s ∧
      s.sync.priceMirrorFloorTs = 100100 := ⟨_, rfl, rfl⟩
  obtain ⟨t, ht, htrip⟩ : ∃ t, step s (.gate 60000) = some t ∧
      t = { s with sync := s.sync.notePriceMirrorFloor 60000 } := ⟨_, rfl, rfl⟩
  have hresumed : Runs.Meets step BeforeRemirror t
      [.openDrain, .askHorizon, .horizon none, .page, .pagesDone, .judge] ∧
      ∃ u, Runs.run step t [.openDrain, .askHorizon, .horizon none, .page, .pagesDone, .judge] =
        some u ∧ u.sync.priceTimeSyncSatisfied idleReads (some 60000) none = true := by
    obtain rfl := Option.some.inj hs
    subst htrip
    exact ⟨by decide +kernel, _, rfl, rfl⟩
  obtain ⟨hb, u, hu, hopen⟩ := hresumed
  have hrefused := (hclaim s t u _ _ 60000 hs (by omega) (by decide) ht hb hu idleReads).2 60000 none
  rw [hopen] at hrefused
  cases hrefused

end HubDbSync.Prices
