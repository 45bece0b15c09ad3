import XChainExplorer.Hub.PriceReads

/-! # The versions of a price row

    What reaches a mirror is what the hub wrote: the page in hand, the held predecessors, the events in
    the buffer and those being written. A version the hub has yet to write was never delivered. -/

namespace HubDbSync.Prices

/-- The hub wrote the row. -/
def Issued (versions : List PriceSnapshot) (row : PriceSnapshot) : Prop :=
  versions[row.version]? = some row

/-- An event about a row the hub wrote, or a deletion. -/
def LiveEvent.Issued (versions : List PriceSnapshot) : LiveEvent → Prop
  | .inserted row => Prices.Issued versions row
  | .deleted .. => True

section issued
variable {versions more : List PriceSnapshot} {row row' : PriceSnapshot}

theorem Issued.lt (h : Issued versions row) : row.version < versions.length :=
  (List.getElem?_eq_some_iff.mp h).1

theorem Issued.append (h : Issued versions row) : Issued (versions ++ more) row := by
  rw [Issued, List.getElem?_append_left h.lt]
  exact h

theorem Issued.eq (h : Issued versions row) (h' : Issued versions row')
    (hv : row.version = row'.version) : row = row' := by
  rw [Issued, hv] at h
  exact Option.some.inj (h.symm.trans h')

theorem LiveEvent.Issued.append {event : LiveEvent} (h : event.Issued versions) :
    event.Issued (versions ++ more) := by
  cases event with
  | inserted row => exact Prices.Issued.append h
  | deleted chain range => trivial

end issued

/-- The rows a drain holds. The predecessors it keeps are below its floor. -/
structure DrainIssued (versions : List PriceSnapshot) (d : PriceDrain) : Prop where
  pending : ∀ x ∈ d.pending, Issued versions x.value
  pairHeld : ∀ r ∈ d.pricePairHeld, Issued versions r ∧ 0 < d.priceHorizon ∧
    r.block_timestamp < d.priceFloor

def PassIssued (versions : List PriceSnapshot) (d : PriceDrain) : Phase → Prop
  | .paging => DrainIssued versions d
  | .predecessors rows => DrainIssued versions d ∧ ∀ r ∈ rows, r ∈ d.heldPredecessors
  | .replaying _ (some event) => event.Issued versions
  | _ => True

structure IssuedInv (s : State) : Prop where
  versions : ∀ i (row : PriceSnapshot), s.versions[i]? = some row → row.version = i
  hub : ∀ h ∈ s.hub, Issued s.versions h.value
  delivered : ∀ v ∈ s.delivered, v < s.versions.length
  inflight : ∀ e ∈ s.inflight, e.Issued s.versions
  buffered : ∀ e ∈ s.sync.pendingPriceEvents, e.Issued s.versions
  pass : ∀ d phase, s.pass = some ⟨d, phase⟩ → PassIssued s.versions d phase

/-! ### The drain -/

section drain
variable {versions more : List PriceSnapshot} {d : PriceDrain} {phase : Phase}

theorem DrainIssued.append (h : DrainIssued versions d) : DrainIssued (versions ++ more) d where
  pending x hx := (h.pending x hx).append
  pairHeld r hr := ⟨(h.pairHeld r hr).1.append, (h.pairHeld r hr).2⟩

theorem PassIssued.append (h : PassIssued versions d phase) : PassIssued (versions ++ more) d phase := by
  cases phase with
  | paging => exact DrainIssued.append h
  | predecessors rows => exact ⟨h.1.append, h.2⟩
  | replaying epoch writing =>
    cases writing with
    | none => trivial
    | some event => exact LiveEvent.Issued.append h
  | _ => trivial

theorem mem_holdPredecessor {held : List PriceSnapshot} {row r : PriceSnapshot}
    (hr : r ∈ holdPredecessor held row) : r ∈ held ∨ r = row := by
  rw [holdPredecessor] at hr
  split at hr
  · split_ifs at hr
    · obtain ⟨y, hy, rfl⟩ := List.mem_map.mp hr
      split_ifs
      · exact .inr rfl
      · exact .inl hy
    · exact .inl hr
  · rcases List.mem_append.mp hr with hr | hr
    · exact .inl hr
    · exact .inr (List.mem_singleton.mp hr)

theorem DrainIssued.handled {x : WireRow} {pending : List WireRow} (h : DrainIssued versions d)
    (hp : d.pending = x :: pending) : DrainIssued versions (d.handled x pending) where
  pending y hy := h.pending y (hp ▸ List.mem_cons_of_mem _ hy)
  pairHeld r hr := by
    have hheld : (d.handled x pending).pricePairHeld =
      if decide (x.value.status = .finalized) && d.priceRowBoundOut x.value then
        holdPredecessor d.pricePairHeld x.value else d.pricePairHeld := rfl
    rw [hheld] at hr
    split_ifs at hr with hbound
    · rcases mem_holdPredecessor hr with hr | rfl
      · exact h.pairHeld r hr
      · have hb := (Bool.and_eq_true_iff.mp hbound).2
        have hhorizon : 0 < d.priceHorizon := by
          simp only [PriceDrain.priceRowBoundOut, Bool.and_eq_true, decide_eq_true_eq] at hb
          exact hb.1.1.1
        exact ⟨h.pending x (hp ▸ List.mem_cons_self), hhorizon, boundOut_lt hb⟩
    · exact h.pairHeld r hr

/-- A drain that starts holds nothing yet. -/
theorem Opening.drainIssued_start {s : PriceSync} (h : Opening s.drainPosition d) (answer : Option ℕ) :
    DrainIssued versions (s.startDrain d answer).2 := by
  have hpending : (s.startDrain d answer).2.pending = [] := by
    rw [PriceSync.startDrain, PriceSync.choosePriceRepageStart]
    split <;> exact h.pending
  have hheld : (s.startDrain d answer).2.pricePairHeld = [] := by
    rw [PriceSync.startDrain, PriceSync.choosePriceRepageStart]
    split <;> exact h.pairHeld
  exact ⟨fun _ hx => absurd (hpending ▸ hx) List.not_mem_nil,
    fun _ hr => absurd (hheld ▸ hr) List.not_mem_nil⟩

end drain

/-! ### Each step -/

section steps
variable {s t : State} {l : Label} {d : PriceDrain} {phase : Phase}

/-- A step on which the hub writes nothing. -/
theorem IssuedInv.frame (h : IssuedInv s) (hversions : t.versions = s.versions)
    (hhub : ∀ x ∈ t.hub, x ∈ s.hub) (hdelivered : ∀ v ∈ t.delivered, v < s.versions.length)
    (hinflight : ∀ e ∈ t.inflight, e.Issued s.versions)
    (hbuffered : ∀ e ∈ t.sync.pendingPriceEvents, e.Issued s.versions)
    (hpass : ∀ d phase, t.pass = some ⟨d, phase⟩ → PassIssued s.versions d phase) : IssuedInv t where
  versions := hversions ▸ h.versions
  hub x hx := hversions ▸ h.hub x (hhub x hx)
  delivered := hversions ▸ hdelivered
  inflight := hversions ▸ hinflight
  buffered := hversions ▸ hbuffered
  pass := hversions ▸ hpass

theorem IssuedInv.publish (h : IssuedInv s) {row : PriceSnapshot} (hpub : Publishable s row) :
    IssuedInv { s with
      hub := s.hub.upsert (priceRoundKey row) row fun _ => row
      versions := s.versions ++ [row] } := by
  have hrow : Issued (s.versions ++ [row]) row := by
    rw [Issued, hpub.1, List.getElem?_concat_length]
  refine ⟨fun i row' hi => ?_, fun x hx => ?_, fun v hv => ?_, fun e he => (h.inflight e he).append,
    fun e he => (h.buffered e he).append, fun d phase hp => (h.pass d phase hp).append⟩
  · rcases Nat.lt_trichotomy i s.versions.length with hlt | rfl | hgt
    · rw [List.getElem?_append_left hlt] at hi
      exact h.versions i row' hi
    · rw [List.getElem?_concat_length] at hi
      exact Option.some.inj hi ▸ hpub.1
    · have hlen := (List.getElem?_eq_some_iff.mp hi).1
      rw [List.length_append, List.length_singleton] at hlen
      omega
  · rcases UniqueTable.mem_upsert.mp hx with ⟨hx, -⟩ | ⟨y, hy, -, rfl⟩ | ⟨-, rfl⟩
    · exact (h.hub x hx).append
    · exact hrow
    · exact hrow
  · rw [List.length_append]
    exact Nat.lt_add_right _ (h.delivered v hv)

theorem delivered_writeEvent (h : IssuedInv s) (event : LiveEvent) (he : event.Issued s.versions) :
    ∀ v ∈ (s.writeEvent event).delivered, v < s.versions.length := by
  intro v hv
  cases event with
  | inserted row =>
    rcases List.mem_cons.mp hv with rfl | hv
    · exact Issued.lt he
    · exact h.delivered v hv
  | deleted chain range => exact h.delivered v hv

theorem IssuedInv.handleRowEvent (h : IssuedInv s) {event : LiveEvent}
    (he : event.Issued s.versions) : IssuedInv (s.handleRowEvent event) := by
  have hone : ∀ events : List LiveEvent, (∀ e ∈ events, e.Issued s.versions) →
      ∀ e ∈ events ++ [event], e.Issued s.versions := by
    intro events hevents e hmem
    rcases List.mem_append.mp hmem with hmem | hmem
    · exact hevents e hmem
    · exact List.mem_singleton.mp hmem ▸ he
  unfold State.handleRowEvent PriceSync.bufferPriceEvent
  split_ifs
  · exact h.frame rfl (fun _ hx => hx) h.delivered (hone _ h.inflight) h.buffered h.pass
  · exact h.frame rfl (fun _ hx => hx) h.delivered h.inflight h.buffered h.pass
  · exact h.frame rfl (fun _ hx => hx) h.delivered h.inflight (fun e he => absurd he List.not_mem_nil)
      h.pass
  · exact h.frame rfl (fun _ hx => hx) h.delivered h.inflight (hone _ h.buffered) h.pass

theorem IssuedInv.mirrorStep (h : IssuedInv s) (hs : s.mirrorStep l = some t) : IssuedInv t := by
  cases l with
  | publish row =>
    simp only [State.mirrorStep] at hs
    split_ifs at hs with hpub
    cases hs
    exact h.publish hpub
  | retract chain range =>
    cases hs
    exact h.frame rfl (fun x hx => (UniqueTable.mem_delete.mp hx).1) h.delivered h.inflight h.buffered
      h.pass
  | live version =>
    obtain ⟨row, hrow, rfl⟩ := Option.map_eq_some_iff.mp hs
    refine h.handleRowEvent ?_
    rw [LiveEvent.Issued, Issued, h.versions version row hrow]
    exact hrow
  | liveRetraction retraction =>
    obtain ⟨e, -, rfl⟩ := Option.map_eq_some_iff.mp hs
    exact h.handleRowEvent trivial
  | land i ok =>
    obtain ⟨event, hevent, rfl⟩ := Option.map_eq_some_iff.mp hs
    have hissued := h.inflight event (List.mem_of_getElem? hevent)
    have hrest : ∀ e ∈ s.inflight.eraseIdx i, e.Issued s.versions :=
      fun e he => h.inflight e (List.mem_of_mem_eraseIdx he)
    cases ok with
    | true =>
      have hdelivered := delivered_writeEvent h event hissued
      cases event <;> exact h.frame rfl (fun _ hx => hx) hdelivered hrest h.buffered h.pass
    | false => exact h.frame rfl (fun _ hx => hx) h.delivered hrest h.buffered h.pass
  | close =>
    cases hs
    exact h.frame rfl (fun _ hx => hx) h.delivered h.inflight (fun e he => absurd he List.not_mem_nil)
      h.pass
  | gate blockTime =>
    cases hs
    unfold PriceSync.notePriceMirrorFloor
    split_ifs <;> exact h.frame rfl (fun _ hx => hx) h.delivered h.inflight h.buffered h.pass
  | ready | resync | move | refuseSchema | failApply | refresh =>
    cases hs
    exact h.frame rfl (fun _ hx => hx) h.delivered h.inflight h.buffered h.pass
  | _ => cases hs

theorem mem_readPage (d : PriceDrain) {since : ℕ} {x : WireRow}
    (hx : x ∈ (readPage s.hub d since).pending) : x ∈ s.hub :=
  (Page.mem_of_mem_fetch hx).1

theorem buffered_startDrain (s : PriceSync) (d : PriceDrain) (answer : Option ℕ) :
    (s.startDrain d answer).1.pendingPriceEvents = s.pendingPriceEvents := by
  rw [PriceSync.startDrain, PriceSync.choosePriceRepageStart]
  split <;> rfl

theorem buffered_certifyPriceDrain (s : PriceSync) (d : PriceDrain) :
    (s.certifyPriceDrain d).pendingPriceEvents = s.pendingPriceEvents := by
  unfold PriceSync.certifyPriceDrain PriceSync.notePriceRepageFloor PriceSync.settleRepageOwed
  split_ifs <;> rfl

theorem IssuedInv.drainTrans (h : IssuedInv s) (hr : ReadsInv s) (hp : s.pass = some ⟨d, phase⟩)
    (ht : DrainTrans s d phase l t) : IssuedInv t := by
  have hread := hr.pass d phase hp
  have hpass := h.pass d phase hp
  cases ht with
  | ended | refused | judgedLost | writeFailed | passEnd =>
    exact h.frame rfl (fun _ hx => hx) h.delivered h.inflight h.buffered fun _ _ hp => by cases hp
  | startLost answer =>
    exact h.frame rfl (fun _ hx => hx) h.delivered h.inflight
      (buffered_startDrain s.sync d answer ▸ h.buffered) fun _ _ hp => by cases hp
  | start answer =>
    refine h.frame rfl (fun _ hx => hx) h.delivered h.inflight
      (buffered_startDrain s.sync d answer ▸ h.buffered) fun _ _ hp => ?_
    cases hp
    exact Opening.drainIssued_start hread answer
  | page | catchUp =>
    refine h.frame rfl (fun _ hx => hx) h.delivered h.inflight h.buffered fun _ _ hp => ?_
    cases hp
    exact ⟨fun x hx => h.hub x (mem_readPage d hx), hpass.pairHeld⟩
  | @boundRow ok x pending hpending hb =>
    refine h.frame rfl (fun _ hx => hx) (fun v hv => ?_) h.inflight h.buffered fun _ _ hp => ?_
    · rcases List.mem_cons.mp hv with rfl | hv
      · exact (DrainIssued.pending hpass x (hpending ▸ List.mem_cons_self)).lt
      · exact h.delivered v hv
    · cases hp
      exact DrainIssued.handled hpass hpending
  | @applyRow x pending hpending hb =>
    have hx := DrainIssued.pending hpass x (hpending ▸ List.mem_cons_self)
    refine h.frame rfl (fun _ hx => hx) (delivered_writeEvent h (.inserted x.value) hx)
      h.inflight h.buffered fun _ _ hp => ?_
    cases hp
    exact DrainIssued.handled hpass hpending
  | pagesDone =>
    refine h.frame rfl (fun _ hx => hx) h.delivered h.inflight h.buffered fun _ _ hp => ?_
    cases hp
    exact ⟨hpass, fun r hr => hr⟩
  | @predecessor row rows =>
    have hheld := hpass.2 row List.mem_cons_self
    have hrow := (hpass.1.pairHeld row (List.mem_of_mem_filter hheld)).1
    refine h.frame rfl (fun _ hx => hx) (delivered_writeEvent h (.inserted row) hrow)
      h.inflight h.buffered fun _ _ hp => ?_
    cases hp
    exact ⟨hpass.1, fun r hr => hpass.2 r (List.mem_cons_of_mem _ hr)⟩
  | askHorizon | judged | select | remove | stopRemoving | replay | flushed =>
    refine h.frame rfl (fun _ hx => hx) h.delivered h.inflight h.buffered fun _ _ hp => ?_
    cases hp
    trivial
  | @take ok epoch event events he =>
    refine h.frame rfl (fun _ hx => hx) h.delivered h.inflight h.buffered fun _ _ hp => ?_
    cases hp
    exact h.buffered event (he ▸ List.mem_cons_self)
  | @write epoch event =>
    have hdelivered := delivered_writeEvent h event hpass
    have htail : ∀ e ∈ s.sync.pendingPriceEvents.tail, e.Issued s.versions :=
      fun e he => h.buffered e (List.mem_of_mem_tail he)
    have hnone : ∀ d' phase', some ⟨d, .replaying epoch none⟩ = some (⟨d', phase'⟩ : Pass) →
        PassIssued s.versions d' phase' := fun _ _ hp => by cases hp; trivial
    cases event <;> exact h.frame rfl (fun _ hx => hx) hdelivered h.inflight htail hnone
  | overflowed =>
    exact h.frame rfl (fun _ hx => hx) h.delivered h.inflight
      (fun e he => absurd he List.not_mem_nil) fun _ _ hp => by cases hp
  | certify =>
    refine h.frame rfl (fun _ hx => hx) h.delivered h.inflight
      (buffered_certifyPriceDrain s.sync d ▸ h.buffered) fun _ _ hp => ?_
    cases hp
    trivial

theorem IssuedInv.step (h : IssuedInv s) (hr : ReadsInv s) (hs : step s l = some t) : IssuedInv t := by
  rcases step_cases hs with hs | ⟨-, -, rfl⟩ | ⟨d, phase, hp, ht⟩
  · exact h.mirrorStep hs
  · refine h.frame rfl (fun _ hx => hx) h.delivered h.inflight h.buffered fun _ _ hp => ?_
    cases hp
    trivial
  · exact h.drainTrans hr hp ht

end steps

end HubDbSync.Prices
