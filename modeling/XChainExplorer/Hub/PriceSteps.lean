import XChainExplorer.Hub.PriceMirror

/-! # What a step of a price drain can do

    One transition for each branch of the drain's code. -/

namespace HubDbSync.Prices

/-- The transitions of a pass with drain `d`. -/
inductive DrainTrans (s : State) (d : PriceDrain) : Phase → Label → State → Prop
  | ended {phase l} : DrainTrans s d phase l s.ended
  -- the opening
  | askHorizon : DrainTrans s d .opening .askHorizon
      (s.withDrain { d with boundDisabled := s.sync.priceMirrorBoundDisabled } .resolving)
  | start (answer) : DrainTrans s d .resolving (.horizon answer)
      (State.withDrain { s with sync := (s.sync.startDrain d answer).1 } (s.sync.startDrain d answer).2 .paging)
  | startLost (answer) : DrainTrans s d .resolving (.horizon answer)
      { s with sync := (s.sync.startDrain d answer).1 }.ended
  -- the pages
  | page (hnil : d.pending = []) (hlong : d.shortPage = false) :
      DrainTrans s d .paging .page (s.withDrain (readPage s.hub d d.lastId) .paging)
  | catchUp (hnil : d.pending = []) (hshort : d.shortPage = true) :
      DrainTrans s d .paging .catchUp
        (s.withDrain { readPage s.hub d s.sync.drainPosition with caughtUp := true } .paging)
  | boundRow {ok x pending} (hp : d.pending = x :: pending) (hb : d.priceRowBoundOut x.value = true) :
      DrainTrans s d .paging (.row ok)
        (({ s with sync := s.sync.passRow d x }.boundRow x).withDrain (d.handled x pending) .paging)
  | applyRow {x pending} (hp : d.pending = x :: pending) (hb : d.priceRowBoundOut x.value = false) :
      DrainTrans s d .paging (.row true)
        (({ s with sync := s.sync.passRow d x }.writeRow x.value).withDrain (d.handled x pending) .paging)
  | pagesDone (hnil : d.pending = []) (hshort : d.shortPage = true) :
      DrainTrans s d .paging .pagesDone (s.withDrain d (.predecessors d.heldPredecessors))
  -- the bound
  | predecessor {row rows} : DrainTrans s d (.predecessors (row :: rows)) (.predecessor true)
      ((s.writeRow row).withDrain d (.predecessors rows))
  | refused (ha : ¬ d.acceptPriceMirrorBound = true) : DrainTrans s d (.predecessors []) .judge
      { s with sync := s.sync.refuseBound }.ended
  | judged (ha : d.acceptPriceMirrorBound = true) : DrainTrans s d (.predecessors []) .judge
      ({ s with sync := s.sync.notePriceFloorAfterDrain d }.withDrain d .judged)
  | judgedLost (ha : d.acceptPriceMirrorBound = true) : DrainTrans s d (.predecessors []) .judge
      { s with sync := s.sync.notePriceFloorAfterDrain d }.ended
  -- the reconciliation
  | select {ok} : DrainTrans s d .judged (.select ok) (s.withDrain d (.removing
      (if d.complete && ok then staleForeignPriceRoundIds s.mirror d else [])))
  | remove {stale} (hne : stale ≠ []) : DrainTrans s d (.removing stale) (.remove true)
      ({ s with mirror := s.mirror.delete fun x => x.id ∈ stale.take REMOVAL_CHUNK }.withDrain d
        (.removing (stale.drop REMOVAL_CHUNK)))
  | stopRemoving {stale} : DrainTrans s d (.removing stale) (.remove false)
      (s.withDrain d (.removing []))
  -- the replay
  | replay : DrainTrans s d (.removing []) .replay (s.withDrain d (.replaying s.sync.wsEpoch none))
  | take {ok epoch event} (events) (he : s.sync.pendingPriceEvents = event :: events) :
      DrainTrans s d (.replaying epoch none) (.flush ok)
        (s.withDrain d (.replaying epoch (some event)))
  | write {epoch event} : DrainTrans s d (.replaying epoch (some event)) (.flush true)
      ({ s.writeEvent event with sync := { (s.writeEvent event).sync with
        pendingPriceEvents := (s.writeEvent event).sync.pendingPriceEvents.tail } }.withDrain d
          (.replaying epoch none))
  | writeFailed {epoch event} : DrainTrans s d (.replaying epoch (some event)) (.flush false)
      { s with sync := { s.sync with applyFailureSeen := true } }.ended
  | overflowed {ok epoch} : DrainTrans s d (.replaying epoch none) (.flush ok)
      { s with sync := { s.sync with pendingPriceOverflow := false, pendingPriceEvents := [] } }.ended
  | flushed {ok epoch} : DrainTrans s d (.replaying epoch none) (.flush ok)
      ({ s with sync := { s.sync with priceDrained := true } }.withDrain d .replayed)
  -- the certification
  | certify (hon : d.onConnection s.sync = true) : DrainTrans s d .replayed .certify
      (State.withDrain { s with sync := s.sync.certifyPriceDrain d } d .drained)
  | passEnd {othersDrained} : DrainTrans s d .drained (.passEnd othersDrained)
      { s with sync := s.sync.certifyFullDrain }.ended

variable {s t : State} {d : PriceDrain} {phase : Phase} {l : Label}

theorem drainTrans_of_pageStep (hs : s.pageStep ⟨d, phase⟩ l = some t) : DrainTrans s d phase l t := by
  cases l with
  | askHorizon =>
    simp only [State.pageStep] at hs
    split at hs
    · cases hs
      exact .askHorizon
    · cases hs
  | horizon answer =>
    simp only [State.pageStep] at hs
    split at hs
    · cases hs
      rw [State.stillOn]
      split_ifs
      · exact .start answer
      · exact .startLost answer
    · cases hs
  | page =>
    simp only [State.pageStep] at hs
    split at hs
    · split_ifs at hs with hready hon
      · obtain ⟨hnil, hlong⟩ := Bool.and_eq_true_iff.mp hready
        cases hs
        exact .page (by simpa using hnil) (by simpa using hlong)
      · cases hs
        exact .ended
    · cases hs
  | row ok =>
    simp only [State.pageStep] at hs
    split at hs
    case h_1 x pending hpending =>
      split_ifs at hs with hb hok
      · cases hs
        exact .boundRow hpending hb
      · cases hs
        obtain rfl : ok = true := hok
        exact .applyRow hpending (by simpa using hb)
      · cases hs
        exact .ended
    · cases hs
  | catchUp =>
    simp only [State.pageStep] at hs
    split at hs
    · split_ifs at hs with hready
      simp only [Bool.and_eq_true] at hready
      cases hs
      exact .catchUp (by simpa using hready.1.1.1) hready.1.1.2
    · cases hs
  | pagesDone =>
    simp only [State.pageStep] at hs
    split at hs
    · split_ifs at hs with hready
      obtain ⟨hnil, hshort⟩ := Bool.and_eq_true_iff.mp hready
      cases hs
      rw [State.stillOn]
      split_ifs
      · exact .pagesDone (by simpa using hnil) hshort
      · exact .ended
    · cases hs
  | _ => cases hs

theorem drainTrans_of_closeStep (hs : s.closeStep ⟨d, phase⟩ l = some t) :
    DrainTrans s d phase l t := by
  cases l with
  | predecessor ok =>
    simp only [State.closeStep] at hs
    split at hs
    · cases hs
      cases ok
      · exact .ended
      · exact .predecessor
    · cases hs
  | judge =>
    simp only [State.closeStep] at hs
    split at hs
    · split_ifs at hs with ha
      · cases hs
        rw [State.stillOn]
        split_ifs
        · exact .judged ha
        · exact .judgedLost ha
      · cases hs
        exact .refused ha
    · cases hs
  | select ok =>
    simp only [State.closeStep] at hs
    split at hs
    · cases hs
      exact .select
    · cases hs
  | remove ok =>
    simp only [State.closeStep] at hs
    split at hs
    · cases hs
    case h_2 stale hne =>
      cases hs
      cases ok
      · exact .stopRemoving
      · exact .remove hne
    · cases hs
  | replay =>
    simp only [State.closeStep] at hs
    split at hs
    · cases hs
      exact .replay
    · cases hs
  | flush ok =>
    simp only [State.closeStep] at hs
    split at hs
    · cases hs
      cases ok
      · exact .writeFailed
      · exact .write
    · split_ifs at hs
      · cases hs
        exact .overflowed
      · split at hs <;> cases hs
        case h_1 event events hevents => exact .take events hevents
        case h_2 => exact .flushed
      · split at hs <;> cases hs
        case h_1 event events hevents => exact .take events hevents
        case h_2 => exact .ended
    · cases hs
  | certify =>
    simp only [State.closeStep] at hs
    split at hs
    · split_ifs at hs with hon
      · cases hs
        exact .certify hon
      · cases hs
        exact .ended
    · cases hs
  | passEnd othersDrained =>
    simp only [State.closeStep] at hs
    split at hs
    · split_ifs at hs
      · cases hs
        exact .passEnd
      · cases hs
        exact .ended
    · cases hs
  | abort =>
    simp only [State.closeStep] at hs
    split at hs
    · cases hs
    · cases hs
      exact .ended
  | _ => cases hs

/-- A step is one of the mirror, the opening of a drain, or one of the drain in flight. -/
theorem step_cases (hs : step s l = some t) :
    s.mirrorStep l = some t ∨
    (l = .openDrain ∧ s.pass = none ∧
      t = { s with sync := { s.sync with drainPosition := s.sync.newDrain.lastId } }.withDrain
        s.sync.newDrain .opening) ∨
    ∃ d phase, s.pass = some ⟨d, phase⟩ ∧ DrainTrans s d phase l t := by
  cases l with
  | openDrain =>
    simp only [step] at hs
    split at hs
    case h_1 hpass =>
      cases hs
      exact .inr (.inl ⟨rfl, hpass, rfl⟩)
    · cases hs
  | askHorizon | horizon | page | row | catchUp | pagesDone =>
    obtain ⟨⟨d, phase⟩, hp, hs⟩ := Option.bind_eq_some_iff.mp hs
    exact .inr (.inr ⟨d, phase, hp, drainTrans_of_pageStep hs⟩)
  | predecessor | judge | select | remove | replay | flush | certify | passEnd | abort =>
    obtain ⟨⟨d, phase⟩, hp, hs⟩ := Option.bind_eq_some_iff.mp hs
    exact .inr (.inr ⟨d, phase, hp, drainTrans_of_closeStep hs⟩)
  | _ => exact .inl hs

end HubDbSync.Prices
