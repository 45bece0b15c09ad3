import XChainExplorer.Hub.Sync
import XChainExplorer.Hub.HubSelector
import XChainExplorer.Lib.Tally
import Mathlib.Data.List.Perm.Subperm
import Mathlib.Tactic.Linarith

/-! # Moving between hubs

    A mirror leaves its hub for the next candidate when connecting keeps failing, when its watermark
    stalls, or when the hub reports itself not caught up. The first two wait out a dwell after the last
    move. The third does not: it ends when every candidate has given that answer, and after a grace the
    mirror then serves from the hub it is on. Times are what the clock gave when it was read, and
    everything else a mirror does is one label that leaves these fields alone. -/

namespace HubFailover

open HubDbSync HubSelection Runs

/-! ### The move policy -/

/-- The failures in a row that a hub is left for. -/
def DEFAULT_RECONNECT_ATTEMPTS : ℤ := 3

/-- The time that a hub is kept at least. -/
def DEFAULT_MIN_DWELL_MS : ℤ := 120000

/-- What a policy is configured with. -/
structure Limits where
  reconnectAttempts : ℤ
  minDwellMs : ℤ
  notCaughtUpGraceMs : ℤ
  attempts_pos : 0 < reconnectAttempts
  dwell_nonneg : 0 ≤ minDwellMs

/-- The options of `createMovePolicy`; one that is not an integer, or out of range, gives the default. -/
def createMovePolicy (reconnectAttempts minDwellMs : Option ℤ) (graceMs : ℤ) : Limits where
  reconnectAttempts := (reconnectAttempts.filter (0 < ·)).getD DEFAULT_RECONNECT_ATTEMPTS
  minDwellMs := (minDwellMs.filter (0 ≤ ·)).getD DEFAULT_MIN_DWELL_MS
  notCaughtUpGraceMs := graceMs
  attempts_pos := by
    cases h : reconnectAttempts.filter (0 < ·) with
    | none => decide
    | some n => exact of_decide_eq_true (Option.filter_eq_some_iff.mp h).2
  dwell_nonneg := by
    cases h : minDwellMs.filter (0 ≤ ·) with
    | none => decide
    | some n => exact of_decide_eq_true (Option.filter_eq_some_iff.mp h).2

/-- Why a hub is left. -/
inductive Reason where
  | connect_failure
  | stall
  | hub_not_caught_up
  deriving DecidableEq

/-- What the policy remembers. -/
structure MovePolicy where
  lastMoveAt : Option ℤ := none
  moveReason : Option Reason := none
  moveCount : ℕ := 0
  failureStreak : ℤ := 0

/-- What the policy answers a failed connection or a stall. -/
inductive Action where
  | move
  | retry
  | hold
  | exit
  deriving DecidableEq

/-- The last move is long enough ago. -/
def MovePolicy.dwellPassed (limits : Limits) (p : MovePolicy) (now : ℤ) : Bool :=
  match p.lastMoveAt with
  | none => true
  | some at' => limits.minDwellMs ≤ now - at'

/-- A failed connection: enough of them in a row move on, once the dwell has passed. -/
def MovePolicy.onConnectFailure (limits : Limits) (p : MovePolicy) (candidateCount : ℕ) (now : ℤ) :
    Action × MovePolicy :=
  let p := { p with failureStreak := p.failureStreak + 1 }
  (if limits.reconnectAttempts ≤ p.failureStreak && 1 < candidateCount && p.dwellPassed limits now then .move
    else .retry, p)

/-- A stall moves after the dwell, and exits where there is nowhere to go. -/
def MovePolicy.onStall (limits : Limits) (p : MovePolicy) (candidateCount : ℕ) (now : ℤ) : Action :=
  if candidateCount ≤ 1 then .exit
  else if p.dwellPassed limits now then .move else .hold

/-- A connection ends the streak of failures. -/
def MovePolicy.noteConnected (p : MovePolicy) : MovePolicy :=
  { p with failureStreak := 0 }

/-- A move ends it too, and is remembered. -/
def MovePolicy.noteMove (p : MovePolicy) (reason : Reason) (now : ℤ) : MovePolicy where
  failureStreak := 0
  lastMoveAt := some now
  moveReason := some reason
  moveCount := p.moveCount + 1

/-! ### The mirror's side -/

/-- The fields the move policy and the triggers read and write, beside those of the certification. -/
structure Follower (K : Type*) where
  sync : Sync K
  /-- None where a mirror source is configured. -/
  selector : Option HubSelector
  policy : MovePolicy := {}
  notCaughtUpAnswers : List String := []
  notCaughtUpSince : Option ℤ := none
  notCaughtUpWarned : Bool := false
  readyCaughtUpHandled : Bool := false
  failoverPendingDrain : Bool := false
  hubUrl : Option String := none
  hubUrlEpoch : Option ℕ := none
  /-- The running bootstrap, with the epoch and the revision it began with. -/
  bootstrapping : Option (ℕ × ℕ) := none

variable {K : Type*}

/-- The hubs to choose from. -/
def Follower.candidates (w : Follower K) : List String :=
  match w.selector with
  | none => []
  | some s => s.candidates

/-- Their number. A fixed address is one. -/
def Follower.candidateCount (w : Follower K) : ℕ :=
  match w.selector with
  | none => if w.hubUrl.isSome then 1 else 0
  | some s => s.candidates.length

/-- The hub that is followed. -/
def Follower.current (w : Follower K) : Option String :=
  w.selector.bind HubSelector.current

/-- The address is read once for each connection. -/
def Follower.captureConnectionAddress (w : Follower K) : Follower K :=
  if w.hubUrlEpoch = some w.sync.wsEpoch then w
  else { w with
    hubUrl := match w.selector with
      | none => w.hubUrl
      | some s => s.current
    hubUrlEpoch := some w.sync.wsEpoch }

/-- The answers are a set; no address, no answer. -/
def addAnswer (answers : List String) : Option String → List String
  | none => answers
  | some address => if address ∈ answers then answers else address :: answers

/-- One more hub said that it is behind. -/
def Follower.noteNotCaughtUpAnswer (w : Follower K) (address : Option String) : Follower K :=
  { w with notCaughtUpAnswers := addAnswer w.notCaughtUpAnswers address }

/-- Every candidate has answered not caught up since the answers were last cleared. -/
def Follower.allCandidatesNotCaughtUp (w : Follower K) : Bool :=
  2 ≤ w.candidates.length && w.candidates.all (· ∈ w.notCaughtUpAnswers)

/-- The selector's listener runs on every move of the index. -/
def Follower.advanceSelector (w : Follower K) : Follower K :=
  match w.selector with
  | none => w
  | some s =>
    if s.advances then
      { w with
        selector := some s.advance
        sync := { w.sync with selectorRevision := w.sync.selectorRevision + 1, bootstrapDrained := false } }
    else w

/-- The move to the next hub, if there is another. -/
def Follower.moveHub (w : Follower K) (reason : Reason) (now : ℤ) : Bool × Follower K :=
  let w' := w.advanceSelector
  if w.current.isNone || w'.current.isNone || w.current = w'.current then (false, w')
  else (true, { w' with
    notCaughtUpSince := none
    notCaughtUpWarned := false
    sync := w'.sync.resetForMove
    failoverPendingDrain := true
    policy := w'.policy.noteMove reason now })

/-- Is the hub's report of being behind a reason to wait? It clears the answers when the hub is caught up. -/
def Follower.uncaughtUpBlocks (limits : Limits) (w : Follower K) (now : ℤ) : Bool × Follower K :=
  match w.sync.readyCaughtUp with
  | none => (false, w)
  | some true => (false, { w with notCaughtUpAnswers := [], notCaughtUpSince := none, notCaughtUpWarned := false })
  | some false =>
    if 2 ≤ w.candidateCount && !w.allCandidatesNotCaughtUp then (true, w)
    else
      let since := w.notCaughtUpSince.getD now
      let w := { w with notCaughtUpSince := some since }
      if now - since < limits.notCaughtUpGraceMs then (true, w)
      else (false, { w with notCaughtUpWarned := true })

/-- A hub that is behind is left, unless all of them said so. -/
def Follower.noteHubNotCaughtUp (w : Follower K) (now : ℤ) : Bool × Follower K :=
  if w.candidateCount < 2 then (false, w)
  else
    let w := w.noteNotCaughtUpAnswer w.current
    if w.allCandidatesNotCaughtUp then (false, w)
    else w.moveHub .hub_not_caught_up now

/-- Once for each ready frame. The socket it terminates closes later. -/
def Follower.rejectUncaughtUpReadyFrame (w : Follower K) (now : ℤ) : Follower K :=
  if w.readyCaughtUpHandled then w
  else ({ w with readyCaughtUpHandled := true }.noteHubNotCaughtUp now).2

/-- A failed connection, as the policy answers it. -/
def Follower.noteConnectFailure (limits : Limits) (w : Follower K) (now : ℤ) : Bool × Follower K :=
  let answer := w.policy.onConnectFailure limits w.candidateCount now
  let w := { w with policy := answer.2 }
  if answer.1 = .move then w.moveHub .connect_failure now else (false, w)

/-- A stall, as the policy answers it. Where there is nowhere to go the process ends. -/
def Follower.stallFailoverAction (limits : Limits) (w : Follower K) (now : ℤ) : Action × Follower K :=
  match w.policy.onStall limits w.candidateCount now with
  | .move =>
    let moved := w.moveHub .stall now
    (if moved.1 then .move else .exit, moved.2)
  | action => (action, w)

/-! ### Steps -/

/-- A step of the follower. -/
inductive Label (K : Type*) where
  /-- `connectWebSocket` begins. -/
  | connect
  | ready (instanceId : Option ℕ) (caughtUp : Bool) (maxIds : Option (MirrorTable → Option ℕ))
      (heights : Option (Heights K))
  | close (resync : Bool)
  /-- A reconnect failed; after a move the address is read again. -/
  | connectFailure (now : ℤ)
  | connected
  | bootstrapAll (now : ℤ)
  | passEnd (now : ℤ) (allDrained : Bool) (marks : List ℤ)
  /-- The stall detector's second stage. -/
  | stall (now : ℤ)
  /-- A hub list, with the order drawn for it. -/
  | merge (addresses : List String) (draw : ℕ → ℕ)
  /-- Whatever else the mirror does. -/
  | rest (sync : Sync K)

/-- `bootstrapAll` up to its first wait: nothing while another runs, a rejection, or a new pass. -/
def Follower.bootstrapAll (limits : Limits) (w : Follower K) (now : ℤ) : Follower K :=
  if w.bootstrapping.isSome then w
  else
    let gate := w.uncaughtUpBlocks limits now
    if gate.1 then gate.2.rejectUncaughtUpReadyFrame now
    else { gate.2 with bootstrapping := some (gate.2.sync.wsEpoch, gate.2.sync.selectorRevision) }

/-- Does the pass that began with `pass` ask `certifyFullDrain`? -/
def Follower.asks (w : Follower K) (pass : ℕ × ℕ) (allDrained : Bool) (marks : List ℤ) : Bool :=
  allDrained && !marks.isEmpty && pass = (w.sync.wsEpoch, w.sync.selectorRevision)

/-- The end of `bootstrapAll`, with `certifyFullDrain`'s own checks. -/
def Follower.passEnd (limits : Limits) (pollMode : Bool) (w : Follower K) (pass : ℕ × ℕ) (now : ℤ)
    (allDrained : Bool) (marks : List ℤ) : Follower K :=
  let w' := { w with bootstrapping := none }
  if w.asks pass allDrained marks then
    let gate := w'.uncaughtUpBlocks limits now
    if gate.1 || !gate.2.sync.repageOwedTables.isEmpty then gate.2
    else { gate.2 with sync := gate.2.sync.certifyFullDrain pollMode marks, failoverPendingDrain := false }
  else w'

/-- The fields of the certification the triggers depend on. -/
def SameConnection (s s' : Sync K) : Prop :=
  s'.wsEpoch = s.wsEpoch ∧ s'.selectorRevision = s.selectorRevision ∧ s'.readyCaughtUp = s.readyCaughtUp ∧
    s'.bootstrapDrained = s.bootstrapDrained

instance SameConnection.decidable (s s' : Sync K) : Decidable (SameConnection s s') :=
  inferInstanceAs (Decidable (_ ∧ _))

/-- A step of the follower, if it can be taken. -/
def step (limits : Limits) (pollMode : Bool) (normalizeUrl : String → Option String) (w : Follower K) :
    Label K → Option (Follower K)
  | .connect => some w.captureConnectionAddress
  | .ready instanceId caughtUp maxIds heights => some { w with
      sync := w.sync.adoptReadyFrame instanceId caughtUp maxIds heights, readyCaughtUpHandled := false }
  | .close resync => some { w with sync := w.sync.closeSocket resync, readyCaughtUpHandled := false }
  | .connectFailure now =>
    let noted := w.noteConnectFailure limits now
    some (if noted.1 then { noted.2 with hubUrlEpoch := none } else noted.2)
  | .connected => some { w with policy := w.policy.noteConnected }
  | .bootstrapAll now => some (w.bootstrapAll limits now)
  | .passEnd now allDrained marks =>
    w.bootstrapping.map fun pass => w.passEnd limits pollMode pass now allDrained marks
  | .stall now => some (w.stallFailoverAction limits now).2
  | .merge addresses draw =>
    w.selector.map fun s => { w with selector := some ((s.merge normalizeUrl addresses draw).getD s) }
  | .rest sync => if SameConnection w.sync sync then some { w with sync := sync } else none

/-! ### What a step does -/

variable {w w' : Follower K} {s : HubSelector} {limits : Limits} {now : ℤ} {reason : Reason}
variable {pollMode : Bool} {normalizeUrl : String → Option String} {e : Label K} {es : List (Label K)}

/-- The state after a move. -/
def Follower.movedOn (w : Follower K) (s : HubSelector) (reason : Reason) (now : ℤ) : Follower K :=
  { w with
    selector := some s.advance
    sync := { w.sync with selectorRevision := w.sync.selectorRevision + 1, bootstrapDrained := false }.resetForMove
    notCaughtUpSince := none
    notCaughtUpWarned := false
    failoverPendingDrain := true
    policy := w.policy.noteMove reason now }

theorem moveHub_still (h : ∀ s, w.selector = some s → s.advances = false) : w.moveHub reason now = (false, w) := by
  have hsame : w.advanceSelector = w := by
    rw [Follower.advanceSelector]
    cases hs : w.selector with
    | none => rfl
    | some s =>
      dsimp only
      rw [if_neg (by rw [h s hs]; exact Bool.false_ne_true)]
  rw [Follower.moveHub, hsame]
  simp

theorem HubSelection.HubSelector.Valid.advance_current_ne (hv : s.Valid) (ha : s.advances = true) :
    s.current.isSome = true ∧ s.advance.current.isSome = true ∧ s.current ≠ s.advance.current := by
  obtain ⟨-, hlen⟩ := HubSelector.advances_iff.mp ha
  have hturns : 2 ≤ s.turns.length := by rw [s.turns_perm.length_eq]; exact hlen
  have hnodup : s.turns.Nodup := s.turns_perm.nodup_iff.mpr hv.nodup
  rw [hv.current_eq, hv.advance.current_eq, hv.turns_advance ha]
  match hl : s.turns, hturns, hnodup with
  | a :: b :: rest, _, hnodup =>
    have hne : a ≠ b := fun hab => (List.nodup_cons.mp hnodup).1 (hab ▸ List.mem_cons_self)
    refine ⟨rfl, rfl, fun h => hne (Option.some.inj h)⟩

/-- A selector that has somewhere to go moves. -/
theorem moveHub_moves (hs : w.selector = some s) (hv : s.Valid) (ha : s.advances = true) :
    w.moveHub reason now = (true, w.movedOn s reason now) := by
  obtain ⟨hcur, hnext, hne⟩ := HubSelection.HubSelector.Valid.advance_current_ne hv ha
  have hadvance : w.advanceSelector = { w with
      selector := some s.advance
      sync := { w.sync with
        selectorRevision := w.sync.selectorRevision + 1, bootstrapDrained := false } } := by
    rw [Follower.advanceSelector, hs]
    dsimp only
    rw [if_pos ha]
  have hcurrent : w.current = s.current := by rw [Follower.current, hs]; rfl
  have hafter : w.advanceSelector.current = s.advance.current := by rw [hadvance]; rfl
  rw [Follower.moveHub, hcurrent, hafter, if_neg, hadvance]
  · rfl
  · obtain ⟨c, hc⟩ := Option.isSome_iff_exists.mp hcur
    obtain ⟨n, hn⟩ := Option.isSome_iff_exists.mp hnext
    rw [hc, hn] at hne ⊢
    simpa using hne

/-- The selectors of a run keep their invariant. -/
def Follower.Valid (w : Follower K) : Prop :=
  ∀ s, w.selector = some s → s.Valid

/-- Nothing of the moves changed. -/
structure Unmoved (w w' : Follower K) : Prop where
  selector : w'.selector = w.selector
  lastMoveAt : w'.policy.lastMoveAt = w.policy.lastMoveAt
  moveCount : w'.policy.moveCount = w.policy.moveCount

theorem Unmoved.refl (w : Follower K) : Unmoved w w :=
  ⟨rfl, rfl, rfl⟩

/-- The time a label reads. -/
def Label.now? : Label K → Option ℤ
  | .connectFailure now | .bootstrapAll now | .passEnd now _ _ | .stall now => some now
  | _ => none

/-- What one step can do to the moves and to the answers. -/
inductive Effect (limits : Limits) (w : Follower K) (e : Label K) (w' : Follower K) : Prop where
  | quiet (h : Unmoved w w') (ha : w'.notCaughtUpAnswers = w.notCaughtUpAnswers)
  /-- A gate read that the hub is caught up. -/
  | cleared (h : Unmoved w w') (hc : w.sync.readyCaughtUp = some true) (ha : w'.notCaughtUpAnswers = [])
  /-- The followed hub's answer is noted, and it was the last one missing. -/
  | noted (h : Unmoved w w') (hc : w.sync.readyCaughtUp = some false)
      (ha : w'.notCaughtUpAnswers = addAnswer w.notCaughtUpAnswers w.current)
  | merged {s t : HubSelector} {addresses : List String} {draw : ℕ → ℕ} (he : e = .merge addresses draw)
      (hs : w.selector = some s) (hs' : w'.selector = some t) (hsub : s.candidates ⊆ t.candidates)
      (hsame : t.candidates = s.candidates → t = s) (hpolicy : w'.policy = w.policy) (ha : w'.notCaughtUpAnswers = w.notCaughtUpAnswers)
  | moved {s : HubSelector} {reason : Reason} {now : ℤ} (hn : e.now? = some now) (hs : w.selector = some s)
      (hadv : s.advances = true) (hs' : w'.selector = some s.advance)
      (hlast : w'.policy.lastMoveAt = some now) (hcount : w'.policy.moveCount = w.policy.moveCount + 1)
      (hreason : w'.policy.moveReason = some reason)
      (hdwell : reason ≠ .hub_not_caught_up → w.policy.dwellPassed limits now = true ∧
        w'.notCaughtUpAnswers = w.notCaughtUpAnswers)
      (hasked : reason = .hub_not_caught_up → w.sync.readyCaughtUp = some false ∧
        w'.notCaughtUpAnswers = addAnswer w.notCaughtUpAnswers w.current ∧
        ¬∀ c ∈ s.candidates, c ∈ w'.notCaughtUpAnswers)

/-- An effect speaks of the selector, the policy and the answers only. -/
theorem Effect.congr {v : Follower K} (h : Effect limits w e v) (hs : w'.selector = v.selector)
    (hp : w'.policy = v.policy) (ha : w'.notCaughtUpAnswers = v.notCaughtUpAnswers) : Effect limits w e w' := by
  cases h with
  | quiet hu hans => exact .quiet ⟨hs.trans hu.1, by rw [hp, hu.2], by rw [hp, hu.3]⟩ (ha.trans hans)
  | cleared hu hc hans => exact .cleared ⟨hs.trans hu.1, by rw [hp, hu.2], by rw [hp, hu.3]⟩ hc (ha.trans hans)
  | noted hu hc hans => exact .noted ⟨hs.trans hu.1, by rw [hp, hu.2], by rw [hp, hu.3]⟩ hc (ha.trans hans)
  | merged he hsel hsel' hsub hsame hpol hans =>
    exact .merged he hsel (hs.trans hsel') hsub hsame (hp.trans hpol) (ha.trans hans)
  | moved hn hsel hadv hsel' hlast hcount hreason hdwell hasked =>
    refine .moved hn hsel hadv (hs.trans hsel') (by rw [hp, hlast]) (by rw [hp, hcount]) (by rw [hp, hreason])
      (fun h => ⟨(hdwell h).1, ha.trans (hdwell h).2⟩) fun h => ⟨(hasked h).1, ha.trans (hasked h).2.1, ?_⟩
    rw [ha]
    exact (hasked h).2.2

/-- Nor does it ask more of the state before. -/
theorem Effect.congr_before {v : Follower K} (h : Effect limits v e w') (hs : v.selector = w.selector)
    (hp : v.policy = w.policy) (ha : v.notCaughtUpAnswers = w.notCaughtUpAnswers) (hc : v.sync = w.sync) :
    Effect limits w e w' := by
  have hcurrent : v.current = w.current := by rw [Follower.current, hs]; rfl
  cases h with
  | quiet hu hans => exact .quiet ⟨hu.1.trans hs, by rw [hu.2, hp], by rw [hu.3, hp]⟩ (hans.trans ha)
  | cleared hu hread hans => exact .cleared ⟨hu.1.trans hs, by rw [hu.2, hp], by rw [hu.3, hp]⟩ (hc ▸ hread) hans
  | noted hu hread hans =>
    exact .noted ⟨hu.1.trans hs, by rw [hu.2, hp], by rw [hu.3, hp]⟩ (hc ▸ hread) (by rw [hans, ha, hcurrent])
  | merged he hsel hsel' hsub hsame hpol hans =>
    exact .merged he (hs.symm.trans hsel) hsel' hsub hsame (hpol.trans hp) (hans.trans ha)
  | moved hn hsel hadv hsel' hlast hcount hreason hdwell hasked =>
    exact .moved hn (hs.symm.trans hsel) hadv hsel' hlast (by rw [hcount, hp]) hreason
      (fun h => ⟨hp ▸ (hdwell h).1, (hdwell h).2.trans ha⟩)
      fun h => ⟨hc ▸ (hasked h).1, by rw [(hasked h).2.1, ha, hcurrent], (hasked h).2.2⟩

theorem moveHub_cases (hv : w.Valid) (reason : Reason) (now : ℤ) :
    w.moveHub reason now = (false, w) ∨
      ∃ s, w.selector = some s ∧ s.advances = true ∧ w.moveHub reason now = (true, w.movedOn s reason now) := by
  cases hs : w.selector with
  | none => exact Or.inl (moveHub_still fun s h => by rw [hs] at h; cases h)
  | some s =>
    cases ha : s.advances with
    | false =>
      refine Or.inl (moveHub_still fun t h => ?_)
      obtain rfl := Option.some.inj (hs.symm.trans h)
      exact ha
    | true => exact Or.inr ⟨s, rfl, ha, moveHub_moves hs (hv s hs) ha⟩

/-- The gate reads a hub that is caught up, and forgets the answers; or it touches the grace only. -/
theorem uncaughtUpBlocks_cases (limits : Limits) (w : Follower K) (now : ℤ) :
    (w.sync.readyCaughtUp = some true ∧ w.uncaughtUpBlocks limits now =
        (false, { w with notCaughtUpAnswers := [], notCaughtUpSince := none, notCaughtUpWarned := false })) ∨
      ∃ since warned, (w.uncaughtUpBlocks limits now).2 =
          { w with notCaughtUpSince := since, notCaughtUpWarned := warned } ∧
        ((w.uncaughtUpBlocks limits now).1 = true → w.sync.readyCaughtUp = some false) := by
  rw [Follower.uncaughtUpBlocks]
  rcases hc : w.sync.readyCaughtUp with _ | _ | _
  · exact Or.inr ⟨w.notCaughtUpSince, w.notCaughtUpWarned, rfl, fun h => by cases h⟩
  · dsimp only
    split_ifs
    · exact Or.inr ⟨w.notCaughtUpSince, w.notCaughtUpWarned, rfl, fun _ => rfl⟩
    · exact Or.inr ⟨_, w.notCaughtUpWarned, rfl, fun _ => rfl⟩
    · exact Or.inr ⟨_, true, rfl, fun h => by cases h⟩
  · exact Or.inl ⟨rfl, rfl⟩

/-- Rejecting a hub that is behind notes its answer, and moves on while another has not given it. -/
theorem effect_reject (hv : w.Valid) (hn : e.now? = some now) (hc : w.sync.readyCaughtUp = some false) :
    Effect limits w e (w.rejectUncaughtUpReadyFrame now) := by
  rw [Follower.rejectUncaughtUpReadyFrame]
  split_ifs with hhandled
  · exact .quiet (Unmoved.refl w) rfl
  · rw [Follower.noteHubNotCaughtUp]
    dsimp only
    split_ifs with hcount hall
    · exact .quiet ⟨rfl, rfl, rfl⟩ rfl
    · exact .noted ⟨rfl, rfl, rfl⟩ hc rfl
    · generalize hw₁ : ({ w with readyCaughtUpHandled := true } : Follower K).noteNotCaughtUpAnswer
        ({ w with readyCaughtUpHandled := true } : Follower K).current = w₁ at hall ⊢
      have hsel : w₁.selector = w.selector := by rw [← hw₁]; rfl
      have hpol : w₁.policy = w.policy := by rw [← hw₁]; rfl
      have hans : w₁.notCaughtUpAnswers = addAnswer w.notCaughtUpAnswers w.current := by rw [← hw₁]; rfl
      rcases moveHub_cases (fun s hs => hv s (hsel.symm.trans hs)) .hub_not_caught_up now with
        hstill | ⟨s, hs, hadv, hmoved⟩
      · rw [hstill]
        exact .noted ⟨hsel, by rw [hpol], by rw [hpol]⟩ hc hans
      · rw [hmoved]
        have hreason : some Reason.hub_not_caught_up = some Reason.hub_not_caught_up := rfl
        refine .moved hn (hsel.symm.trans hs) hadv rfl rfl
          (by rw [← hpol]; rfl) hreason (fun h => (h rfl).elim) fun _ => ⟨hc, hans, fun hevery => hall ?_⟩
        have hlen : 2 ≤ s.candidates.length := (HubSelector.advances_iff.mp hadv).2
        rw [Follower.allCandidatesNotCaughtUp, Follower.candidates, hs]
        simp only [Bool.and_eq_true, decide_eq_true_eq, List.all_eq_true]
        exact ⟨hlen, hevery⟩

theorem effect_uncaughtUpBlocks : Effect limits w e (w.uncaughtUpBlocks limits now).2 := by
  rcases uncaughtUpBlocks_cases limits w now with ⟨hc, hgate⟩ | ⟨since, warned, hgate, -⟩
  · rw [hgate]
    exact .cleared ⟨rfl, rfl, rfl⟩ hc rfl
  · rw [hgate]
    exact .quiet ⟨rfl, rfl, rfl⟩ rfl

theorem effect_bootstrapAll (hv : w.Valid) (hn : e.now? = some now) :
    Effect limits w e (w.bootstrapAll limits now) := by
  rw [Follower.bootstrapAll]
  split_ifs with hrunning
  · exact .quiet (Unmoved.refl w) rfl
  · dsimp only
    split_ifs with hb
    · rcases uncaughtUpBlocks_cases limits w now with ⟨-, hgate⟩ | ⟨since, warned, hgate, hblocked⟩
      · rw [hgate] at hb
        cases hb
      · rw [hgate]
        -- the gate touched the grace only, which an effect does not speak of
        have heffect : Effect limits { w with notCaughtUpSince := since, notCaughtUpWarned := warned } e _ :=
          effect_reject hv hn (hblocked hb)
        exact heffect.congr_before rfl rfl rfl rfl
    · exact effect_uncaughtUpBlocks.congr rfl rfl rfl

/-- A move the policy allowed, or none. -/
theorem effect_moveHub {w₁ : Follower K} (hv : w.Valid) (hn : e.now? = some now)
    (hreason : reason ≠ .hub_not_caught_up) (hdwell : w.policy.dwellPassed limits now = true)
    (hw : w₁ = { w with policy := { w.policy with failureStreak := w₁.policy.failureStreak } }) :
    Effect limits w e (w₁.moveHub reason now).2 := by
  have hsel : w₁.selector = w.selector := by rw [hw]
  rcases moveHub_cases (fun s hs => hv s (hsel.symm.trans hs)) reason now with hstill | ⟨s, hs, hadv, hmoved⟩
  · rw [hstill, hw]
    exact .quiet ⟨rfl, rfl, rfl⟩ rfl
  · rw [hmoved]
    exact .moved hn (hsel.symm.trans hs) hadv rfl rfl (by rw [hw]; rfl) rfl (fun _ => ⟨hdwell, by rw [hw]; rfl⟩)
      fun h => (hreason h).elim

theorem effect_connectFailure (hv : w.Valid) (hn : e.now? = some now) :
    Effect limits w e (w.noteConnectFailure limits now).2 := by
  have hquiet : Effect limits w e { w with policy := (w.policy.onConnectFailure limits w.candidateCount now).2 } :=
    .quiet ⟨rfl, rfl, rfl⟩ rfl
  rw [Follower.noteConnectFailure]
  split_ifs with hmove
  · have hdwell : w.policy.dwellPassed limits now = true := by
      by_contra hno
      have hretry : (w.policy.onConnectFailure limits w.candidateCount now).1 = .retry := by
        refine if_neg fun hallowed => hno ?_
        simp only [Bool.and_eq_true] at hallowed
        exact hallowed.2
      rw [hretry] at hmove
      cases hmove
    exact effect_moveHub hv hn (by decide) hdwell rfl
  · exact hquiet

theorem effect_stall (hv : w.Valid) (hn : e.now? = some now) :
    Effect limits w e (w.stallFailoverAction limits now).2 := by
  rw [Follower.stallFailoverAction, MovePolicy.onStall]
  split
  · rename_i hmove
    split_ifs at hmove with hcount hdwell
    exact effect_moveHub hv hn (by decide) hdwell rfl
  · exact .quiet (Unmoved.refl w) rfl

theorem effect_passEnd {pass : ℕ × ℕ} {allDrained : Bool} {marks : List ℤ} :
    Effect limits w e (w.passEnd limits pollMode pass now allDrained marks) := by
  have hgate : Effect limits w e ({ w with bootstrapping := none }.uncaughtUpBlocks limits now).2 :=
    effect_uncaughtUpBlocks.congr_before rfl rfl rfl rfl
  rw [Follower.passEnd]
  dsimp only
  split_ifs with hasks hblocked
  · exact hgate
  · exact hgate.congr rfl rfl rfl
  · exact .quiet ⟨rfl, rfl, rfl⟩ rfl

/-- Every step is one of the effects. -/
theorem effect_step (hv : w.Valid) (h : step limits pollMode normalizeUrl w e = some w') : Effect limits w e w' := by
  cases e with
  | connect =>
    obtain rfl := Option.some.inj h
    rw [Follower.captureConnectionAddress]
    split_ifs
    · exact .quiet (Unmoved.refl w) rfl
    · exact .quiet ⟨rfl, rfl, rfl⟩ rfl
  | ready | close | connected =>
    obtain rfl := Option.some.inj h
    exact .quiet ⟨rfl, rfl, rfl⟩ rfl
  | connectFailure now =>
    obtain rfl := Option.some.inj h
    have heffect : Effect limits w (.connectFailure now) (w.noteConnectFailure limits now).2 :=
      effect_connectFailure hv rfl
    dsimp only
    split_ifs
    · exact heffect.congr rfl rfl rfl
    · exact heffect
  | bootstrapAll now =>
    obtain rfl := Option.some.inj h
    exact effect_bootstrapAll hv rfl
  | passEnd now allDrained marks =>
    obtain ⟨pass, -, rfl⟩ := Option.map_eq_some_iff.mp h
    exact effect_passEnd
  | stall now =>
    obtain rfl := Option.some.inj h
    exact effect_stall hv rfl
  | merge addresses draw =>
    obtain ⟨s, hs, rfl⟩ := Option.map_eq_some_iff.mp h
    cases hm : s.merge normalizeUrl addresses draw with
    | none => exact .merged rfl hs rfl (List.Subset.refl _) (fun _ => rfl) rfl rfl
    | some t =>
      refine .merged rfl hs rfl (fun c hc => ?_) (fun hsame => ?_) rfl rfl
      · cases hpin : s.pinned with
        | false => exact ((hv s hs).merge_mem hm hpin).mpr (Or.inl hc)
        | true =>
          obtain ⟨incoming, -, ⟨rfl, -⟩ | ⟨hnot, -⟩⟩ := HubSelector.merge_cases hm
          · exact hc
          · rw [hpin] at hnot
            cases hnot
      · obtain ⟨incoming, -, ⟨rfl, -⟩ | ⟨-, hadded, drawn, hdrawn, rfl⟩⟩ := HubSelector.merge_cases hm
        · rfl
        · -- a new address is a candidate now and was none before
          obtain ⟨c, hc⟩ := List.exists_mem_of_ne_nil _ hadded
          have hmem : c ∈ s.current.toList ++ drawn :=
            List.mem_append_right _ (hdrawn.mem_iff.mpr (List.mem_append_right _ hc))
          have hsame : s.current.toList ++ drawn = s.candidates := hsame
          rw [hsame] at hmem
          exact absurd hmem (of_decide_eq_true (List.mem_filter.mp hc).2)
  | rest sync =>
    rw [step] at h
    split_ifs at h
    obtain rfl := Option.some.inj h
    exact .quiet ⟨rfl, rfl, rfl⟩ rfl

theorem valid_step (hv : w.Valid) (h : step limits pollMode normalizeUrl w e = some w') : w'.Valid := by
  intro t ht
  have hsame : ∀ {v : Follower K}, v.selector = w.selector → v.selector = some t → t.Valid :=
    fun hsel hsome => hv t (hsel.symm.trans hsome)
  cases effect_step hv h with
  | quiet h | cleared h | noted h => exact hsame h.selector ht
  | merged he hs hs' =>
    subst he
    obtain ⟨s, hs, rfl⟩ := Option.map_eq_some_iff.mp h
    obtain rfl := Option.some.inj ht
    cases hm : s.merge normalizeUrl _ _ with
    | none => exact hv s hs
    | some t => exact (hv s hs).merge hm
  | moved hn hs hadv hs' =>
    obtain rfl := Option.some.inj (hs'.symm.trans ht)
    exact (hv _ hs).advance

/-- Candidates are never lost. -/
theorem candidates_subset (hv : w.Valid) (h : step limits pollMode normalizeUrl w e = some w') :
    w.candidates ⊆ w'.candidates := by
  have hof : ∀ {v : Follower K} {s : HubSelector}, v.selector = some s → v.candidates = s.candidates :=
    fun hs => by rw [Follower.candidates, hs]
  cases effect_step hv h with
  | quiet h | cleared h | noted h => rw [Follower.candidates, Follower.candidates, h.selector]; exact List.Subset.refl _
  | merged he hs hs' hsub => rw [hof hs, hof hs']; exact hsub
  | moved hn hs hadv hs' => rw [hof hs, hof hs', HubSelector.advance_candidates]; exact List.Subset.refl _

/-! ### The dwell -/

/-- A move the policy made: a failed reconnect's or a stall's. -/
def policyMoves (w : Follower K) (_ : Label K) (w' : Follower K) : ℕ :=
  if w'.policy.moveCount ≠ w.policy.moveCount ∧ w'.policy.moveReason ≠ some .hub_not_caught_up then 1 else 0

/-- The times a run's labels read. -/
def times (es : List (Label K)) : List ℤ :=
  es.filterMap Label.now?

theorem times_concat : times (es ++ [e]) = times es ++ e.now?.toList := by
  rw [times, List.filterMap_append]
  cases he : e.now? <;> simp [times, he]

/-- A policy move comes a dwell after the last move. -/
theorem policyMoves_eq_one {w w' : Follower K} (h : Effect limits w e w') (hmove : policyMoves w e w' ≠ 0) :
    ∃ now, e.now? = some now ∧ w'.policy.lastMoveAt = some now ∧ w.policy.dwellPassed limits now = true := by
  rw [policyMoves] at hmove
  split_ifs at hmove with hcond
  · obtain ⟨hcount, hreason⟩ := hcond
    cases h with
    | quiet h | cleared h | noted h => exact (hcount h.moveCount).elim
    | merged he hs hs' hsub hsame hp => exact (hcount (by rw [hp])).elim
    | moved hn hs hadv hs' hlast hcount' hreason' hdwell =>
      refine ⟨_, hn, hlast, (hdwell fun heq => hreason ?_).1⟩
      rw [hreason', heq]
  · exact (hmove rfl).elim

/-- A step that is no policy move leaves the last move where it was, or moves it to the present. -/
theorem lastMoveAt_cases {w w' : Follower K} (h : Effect limits w e w') :
    w'.policy.lastMoveAt = w.policy.lastMoveAt ∨ ∃ now, e.now? = some now ∧ w'.policy.lastMoveAt = some now := by
  cases h with
  | quiet h | cleared h | noted h => exact Or.inl h.lastMoveAt
  | merged he hs hs' hsub hsame hp => exact Or.inl (by rw [hp])
  | moved hn hs hadv hs' hlast => exact Or.inr ⟨_, hn, hlast⟩

theorem valid_run (hv : w.Valid) (hr : run (step limits pollMode normalizeUrl) w es = some w') : w'.Valid :=
  run_inv' (fun _ _ _ => valid_step) hv hr

/-- Between the first of `n` policy moves and the last move lie `n - 1` dwells. -/
theorem dwells (hv : w.Valid) {start : ℤ} (hclock : (times es).Pairwise (· ≤ ·)) (hstart : ∀ t ∈ times es, start ≤ t)
    (hr : run (step limits pollMode normalizeUrl) w es = some w') :
    tally (step limits pollMode normalizeUrl) policyMoves w es = 0 ∨
      ∃ t ∈ times es, w'.policy.lastMoveAt = some t ∧
        start + (tally (step limits pollMode normalizeUrl) policyMoves w es - 1) * limits.minDwellMs ≤ t := by
  induction es using List.reverseRecOn generalizing w' with
  | nil => exact Or.inl rfl
  | append_singleton es e ih =>
    obtain ⟨u, hu, hlast⟩ := run_append.mp hr
    obtain ⟨v, hv', hnil⟩ := run_cons.mp hlast
    obtain rfl := Option.some.inj hnil
    have heffect := effect_step (valid_run hv hu) hv'
    rw [times_concat] at hclock hstart ⊢
    obtain ⟨hclock, -, hbefore⟩ := List.pairwise_append.mp hclock
    have ih := ih hclock (fun t ht => hstart t (List.mem_append_left _ ht)) hu
    have hd := limits.dwell_nonneg
    rw [tally_concat hu hv']
    by_cases hmove : policyMoves u e v = 0
    · rw [hmove, Nat.add_zero]
      refine ih.imp_right fun ⟨t, ht, hlast, hle⟩ => ?_
      rcases lastMoveAt_cases heffect with hsame | ⟨now, hn, hnow⟩
      · exact ⟨t, List.mem_append_left _ ht, hsame.trans hlast, hle⟩
      · have hmem : now ∈ e.now?.toList := by rw [hn]; exact List.mem_singleton_self now
        exact ⟨now, List.mem_append_right _ hmem, hnow, hle.trans (hbefore t ht now hmem)⟩
    · obtain ⟨now, hn, hnow, hdwell⟩ := policyMoves_eq_one heffect hmove
      have hone : policyMoves u e v = 1 := by
        rw [policyMoves] at hmove ⊢
        split_ifs at hmove ⊢
        · rfl
        · exact (hmove rfl).elim
      have hmem : now ∈ e.now?.toList := by rw [hn]; exact List.mem_singleton_self now
      refine Or.inr ⟨now, List.mem_append_right _ hmem, hnow, ?_⟩
      rw [hone]
      rcases ih with hzero | ⟨t, ht, hlast, hle⟩
      · rw [hzero]
        have := hstart now (List.mem_append_right _ hmem)
        push_cast
        linarith
      · rw [MovePolicy.dwellPassed, hlast] at hdwell
        have hdwell : limits.minDwellMs ≤ now - t := of_decide_eq_true hdwell
        push_cast
        linarith

/-- Moves for failed connections and for stalls are a dwell apart, whatever other moves lie between: a run
    that takes `stop - start` makes at most one more of them than dwells fit into it. -/
theorem policy_moves_dwell (hv : w.Valid) {start stop : ℤ} (hclock : (times es).Pairwise (· ≤ ·))
    (hstart : ∀ t ∈ times es, start ≤ t) (hstop : ∀ t ∈ times es, t ≤ stop) (hle : start ≤ stop)
    (hr : run (step limits pollMode normalizeUrl) w es = some w') :
    (tally (step limits pollMode normalizeUrl) policyMoves w es : ℤ) * limits.minDwellMs ≤
      stop - start + limits.minDwellMs := by
  have hd := limits.dwell_nonneg
  rcases dwells hv hclock hstart hr with hzero | ⟨t, ht, -, hspread⟩
  · rw [hzero, Nat.cast_zero, zero_mul]
    omega
  · have := hstop t ht
    linarith

/-- A mirror that follows the first of some candidates. -/
def following (candidates : List String) : Follower Unit :=
  { sync := {}, selector := some ⟨none, false, candidates, some 0⟩ }

theorem valid_following (candidates : List String) (hne : candidates ≠ []) (h : candidates.Nodup) :
    (following candidates).Valid := by
  intro s hs
  obtain rfl := Option.some.inj hs
  exact ⟨h, fun i hi => by obtain rfl := Option.some.inj hi; exact List.length_pos_of_ne_nil hne,
    fun hi => (Option.some_ne_none _ hi).elim, fun hp => (Bool.false_ne_true hp).elim⟩

/-- The stall in between is held back. -/
theorem policy_moves_dwell_stalls :
    tally (step (createMovePolicy none none 30000) false some) policyMoves (following ["a", "b"])
        [.stall 0, .stall 50000, .stall 120000] = 2 ∧
      (tally (step (createMovePolicy none none 30000) false some) policyMoves (following ["a", "b"])
        [.stall 0, .stall 50000, .stall 120000] : ℤ) * 120000 ≤ 120000 - 0 + 120000 :=
  ⟨by decide, policy_moves_dwell (valid_following ["a", "b"] (by decide) (by decide)) (by decide) (by decide) (by decide) (by decide) rfl⟩

/-! ### Rounds of hubs that are behind -/

/-- A move because the hub is not caught up. -/
def askedMoves (w : Follower K) (_ : Label K) (w' : Follower K) : ℕ :=
  if w'.policy.moveCount ≠ w.policy.moveCount ∧ w'.policy.moveReason = some .hub_not_caught_up then 1 else 0

/-- What starts a round over: a policy move, answers forgotten, a new candidate. -/
def renewals (w : Follower K) (e : Label K) (w' : Follower K) : ℕ :=
  policyMoves w e w' + (if w.notCaughtUpAnswers ⊆ w'.notCaughtUpAnswers then 0 else 1) +
    (if w'.candidates = w.candidates then 0 else 1)

/-- How many of the hubs last followed, one after the other, have given the answer. -/
def lastAnswers (turns answers : List String) : ℕ :=
  (turns.reverse.takeWhile (· ∈ answers)).length

/-- The potential of a round; the followed hub itself is left out. -/
def Follower.round (w : Follower K) : ℕ :=
  match w.selector with
  | none => 0
  | some s => min (lastAnswers s.turns w.notCaughtUpAnswers) (s.candidates.length - 1)

theorem length_takeWhile_le {α : Type*} {p q : α → Bool} (h : ∀ x, p x = true → q x = true) (l : List α) :
    (l.takeWhile p).length ≤ (l.takeWhile q).length := by
  induction l with
  | nil => exact le_rfl
  | cons a l ih =>
    rw [List.takeWhile_cons]
    split_ifs with hp
    · rw [List.takeWhile_cons_of_pos (h a hp)]
      exact Nat.succ_le_succ ih
    · exact Nat.zero_le _

theorem lastAnswers_mono {turns answers answers' : List String} (h : answers ⊆ answers') :
    lastAnswers turns answers ≤ lastAnswers turns answers' :=
  length_takeWhile_le (fun _ hx => decide_eq_true (h (of_decide_eq_true hx))) _

/-- A walk that ends on the way does not see what lies beyond. -/
theorem takeWhile_append_of_stops {α : Type*} {p : α → Bool} {l r : List α} {c : α} (hc : c ∈ l) (hp : p c = false) :
    (l ++ r).takeWhile p = l.takeWhile p ∧ (l.takeWhile p).length < l.length := by
  induction l with
  | nil => exact absurd hc List.not_mem_nil
  | cons a l ih =>
    rw [List.cons_append]
    cases ha : p a with
    | false =>
      rw [List.takeWhile_cons_of_neg (by simp [ha]), List.takeWhile_cons_of_neg (by simp [ha])]
      exact ⟨rfl, Nat.succ_pos _⟩
    | true =>
      have hrest : c ∈ l := (List.mem_cons.mp hc).resolve_left fun h => by rw [h, ha] at hp; cases hp
      obtain ⟨heq, hlt⟩ := ih hrest
      rw [List.takeWhile_cons_of_pos ha, List.takeWhile_cons_of_pos ha, heq]
      exact ⟨rfl, Nat.succ_lt_succ hlt⟩

/-- A hub that gave the answer and handed over lengthens the row of answers, while one is missing. -/
theorem lastAnswers_handOver {a : String} {rest answers answers' : List String} (hsub : answers ⊆ answers')
    (ha : a ∈ answers') {c : String} (hc : c ∈ rest) (hmissing : c ∉ answers') :
    lastAnswers (a :: rest) answers + 1 ≤ lastAnswers (rest ++ [a]) answers' ∧
      lastAnswers (rest ++ [a]) answers' ≤ rest.length := by
  have hstop : decide (c ∈ answers) = false := decide_eq_false fun h => hmissing (hsub h)
  have hstop' : decide (c ∈ answers') = false := decide_eq_false hmissing
  have hc' : c ∈ rest.reverse := List.mem_reverse.mpr hc
  have hbefore := takeWhile_append_of_stops (p := (· ∈ answers)) (r := [a]) hc' hstop
  have hafter := takeWhile_append_of_stops (p := (· ∈ answers')) (r := []) hc' hstop'
  have hmono := length_takeWhile_le (p := (· ∈ answers)) (q := (· ∈ answers'))
    (fun _ hx => decide_eq_true (hsub (of_decide_eq_true hx))) rest.reverse
  have hlast : lastAnswers (rest ++ [a]) answers' = (rest.reverse.takeWhile (· ∈ answers')).length + 1 := by
    rw [lastAnswers, List.reverse_append, List.reverse_singleton, List.singleton_append,
      List.takeWhile_cons_of_pos (p := (· ∈ answers')) (decide_eq_true ha), List.length_cons]
  rw [hlast, lastAnswers, List.reverse_cons, hbefore.1]
  have hlen := hafter.2
  rw [List.length_reverse] at hlen
  exact ⟨Nat.succ_le_succ hmono, hlen⟩

theorem mem_addAnswer {answers : List String} {a : String} : a ∈ addAnswer answers (some a) := by
  rw [addAnswer]
  split_ifs with h
  · exact h
  · exact List.mem_cons_self

theorem subset_addAnswer (answers : List String) (address : Option String) : answers ⊆ addAnswer answers address := by
  unfold addAnswer
  cases address with
  | none => exact List.Subset.refl _
  | some a =>
    dsimp only
    split_ifs
    · exact List.Subset.refl _
    · exact List.subset_cons_self _ _

theorem round_le (w : Follower K) : w.round ≤ w.candidates.length - 1 := by
  rw [Follower.round, Follower.candidates]
  cases w.selector with
  | none => exact Nat.zero_le _
  | some s => exact min_le_right _ _

theorem round_mono (hs : w'.selector = w.selector) (ha : w.notCaughtUpAnswers ⊆ w'.notCaughtUpAnswers) :
    w.round ≤ w'.round := by
  rw [Follower.round, Follower.round, hs]
  cases w.selector with
  | none => exact le_rfl
  | some s => exact min_le_min_right _ (lastAnswers_mono ha)

/-- The move a hub that is behind causes lengthens the round. -/
theorem round_asked (hv : w.Valid) (hs : w.selector = some s) (hadv : s.advances = true)
    (hs' : w'.selector = some s.advance) (hanswers : w'.notCaughtUpAnswers = addAnswer w.notCaughtUpAnswers w.current)
    (hmissing : ¬∀ c ∈ s.candidates, c ∈ w'.notCaughtUpAnswers) : 1 + w.round ≤ w'.round := by
  have hvs := hv s hs
  have hperm := s.turns_perm
  cases hl : s.turns with
  | nil =>
    rw [hl] at hperm
    have hlen := (HubSelector.advances_iff.mp hadv).2
    rw [hperm.symm.eq_nil] at hlen
    exact absurd hlen (by decide)
  | cons a rest =>
    have hcurrent : w.current = some a := by
      rw [Follower.current, hs, Option.bind_some, hvs.current_eq, hl]
      rfl
    have hkept : w.notCaughtUpAnswers ⊆ w'.notCaughtUpAnswers := by
      rw [hanswers]
      exact subset_addAnswer _ _
    have ha : a ∈ w'.notCaughtUpAnswers := by
      rw [hanswers, hcurrent]
      exact mem_addAnswer
    obtain ⟨c, hc, hno⟩ : ∃ c ∈ rest, c ∉ w'.notCaughtUpAnswers := by
      by_contra hall
      refine hmissing fun c hc => ?_
      rw [← hperm.mem_iff, hl] at hc
      rcases List.mem_cons.mp hc with rfl | hc
      · exact ha
      · by_contra hno
        exact hall ⟨c, hc, hno⟩
    obtain ⟨hlonger, hbound⟩ := lastAnswers_handOver hkept ha hc hno
    have hlen : s.candidates.length = rest.length + 1 := by rw [← hperm.length_eq, hl]; rfl
    rw [Follower.round, Follower.round, hs, hs']
    dsimp only
    rw [hvs.turns_advance hadv, hl, List.rotate_cons_succ, List.rotate_zero, HubSelector.advance_candidates, hlen]
    omega

/-- One step of a round. -/
theorem round_step (hv : w.Valid) (heffect : Effect limits w e w') {n : ℕ} (hn : w.candidates.length - 1 ≤ n) :
    askedMoves w e w' + w.round ≤ w'.round + n * renewals w e w' := by
  have hunmoved : w'.policy.moveCount = w.policy.moveCount → askedMoves w e w' = 0 :=
    fun h => if_neg fun hcond => hcond.1 h
  have hrenewed : renewals w e w' ≠ 0 → w.round ≤ w'.round + n * renewals w e w' := fun h =>
    (((round_le w).trans hn).trans (Nat.le_mul_of_pos_right _ (Nat.pos_of_ne_zero h))).trans (Nat.le_add_left _ _)
  cases heffect with
  | quiet h ha =>
    rw [hunmoved h.moveCount, Nat.zero_add]
    exact (round_mono h.selector (by rw [ha]; exact List.Subset.refl _)).trans (Nat.le_add_right _ _)
  | noted h hc ha =>
    rw [hunmoved h.moveCount, Nat.zero_add]
    exact (round_mono h.selector (by rw [ha]; exact subset_addAnswer _ _)).trans (Nat.le_add_right _ _)
  | cleared h =>
    rw [hunmoved h.moveCount, Nat.zero_add]
    by_cases hkept : w.notCaughtUpAnswers ⊆ w'.notCaughtUpAnswers
    · exact (round_mono h.selector hkept).trans (Nat.le_add_right _ _)
    · refine hrenewed ?_
      rw [renewals, if_neg hkept]
      omega
  | merged he hs hs' hsub hsame hp ha =>
    rw [hunmoved (by rw [hp]), Nat.zero_add]
    by_cases hcandidates : w'.candidates = w.candidates
    · refine (round_mono (hs'.trans ?_) (by rw [ha]; exact List.Subset.refl _)).trans (Nat.le_add_right _ _)
      rw [Follower.candidates, Follower.candidates, hs, hs'] at hcandidates
      rw [hsame hcandidates, hs]
    · refine hrenewed ?_
      rw [renewals, if_neg hcandidates]
      omega
  | @moved s reason now hnow hs hadv hs' hlast hcount hreason hdwell hasked =>
    by_cases hbehind : reason = .hub_not_caught_up
    · obtain ⟨-, hanswers, hmissing⟩ := hasked hbehind
      have hone : askedMoves w e w' = 1 := if_pos ⟨by omega, hreason.trans (by rw [hbehind])⟩
      rw [hone]
      exact (round_asked hv hs hadv hs' hanswers hmissing).trans (Nat.le_add_right _ _)
    · have hother : w'.policy.moveReason ≠ some .hub_not_caught_up :=
        fun h => hbehind (Option.some.inj (hreason.symm.trans h))
      have hzero : askedMoves w e w' = 0 := if_neg fun hcond => hother hcond.2
      have hpolicy : policyMoves w e w' = 1 := if_pos ⟨by omega, hother⟩
      rw [hzero, Nat.zero_add]
      refine hrenewed ?_
      rw [renewals, hpolicy]
      omega

theorem candidates_run (hv : w.Valid) (hr : run (step limits pollMode normalizeUrl) w es = some w') :
    w.candidates.length ≤ w'.candidates.length := by
  induction es generalizing w with
  | nil => obtain rfl := Option.some.inj hr; exact le_rfl
  | cons e es ih =>
    obtain ⟨u, hu, hr⟩ := run_cons.mp hr
    have hnodup : w.candidates.Nodup := by
      rw [Follower.candidates]
      cases hs : w.selector with
      | none => exact List.nodup_nil
      | some s => exact (hv s hs).nodup
    exact (List.subperm_of_subset hnodup (candidates_subset hv hu)).length_le.trans (ih (valid_step hv hu) hr)

/-- Hubs that are behind cannot keep a mirror moving: with `n` candidates it makes at most `n - 1` moves for
    that reason, and `n - 1` more for each policy move, each caught-up answer that was forgotten for and each
    hub list that named a new candidate. -/
theorem asked_moves_bounded (hv : w.Valid) (hr : run (step limits pollMode normalizeUrl) w es = some w') :
    tally (step limits pollMode normalizeUrl) askedMoves w es ≤
      (w'.candidates.length - 1) * (1 + tally (step limits pollMode normalizeUrl) renewals w es) := by
  have hpotential : tally (step limits pollMode normalizeUrl) askedMoves w es + w.round ≤
      w'.round + (w'.candidates.length - 1) * tally (step limits pollMode normalizeUrl) renewals w es := by
    refine tally_le hr fun es₁ e es₂ u v hes hu hv' hrest => ?_
    have hvu := valid_run hv hu
    have hfrom : run (step limits pollMode normalizeUrl) u (e :: es₂) = some w' := run_cons.mpr ⟨v, hv', hrest⟩
    have hgrown : u.candidates.length ≤ w'.candidates.length := candidates_run hvu hfrom
    exact round_step hvu (effect_step hvu hv') (Nat.sub_le_sub_right hgrown 1)
  have hlast := round_le w'
  rw [Nat.mul_add, Nat.mul_one]
  omega

/-- Three hubs that are behind: two moves, and the mirror stays. -/
def threeBehind : List (Label Unit) :=
  [.ready none false none none, .bootstrapAll 0, .close false, .ready none false none none, .bootstrapAll 1,
    .close false, .ready none false none none, .bootstrapAll 2]

theorem asked_moves_bounded_three :
    tally (step (createMovePolicy none none 30000) false some) askedMoves (following ["a", "b", "c"]) threeBehind = 2 ∧
      ∃ w', run (step (createMovePolicy none none 30000) false some) (following ["a", "b", "c"]) threeBehind = some w' ∧
        tally (step (createMovePolicy none none 30000) false some) askedMoves (following ["a", "b", "c"]) threeBehind ≤
          (w'.candidates.length - 1) * (1 +
            tally (step (createMovePolicy none none 30000) false some) renewals (following ["a", "b", "c"])
              threeBehind) :=
  ⟨by decide, _, rfl, asked_moves_bounded (valid_following ["a", "b", "c"] (by decide) (by decide)) rfl⟩

/-! ### Serving from a hub that is behind -/

/-- Does the step read whether the hub is caught up? -/
def Follower.gateReads (w : Follower K) : Label K → Bool
  | .bootstrapAll _ => w.bootstrapping.isNone
  | .passEnd _ allDrained marks => w.bootstrapping.any fun pass => w.asks pass allDrained marks
  | _ => false

/-- A gate that reads a hub that is caught up. -/
def caughtUpReads (w : Follower K) (e : Label K) (_ : Follower K) : ℕ :=
  if w.gateReads e && w.sync.readyCaughtUp = some true then 1 else 0

/-- The moves of a step. -/
def allMoves (w : Follower K) (_ : Label K) (w' : Follower K) : ℕ :=
  if w'.policy.moveCount = w.policy.moveCount then 0 else 1

theorem forgets_of_caughtUpReads (h : step limits pollMode normalizeUrl w e = some w')
    (hreads : caughtUpReads w e w' ≠ 0) : w'.notCaughtUpAnswers = [] := by
  rw [caughtUpReads] at hreads
  split_ifs at hreads with hcond
  · simp only [Bool.and_eq_true, decide_eq_true_eq] at hcond
    obtain ⟨hgate, hcaught⟩ := hcond
    cases e with
    | bootstrapAll now =>
      obtain rfl := Option.some.inj h
      have hidle : ¬w.bootstrapping.isSome = true := by simpa [Follower.gateReads] using hgate
      rw [Follower.bootstrapAll, if_neg hidle, Follower.uncaughtUpBlocks, hcaught]
      rfl
    | passEnd now allDrained marks =>
      obtain ⟨pass, hpass, rfl⟩ := Option.map_eq_some_iff.mp h
      have hasks : w.asks pass allDrained marks = true := by simpa [Follower.gateReads, hpass] using hgate
      rw [Follower.passEnd, if_pos hasks, Follower.uncaughtUpBlocks, hcaught]
      dsimp only
      split_ifs <;> rfl
    | connect | ready | close | connectFailure | connected | stall | merge | rest => cases hgate
  · exact (hreads rfl).elim

/-- A wait that stands after a step stood before it, with no move between, or begins with it. -/
def Waits (w : Follower K) (e : Label K) (w' : Follower K) : Prop :=
  ∀ t, w'.notCaughtUpSince = some t → w.notCaughtUpSince = some t ∧ w'.policy.moveCount = w.policy.moveCount ∨
    e.now? = some t ∧ w.sync.readyCaughtUp = some false

theorem waits_moveHub {w₁ : Follower K} (hv : w₁.Valid)
    (hw : ∀ t, w₁.notCaughtUpSince = some t → w.notCaughtUpSince = some t ∧
      w₁.policy.moveCount = w.policy.moveCount ∨ e.now? = some t ∧ w.sync.readyCaughtUp = some false) :
    Waits w e (w₁.moveHub reason now).2 := by
  rcases moveHub_cases hv reason now with hstill | ⟨s, -, -, hmoved⟩
  · rw [hstill]
    exact hw
  · rw [hmoved]
    exact fun t ht => by cases ht

theorem waits_gate (hn : e.now? = some now) : Waits w e (w.uncaughtUpBlocks limits now).2 := by
  intro t
  rw [Follower.uncaughtUpBlocks]
  have hbegins : w.sync.readyCaughtUp = some false → some (w.notCaughtUpSince.getD now) = some t →
      w.notCaughtUpSince = some t ∧ w.policy.moveCount = w.policy.moveCount ∨
        e.now? = some t ∧ w.sync.readyCaughtUp = some false := by
    intro hbehind ht
    cases hsince : w.notCaughtUpSince with
    | none =>
      rw [hsince, Option.getD_none] at ht
      exact Or.inr ⟨hn.trans ht, hbehind⟩
    | some t' =>
      rw [hsince, Option.getD_some] at ht
      exact Or.inl ⟨ht, rfl⟩
  rcases hc : w.sync.readyCaughtUp with _ | _ | _
  · exact fun ht => Or.inl ⟨ht, rfl⟩
  · rw [hc] at hbegins
    dsimp only
    split_ifs
    · exact fun ht => Or.inl ⟨ht, rfl⟩
    · exact hbegins rfl
    · exact hbegins rfl
  · exact fun ht => by cases ht

theorem waits_step (hv : w.Valid) (h : step limits pollMode normalizeUrl w e = some w') : Waits w e w' := by
  have hkept : ∀ {v : Follower K}, v.notCaughtUpSince = w.notCaughtUpSince →
      v.policy.moveCount = w.policy.moveCount → Waits w e v :=
    fun hsince hcount t ht => Or.inl ⟨hsince.symm.trans ht, hcount⟩
  cases e with
  | connect =>
    obtain rfl := Option.some.inj h
    rw [Follower.captureConnectionAddress]
    split_ifs
    · exact hkept rfl rfl
    · exact hkept rfl rfl
  | ready | close | connected =>
    obtain rfl := Option.some.inj h
    exact hkept rfl rfl
  | connectFailure now =>
    obtain rfl := Option.some.inj h
    have hwaits : Waits w (.connectFailure now) (w.noteConnectFailure limits now).2 := by
      rw [Follower.noteConnectFailure]
      split_ifs
      · exact waits_moveHub hv fun t ht => Or.inl ⟨ht, rfl⟩
      · exact fun t ht => Or.inl ⟨ht, rfl⟩
    dsimp only
    split_ifs
    · exact hwaits
    · exact hwaits
  | bootstrapAll now =>
    obtain rfl := Option.some.inj h
    rw [Follower.bootstrapAll]
    split_ifs with hrunning
    · exact hkept rfl rfl
    · have hgate : Waits w (.bootstrapAll now) (w.uncaughtUpBlocks limits now).2 := waits_gate rfl
      have hvg : (w.uncaughtUpBlocks limits now).2.Valid := by
        intro s hs
        rcases uncaughtUpBlocks_cases limits w now with ⟨-, heq⟩ | ⟨since, warned, heq, -⟩
        · rw [heq] at hs; exact hv s hs
        · rw [heq] at hs; exact hv s hs
      dsimp only
      split_ifs
      · generalize (w.uncaughtUpBlocks limits now).2 = u at hgate hvg ⊢
        rw [Follower.rejectUncaughtUpReadyFrame, Follower.noteHubNotCaughtUp]
        dsimp only
        split_ifs
        · exact hgate
        · exact hgate
        · exact hgate
        · exact waits_moveHub hvg hgate
      · exact hgate
  | passEnd now allDrained marks =>
    obtain ⟨pass, -, rfl⟩ := Option.map_eq_some_iff.mp h
    have hgate : Waits w (.passEnd now allDrained marks) ({ w with bootstrapping := none }.uncaughtUpBlocks limits now).2 :=
      waits_gate (w := { w with bootstrapping := none }) rfl
    rw [Follower.passEnd]
    dsimp only
    split_ifs
    · exact hgate
    · exact hgate
    · exact hkept rfl rfl
  | stall now =>
    obtain rfl := Option.some.inj h
    rw [Follower.stallFailoverAction]
    split
    · exact waits_moveHub hv fun t ht => Or.inl ⟨ht, rfl⟩
    · exact hkept rfl rfl
  | merge addresses draw =>
    obtain ⟨s, -, rfl⟩ := Option.map_eq_some_iff.mp h
    exact hkept rfl rfl
  | rest sync =>
    rw [step] at h
    split_ifs at h
    obtain rfl := Option.some.inj h
    exact hkept rfl rfl

/-- The mirror followed `c` while the last ready frame said behind. After a move for another reason that frame
    is the one of the hub it left, until the socket closes. -/
def FollowedBehind (c : String) (w : Follower K) (_ : Label K) : Prop :=
  w.current = some c ∧ w.sync.readyCaughtUp = some false

/-- At time `t` the followed hub was reported behind. -/
def BehindAt (t : ℤ) (w : Follower K) (e : Label K) : Prop :=
  e.now? = some t ∧ w.sync.readyCaughtUp = some false

/-- What the answers and the grace stand for, after a run. -/
structure Ledger (limits : Limits) (pollMode : Bool) (normalizeUrl : String → Option String) (w₀ : Follower K)
    (es : List (Label K)) (w : Follower K) : Prop where
  valid : w.Valid
  answers : ∀ c ∈ w.notCaughtUpAnswers,
    Since (step limits pollMode normalizeUrl) (FollowedBehind c) caughtUpReads w₀ es
  since : ∀ t, w.notCaughtUpSince = some t →
    Since (step limits pollMode normalizeUrl) (BehindAt t) allMoves w₀ es

theorem answers_step (heffect : Effect limits w e w') {c : String} (hc : c ∈ w'.notCaughtUpAnswers) :
    c ∈ w.notCaughtUpAnswers ∨ FollowedBehind c w e := by
  have hnoted : w.sync.readyCaughtUp = some false →
      w'.notCaughtUpAnswers = addAnswer w.notCaughtUpAnswers w.current →
      c ∈ w.notCaughtUpAnswers ∨ FollowedBehind c w e := by
    intro hbehind hanswers
    rw [hanswers] at hc
    cases hcurrent : w.current with
    | none => rw [hcurrent] at hc; exact Or.inl hc
    | some a =>
      rw [hcurrent, addAnswer] at hc
      split_ifs at hc with hmem
      · exact Or.inl hc
      · rcases List.mem_cons.mp hc with rfl | hc
        · exact Or.inr ⟨hcurrent, hbehind⟩
        · exact Or.inl hc
  cases heffect with
  | quiet h ha => exact Or.inl (ha ▸ hc)
  | cleared h hread ha => rw [ha] at hc; exact absurd hc List.not_mem_nil
  | noted h hread ha => exact hnoted hread ha
  | merged he hs hs' hsub hsame hp ha => exact Or.inl (ha ▸ hc)
  | @moved s reason now hn hs hadv hs' hl hcount hr hdwell hasked =>
    by_cases hbehind : reason = .hub_not_caught_up
    · exact hnoted (hasked hbehind).1 (hasked hbehind).2.1
    · exact Or.inl ((hdwell hbehind).2 ▸ hc)

theorem ledger_run {w₀ : Follower K} (hv : w₀.Valid) (hanswers : w₀.notCaughtUpAnswers = [])
    (hsince : w₀.notCaughtUpSince = none) (hr : run (step limits pollMode normalizeUrl) w₀ es = some w) :
    Ledger limits pollMode normalizeUrl w₀ es w := by
  refine run_history (I := Ledger limits pollMode normalizeUrl w₀) ⟨hv, fun c hc => ?_, fun t ht => ?_⟩ ?_ hr
  · rw [hanswers] at hc
    exact absurd hc List.not_mem_nil
  · rw [hsince] at ht
    cases ht
  · intro es u e v hu hledger hs
    refine ⟨valid_step hledger.valid hs, fun c hc => ?_, fun t ht => ?_⟩
    · have hread : caughtUpReads u e v = 0 := by
        by_contra hread
        rw [forgets_of_caughtUpReads hs hread] at hc
        exact absurd hc List.not_mem_nil
      rcases answers_step (effect_step hledger.valid hs) hc with hc | hsaid
      · exact (hledger.answers c hc).keep hu hs hread
      · exact Since.now hu hs hsaid
    · rcases waits_step hledger.valid hs t ht with ⟨ht, hcount⟩ | hbehind
      · exact (hledger.since t ht).keep hu hs (if_pos hcount)
      · exact Since.now hu hs hbehind

/-- A gate that lets a hub that is behind through: it has no other to ask, and it waited. -/
theorem uncaughtUpBlocks_open (hbehind : w.sync.readyCaughtUp = some false)
    (hopen : (w.uncaughtUpBlocks limits now).1 = false) :
    (w.candidateCount < 2 ∨ ∀ c ∈ w.candidates, c ∈ w.notCaughtUpAnswers) ∧
      limits.notCaughtUpGraceMs ≤ now - w.notCaughtUpSince.getD now := by
  rw [Follower.uncaughtUpBlocks, hbehind] at hopen
  dsimp only at hopen
  split_ifs at hopen with hothers hgrace
  refine ⟨?_, not_lt.mp hgrace⟩
  simp only [Bool.and_eq_true, decide_eq_true_eq, Bool.not_eq_true', not_and, Bool.not_eq_false] at hothers
  rcases Nat.lt_or_ge w.candidateCount 2 with hfew | hmany
  · exact Or.inl hfew
  · have hall := hothers hmany
    rw [Follower.allCandidatesNotCaughtUp, Bool.and_eq_true, List.all_eq_true] at hall
    exact Or.inr fun c hc => of_decide_eq_true (hall.2 c hc)

theorem passEnd_policy {pass : ℕ × ℕ} {allDrained : Bool} {marks : List ℤ} :
    (w.passEnd limits pollMode pass now allDrained marks).policy = w.policy := by
  have hgate : ({ w with bootstrapping := none }.uncaughtUpBlocks limits now).2.policy = w.policy := by
    rcases uncaughtUpBlocks_cases limits { w with bootstrapping := none } now with ⟨-, h⟩ | ⟨_, _, h, -⟩ <;> rw [h]
  rw [Follower.passEnd]
  dsimp only
  split_ifs
  · exact hgate
  · exact hgate
  · rfl

/-- A drain over a hub that reports itself behind certifies only where there is nothing better: the mirror has
    one candidate, or it followed every candidate while the last ready frame said behind and no gate has read a
    caught-up hub since; and the mirror has waited the grace out without a move. -/
theorem certified_while_behind {w₀ : Follower K} (hv : w₀.Valid) (hanswers : w₀.notCaughtUpAnswers = [])
    (hsince : w₀.notCaughtUpSince = none) (hr : run (step limits pollMode normalizeUrl) w₀ es = some w)
    (hbehind : w.sync.readyCaughtUp = some false) {allDrained : Bool} {marks : List ℤ}
    (hs : step limits pollMode normalizeUrl w (.passEnd now allDrained marks) = some w')
    (hcertified : w'.sync ≠ w.sync) :
    (w.candidateCount < 2 ∨ ∀ c ∈ w.candidates,
        Since (step limits pollMode normalizeUrl) (FollowedBehind c) caughtUpReads w₀ es) ∧
      ∃ t, limits.notCaughtUpGraceMs ≤ now - t ∧
        Since (step limits pollMode normalizeUrl) (BehindAt t) allMoves w₀ (es ++ [.passEnd now allDrained marks]) := by
  have hledger := ledger_run hv hanswers hsince hr
  have hopen : ({ w with bootstrapping := none }.uncaughtUpBlocks limits now).1 = false := by
    obtain ⟨pass, -, rfl⟩ := Option.map_eq_some_iff.mp hs
    by_contra hblocked
    have hblocked := eq_true_of_ne_false hblocked
    have hsame : ({ w with bootstrapping := none }.uncaughtUpBlocks limits now).2.sync = w.sync := by
      rcases uncaughtUpBlocks_cases limits { w with bootstrapping := none } now with ⟨-, h⟩ | ⟨_, _, h, -⟩ <;> rw [h]
    rw [Follower.passEnd] at hcertified
    dsimp only at hcertified
    split_ifs at hcertified with hasks hgate
    · exact hcertified hsame
    · rw [hblocked, Bool.true_or] at hgate
      exact hgate rfl
    · exact hcertified rfl
  obtain ⟨hothers, hgrace⟩ := uncaughtUpBlocks_open (w := { w with bootstrapping := none }) hbehind hopen
  refine ⟨hothers.imp_right fun hall c hc => hledger.answers c (hall c hc), _, hgrace, ?_⟩
  cases hwait : w.notCaughtUpSince with
  | none =>
    rw [Option.getD_none]
    exact Since.now hr hs ⟨rfl, hbehind⟩
  | some t =>
    have hcount : w'.policy.moveCount = w.policy.moveCount := by
      obtain ⟨pass, -, rfl⟩ := Option.map_eq_some_iff.mp hs
      rw [passEnd_policy]
    rw [Option.getD_some]
    exact (hledger.since t hwait).keep hr hs (if_pos hcount)

/-- Two hubs that are behind; the grace begins at 2000, and the drain is certified at 41000. -/
def behindRun : List (Label Unit) :=
  [.ready none false none none, .bootstrapAll 0, .close false, .ready none false none none, .bootstrapAll 1000,
    .close false, .ready none false none none, .bootstrapAll 2000, .close false, .ready none false none none,
    .bootstrapAll 40000, .rest { wsEpoch := 3, selectorRevision := 1, readyCaughtUp := some false }]

theorem certified_while_behind_two : ∃ w w',
    run (step (createMovePolicy none none 30000) false some) (following ["a", "b"]) behindRun = some w ∧
      step (createMovePolicy none none 30000) false some w (.passEnd 41000 true [5]) = some w' ∧
      (w.candidateCount < 2 ∨ ∀ c ∈ w.candidates,
        Since (step (createMovePolicy none none 30000) false some) (FollowedBehind c) caughtUpReads
          (following ["a", "b"]) behindRun) ∧
      ∃ t, 30000 ≤ 41000 - t ∧ Since (step (createMovePolicy none none 30000) false some) (BehindAt t) allMoves
        (following ["a", "b"]) (behindRun ++ [.passEnd 41000 true [5]]) :=
  ⟨_, _, rfl, rfl, certified_while_behind (valid_following ["a", "b"] (by decide) (by decide)) rfl rfl rfl rfl rfl
    fun h => absurd (congrArg Sync.bootstrapDrained h) (by decide)⟩

end HubFailover
