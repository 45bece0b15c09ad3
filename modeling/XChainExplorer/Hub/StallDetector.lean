import XChainExplorer.Lib.PausedClock
import XChainExplorer.Lib.Tally
import Mathlib.Data.Finset.Basic

/-! # The watermark stall detector

    A mirror whose hub runs ahead while its own watermark stands still is resynced once, and when that did
    not help it leaves the hub or the process. Disconnected and bootstrapping time does not count: the
    stamps are moved forward when the last reason to pause is gone. Every step carries the time its clock
    gave; a run is one whose clock never goes back. -/

namespace StallDetector

open PausedClock Runs

/-- The four stamps, by the fields that hold them. -/
inductive Stamp where
  | lastWatermarkAdvanceAt
  | heightsLastAdvanceAt
  | watermarkStallResyncAt
  | stallSeenProgressAt
  deriving DecidableEq

/-- Why the watermark cannot be expected to advance. -/
inductive PauseReason where
  | disconnected
  | bootstrap
  deriving DecidableEq

/-- What a sample of the detector asks for. -/
inductive Verdict where
  | ok
  | paused
  | draining
  | resync
  | exit
  deriving DecidableEq

/-- How long the watermark may stand still before a resync, and after it before the process ends. -/
structure Limits where
  watermarkStallMs : ℤ
  watermarkStallExitMs : ℤ

/-- What the detector knows. -/
structure Detector where
  running : Bool := false
  pollMode : Bool := false
  schemaMismatchSeen : Bool := false
  streamWatermark : ℤ := 0
  hubTipTs : ℤ := 0
  /-- Some height comparison this node made is still short. -/
  heightsShort : Bool := false
  bootstrapping : Bool := false
  bootstrapProgressTicks : ℕ := 0
  stallSeenProgressTicks : Option ℕ := none
  pauseReasons : Finset PauseReason := ∅
  clock : Clock Stamp := {}

/-! ### The verdict -/

/-- The watermark is behind the hub's tip. -/
def Detector.tsFrozen (d : Detector) : Bool :=
  (d.clock.stamps .lastWatermarkAdvanceAt).isSome && d.streamWatermark < d.hubTipTs

/-- A height is behind the hub's. -/
def Detector.heightFrozen (d : Detector) : Bool :=
  (d.clock.stamps .heightsLastAdvanceAt).isSome && d.heightsShort

/-- `Math.min` over the stamps of the frozen axes. -/
def Detector.frozenSince (d : Detector) : Option ℤ :=
  let ts := if d.tsFrozen then d.clock.stamps .lastWatermarkAdvanceAt else none
  let heights := if d.heightFrozen then d.clock.stamps .heightsLastAdvanceAt else none
  match ts, heights with
  | some a, some b => some (min a b)
  | a, b => a <|> b

/-- Stage 1 measures from the last advance, stage 2 from the remedy. -/
def watermarkStallVerdict (limits : Limits) (d : Detector) (now : ℤ) : Verdict :=
  if limits.watermarkStallMs ≤ 0 then .ok
  else if d.pollMode || d.schemaMismatchSeen then .ok
  else match d.frozenSince with
    | none => .ok
    | some since => match d.clock.stamps .watermarkStallResyncAt with
      | none => if limits.watermarkStallMs ≤ now - since then .resync else .ok
      | some resyncAt =>
        if limits.watermarkStallExitMs ≤ 0 then .ok
        else if limits.watermarkStallExitMs ≤ now - resyncAt then .exit else .ok

/-- A bootstrap that moved within the window; its progress is timed from the sample that first saw it. -/
def Detector.drainProgressing (limits : Limits) (d : Detector) (now : ℤ) : Bool × Detector :=
  if !d.bootstrapping then (false, d)
  else
    let d := if d.stallSeenProgressTicks ≠ some d.bootstrapProgressTicks then
        { d with
          stallSeenProgressTicks := some d.bootstrapProgressTicks, clock := d.clock.set .stallSeenProgressAt now }
      else d
    match d.clock.stamps .stallSeenProgressAt with
    | none => (false, d)
    | some seen => (now - seen < limits.watermarkStallMs, d)

/-- One sample. The remedies themselves are other steps. -/
def Detector.checkWatermarkStall (limits : Limits) (d : Detector) (now : ℤ) : Verdict × Detector :=
  if !d.running then (.ok, d)
  else if d.pauseReasons ≠ ∅ && !d.bootstrapping then (.paused, d)
  else
    let verdict := watermarkStallVerdict limits d now
    if verdict = .ok then (.ok, d)
    else
      let progress := d.drainProgressing limits now
      if progress.1 then (.draining, progress.2)
      else (verdict, { progress.2 with clock := progress.2.clock.set .watermarkStallResyncAt now })

/-! ### What it watches -/

/-- A watermark that moves forward ends the stall. -/
def Detector.advanceWatermark (d : Detector) (ts now : ℤ) : Detector :=
  if ts ≤ d.streamWatermark then d
  else { d with
    streamWatermark := ts
    clock := (d.clock.set .lastWatermarkAdvanceAt now).clear .watermarkStallResyncAt }

/-- A usable heights map: whether an entry advanced, and what is short after it. -/
def Detector.noteHeights (d : Detector) (advanced short : Bool) (now : ℤ) : Detector :=
  { d with
    heightsShort := short
    clock := if advanced || (d.clock.stamps .heightsLastAdvanceAt).isNone then
        d.clock.set .heightsLastAdvanceAt now
      else d.clock }

/-- The newest time the hub spoke of. -/
def Detector.noteHubTip (d : Detector) (ts : ℤ) : Detector :=
  if d.hubTipTs < ts then { d with hubTipTs := ts } else d

/-- The first reason stops the clock. -/
def Detector.pauseWatermarkStall (d : Detector) (reason : PauseReason) (now : ℤ) : Detector :=
  { d with
    clock := if d.pauseReasons = ∅ then { d.clock with pausedAt := some now } else d.clock
    pauseReasons := insert reason d.pauseReasons }

/-- The last reason gone starts it again. -/
def Detector.resumeWatermarkStall (d : Detector) (reason : PauseReason) (now : ℤ) : Detector :=
  let d := { d with pauseReasons := d.pauseReasons.erase reason }
  if d.pauseReasons ≠ ∅ then d else { d with clock := d.clock.resume now }

/-- What reaches the detector. -/
inductive Action where
  | run (running : Bool)
  | mode (pollMode schemaMismatch : Bool)
  | advance (ts : ℤ)
  | heights (advanced short : Bool)
  /-- A height comparison of a barrier. -/
  | compare (short : Bool)
  | tip (ts : ℤ)
  | close
  | ready
  | bootstrapBegin
  | bootstrapEnd
  | progress
  | sample

/-- What it makes of it. -/
def Detector.act (limits : Limits) (d : Detector) (now : ℤ) : Action → Detector
  | .run running => { d with running := running }
  | .mode pollMode schemaMismatch => { d with pollMode := pollMode, schemaMismatchSeen := schemaMismatch }
  | .advance ts => d.advanceWatermark ts now
  | .heights advanced short => d.noteHeights advanced short now
  | .compare short => { d with heightsShort := short }
  | .tip ts => d.noteHubTip ts
  | .close => d.pauseWatermarkStall .disconnected now
  | .ready => d.resumeWatermarkStall .disconnected now
  | .bootstrapBegin => if d.bootstrapping then d else { d with bootstrapping := true }.pauseWatermarkStall .bootstrap now
  | .bootstrapEnd => if d.bootstrapping then { d with bootstrapping := false }.resumeWatermarkStall .bootstrap now else d
  | .progress => { d with bootstrapProgressTicks := d.bootstrapProgressTicks + 1 }
  | .sample => (d.checkWatermarkStall limits now).2

/-! ### What really happened -/

/-- Does the sample ask whether the drain moves? -/
def Detector.suspects (limits : Limits) (d : Detector) (now : ℤ) : Bool :=
  d.running && !(d.pauseReasons ≠ ∅ && !d.bootstrapping) && watermarkStallVerdict limits d now ≠ .ok

/-- Does the sample time the drain's progress from now on? -/
def Detector.seesProgress (limits : Limits) (d : Detector) (now : ℤ) : Bool :=
  d.suspects limits now && d.bootstrapping && d.stallSeenProgressTicks ≠ some d.bootstrapProgressTicks

/-- Does the sample take a remedy? -/
def Detector.remedies (limits : Limits) (d : Detector) (now : ℤ) : Bool :=
  d.suspects limits now && !(d.drainProgressing limits now).1

/-- The same step in the journal: what was set and cleared, and the pause that ended. -/
def Detector.record (limits : Limits) (d : Detector) (j : Journal Stamp) (now : ℤ) : Action → Journal Stamp
  | .advance ts =>
    if ts ≤ d.streamWatermark then j else (j.set .lastWatermarkAdvanceAt now).clear .watermarkStallResyncAt
  | .heights advanced _ =>
    if advanced || (d.clock.stamps .heightsLastAdvanceAt).isNone then j.set .heightsLastAdvanceAt now else j
  | .ready => if d.pauseReasons.erase .disconnected ≠ ∅ then j else j.resume d.clock now
  | .bootstrapEnd =>
    if !d.bootstrapping || d.pauseReasons.erase .bootstrap ≠ ∅ then j else j.resume d.clock now
  | .sample =>
    let j := if d.seesProgress limits now then j.set .stallSeenProgressAt now else j
    if d.remedies limits now then j.set .watermarkStallResyncAt now else j
  | _ => j

/-- The detector, the journal of its events and the time. -/
structure World where
  detector : Detector := {}
  journal : Journal Stamp := {}
  now : ℤ

/-- The clock never goes back. -/
def step (limits : Limits) (w : World) (e : ℤ × Action) : Option World :=
  if w.now ≤ e.1 then
    some ⟨w.detector.act limits e.1 e.2, w.detector.record limits w.journal e.1 e.2, e.1⟩
  else none

variable {limits : Limits} {d : Detector} {j : Journal Stamp} {now later : ℤ}

/-- The pause stands as long as there is a reason for it. -/
structure Holds (d : Detector) (j : Journal Stamp) (now : ℤ) : Prop where
  tracks : Tracks d.clock j now
  paused : d.clock.pausedAt = none ↔ d.pauseReasons = ∅

theorem Holds.pause (h : Holds d j now) (reason : PauseReason) :
    Holds (d.pauseWatermarkStall reason now) j now := by
  have hclock : (d.pauseWatermarkStall reason now).clock = d.clock.pause now := by
    rw [Detector.pauseWatermarkStall, Clock.pause]
    dsimp only
    split_ifs with hnone
    · rw [h.paused.mpr hnone]; rfl
    · obtain ⟨p, hp⟩ := Option.ne_none_iff_exists'.mp fun hno => hnone (h.paused.mp hno)
      cases hc : d.clock with
      | mk stamps pausedAt =>
        rw [hc] at hp
        obtain rfl : pausedAt = some p := hp
        rfl
  refine ⟨hclock ▸ h.tracks.pause, ?_⟩
  rw [hclock, Clock.pause]
  have hsome : (insert reason d.pauseReasons : Finset PauseReason) ≠ ∅ := Finset.insert_ne_empty _ _
  cases hp : d.clock.pausedAt with
  | none => exact iff_of_false (by simp) hsome
  | some p => exact iff_of_false (by simp) hsome

theorem Holds.resume (h : Holds d j now) (reason : PauseReason) :
    Holds (d.resumeWatermarkStall reason now)
      (if d.pauseReasons.erase reason ≠ ∅ then j else j.resume d.clock now) now := by
  rw [Detector.resumeWatermarkStall]
  dsimp only
  split_ifs with hmore
  · refine ⟨h.tracks, h.paused.trans (iff_of_false (fun hnone => hmore ?_) hmore)⟩
    rw [hnone, Finset.erase_empty]
  · refine ⟨h.tracks.resume, iff_of_true ?_ (not_not.mp hmore)⟩
    rw [Clock.resume]
    cases hp : d.clock.pausedAt with
    | none => exact hp
    | some p => rfl

theorem Holds.set (h : Holds d j now) (i : Stamp) : Holds { d with clock := d.clock.set i now } (j.set i now) now :=
  ⟨h.tracks.set i, h.paused⟩

/-- Only the clock and the reasons count. -/
theorem Holds.congr {d' : Detector} (h : Holds d j now) (hc : d'.clock = d.clock)
    (hp : d'.pauseReasons = d.pauseReasons) : Holds d' j now :=
  ⟨hc ▸ h.tracks, by rw [hc, hp]; exact h.paused⟩

theorem drainProgressing_eq (hb : d.bootstrapping = true) :
    (d.drainProgressing limits now).2 =
      if d.stallSeenProgressTicks ≠ some d.bootstrapProgressTicks then
        { d with
          stallSeenProgressTicks := some d.bootstrapProgressTicks, clock := d.clock.set .stallSeenProgressAt now }
      else d := by
  rw [Detector.drainProgressing, if_neg (by simp [hb])]
  dsimp only
  split <;> rfl

/-- What a sample does to the detector. -/
theorem sample_cases (limits : Limits) (d : Detector) (now : ℤ) :
    (d.suspects limits now = false ∧ (d.checkWatermarkStall limits now).2 = d ∧
        (d.checkWatermarkStall limits now).1 = (if d.running && (d.pauseReasons ≠ ∅ && !d.bootstrapping) then .paused
          else .ok)) ∨
      (d.suspects limits now = true ∧ (d.checkWatermarkStall limits now) =
        if (d.drainProgressing limits now).1 then (.draining, (d.drainProgressing limits now).2)
        else (watermarkStallVerdict limits d now, { (d.drainProgressing limits now).2 with
          clock := (d.drainProgressing limits now).2.clock.set .watermarkStallResyncAt now })) := by
  rw [Detector.suspects, Detector.checkWatermarkStall]
  cases hrun : d.running with
  | false => exact Or.inl ⟨rfl, rfl, rfl⟩
  | true =>
    cases hpaused : (d.pauseReasons ≠ ∅ && !d.bootstrapping : Bool) with
    | true => exact Or.inl ⟨rfl, rfl, rfl⟩
    | false =>
      by_cases hok : watermarkStallVerdict limits d now = .ok
      · refine Or.inl ⟨by simp [hok], ?_, ?_⟩ <;> simp [hok]
      · refine Or.inr ⟨by simp [hok], ?_⟩
        simp only [Bool.not_true, Bool.false_eq_true, if_false, if_neg hok]

theorem Holds.sample (h : Holds d j now) :
    Holds (d.checkWatermarkStall limits now).2 (d.record limits j now .sample) now := by
  rcases sample_cases limits d now with ⟨hno, hsame, -⟩ | ⟨hyes, heq⟩
  · have hseen : d.seesProgress limits now = false := by rw [Detector.seesProgress, hno]; rfl
    have hremedy : d.remedies limits now = false := by rw [Detector.remedies, hno]; rfl
    rw [hsame, Detector.record, hseen, hremedy]
    exact h
  · have hprogress : Holds (d.drainProgressing limits now).2
        (if d.seesProgress limits now then j.set .stallSeenProgressAt now else j) now := by
      cases hb : d.bootstrapping with
      | false =>
        have hseen : d.seesProgress limits now = false := by
          rw [Detector.seesProgress, hb, Bool.and_false, Bool.false_and]
        rw [hseen, Detector.drainProgressing, hb]
        exact h
      | true =>
        have hseen : d.seesProgress limits now = decide (d.stallSeenProgressTicks ≠ some d.bootstrapProgressTicks) := by
          rw [Detector.seesProgress, hyes, hb, Bool.true_and, Bool.true_and]
        rw [hseen, drainProgressing_eq hb]
        by_cases hticks : d.stallSeenProgressTicks ≠ some d.bootstrapProgressTicks
        · rw [if_pos hticks, if_pos (decide_eq_true hticks)]
          exact (h.set .stallSeenProgressAt).congr rfl rfl
        · rw [if_neg hticks, if_neg (by simpa using hticks)]
          exact h
    rw [heq, Detector.record, Detector.remedies, hyes]
    cases hmoves : (d.drainProgressing limits now).1 with
    | true => exact hprogress
    | false => exact hprogress.set .watermarkStallResyncAt

theorem Holds.act (h : Holds d j now) (a : Action) : Holds (d.act limits now a) (d.record limits j now a) now := by
  cases a with
  | run | mode | compare | progress => exact h.congr rfl rfl
  | tip ts =>
    rw [Detector.act, Detector.noteHubTip]
    split_ifs
    · exact h.congr rfl rfl
    · exact h
  | advance ts =>
    rw [Detector.act, Detector.advanceWatermark, Detector.record]
    split_ifs
    · exact h
    · exact ⟨(h.tracks.set _).clear _, h.paused⟩
  | heights advanced short =>
    rw [Detector.act, Detector.noteHeights, Detector.record]
    split_ifs
    · exact (h.set .heightsLastAdvanceAt).congr rfl rfl
    · exact h.congr rfl rfl
  | close => exact h.pause .disconnected
  | ready => exact h.resume .disconnected
  | bootstrapBegin =>
    rw [Detector.act]
    split_ifs
    · exact h
    · have hsame : Holds { d with bootstrapping := true } j now := h.congr rfl rfl
      exact hsame.pause .bootstrap
  | bootstrapEnd =>
    rw [Detector.act, Detector.record]
    cases hb : d.bootstrapping with
    | false => exact h
    | true =>
      have hsame : Holds { d with bootstrapping := false } j now := h.congr rfl rfl
      have hresume := hsame.resume .bootstrap
      simpa using hresume
  | sample => exact h.sample

/-- In every run the journal tells what the stamps are worth. -/
theorem holds_run {start : ℤ} {es : List (ℤ × Action)} {w : World}
    (hr : run (step limits) ⟨{}, {}, start⟩ es = some w) : Holds w.detector w.journal w.now := by
  refine run_inv' (I := fun w => Holds w.detector w.journal w.now) (fun u e v hu hs => ?_) ?_ hr
  · rw [step] at hs
    split_ifs at hs with hclock
    obtain rfl := Option.some.inj hs
    exact (Holds.act ⟨hu.tracks.wait hclock, hu.paused⟩ e.2)
  · exact ⟨Tracks.start, by simp⟩

/-! ### The same detector without stamps -/

/-- How long each frozen axis has been silent, the pauses that began since and are over left out. -/
def Detector.silences (d : Detector) (j : Journal Stamp) (now : ℤ) : List ℤ :=
  (if d.streamWatermark < d.hubTipTs then (j.silence .lastWatermarkAdvanceAt now).toList else []) ++
    (if d.heightsShort then (j.silence .heightsLastAdvanceAt now).toList else [])

/-- A frozen axis silent for the window asks for the remedy; a remedy as long ago asks for the exit. -/
def plainVerdict (limits : Limits) (d : Detector) (j : Journal Stamp) (now : ℤ) : Verdict :=
  if limits.watermarkStallMs ≤ 0 || d.pollMode || d.schemaMismatchSeen || d.silences j now = [] then .ok
  else match j.silence .watermarkStallResyncAt now with
    | none => if (d.silences j now).any (limits.watermarkStallMs ≤ ·) then .resync else .ok
    | some silence => if 0 < limits.watermarkStallExitMs && limits.watermarkStallExitMs ≤ silence then .exit else .ok

/-- A bootstrap whose progress counter moved since the last look, or less than a window ago. -/
def plainProgress (limits : Limits) (d : Detector) (j : Journal Stamp) (now : ℤ) : Bool :=
  d.bootstrapping && (d.stallSeenProgressTicks ≠ some d.bootstrapProgressTicks ||
    (j.silence .stallSeenProgressAt now).any (· < limits.watermarkStallMs))

/-- The verdict, from the journal alone. -/
def plainSample (limits : Limits) (d : Detector) (j : Journal Stamp) (now : ℤ) : Verdict :=
  if !d.running then .ok
  else if d.pauseReasons ≠ ∅ && !d.bootstrapping then .paused
  else if plainVerdict limits d j now = .ok then .ok
  else if plainProgress limits d j now then .draining
  else plainVerdict limits d j now

theorem silences_eq (h : Tracks d.clock j later) (now : ℤ) : d.silences j now =
    (if d.tsFrozen then (d.clock.stamps .lastWatermarkAdvanceAt).toList.map (now - ·) else []) ++
      (if d.heightFrozen then (d.clock.stamps .heightsLastAdvanceAt).toList.map (now - ·) else []) := by
  rw [Detector.silences, ← h.silence, ← h.silence, Clock.silence, Clock.silence, Detector.tsFrozen, Detector.heightFrozen]
  cases d.clock.stamps .lastWatermarkAdvanceAt <;> cases d.clock.stamps .heightsLastAdvanceAt <;> simp

/-- The stamps that count are those of the frozen axes, and the earliest one is the longest silence. -/
theorem frozenSince_silences (h : Tracks d.clock j later) (now : ℤ) :
    (d.frozenSince = none ∧ d.silences j now = []) ∨ ∃ since, d.frozenSince = some since ∧ d.silences j now ≠ [] ∧
      ∀ window, (d.silences j now).any (window ≤ ·) = decide (window ≤ now - since) := by
  have hsome : ∀ {i : Stamp} {b : Bool}, ((d.clock.stamps i).isSome && b) = true → ∃ a, d.clock.stamps i = some a :=
    fun hand => Option.isSome_iff_exists.mp (Bool.and_eq_true_iff.mp hand).1
  rw [Detector.frozenSince, silences_eq h now]
  cases hts : d.tsFrozen <;> cases hheight : d.heightFrozen
  · exact Or.inl ⟨rfl, rfl⟩
  · obtain ⟨b, hb⟩ := hsome hheight
    exact Or.inr ⟨b, by simp [hb]⟩
  · obtain ⟨a, ha⟩ := hsome hts
    exact Or.inr ⟨a, by simp [ha]⟩
  · obtain ⟨a, ha⟩ := hsome hts
    obtain ⟨b, hb⟩ := hsome hheight
    refine Or.inr ⟨min a b, by simp [ha, hb], by simp [ha, hb], fun window => ?_⟩
    simp only [ha, hb, if_true, Option.toList_some, List.map_cons, List.map_nil, List.singleton_append,
      List.any_cons, List.any_nil, Bool.or_false]
    rw [← Bool.decide_or]
    exact decide_eq_decide.mpr (by omega)

theorem verdict_eq_plain (limits : Limits) (h : Tracks d.clock j later) (now : ℤ) :
    watermarkStallVerdict limits d now = plainVerdict limits d j now := by
  have hresync : j.silence .watermarkStallResyncAt now =
      (d.clock.stamps .watermarkStallResyncAt).map (now - ·) := (h.silence _ now).symm
  rw [watermarkStallVerdict, plainVerdict]
  by_cases hwindow : limits.watermarkStallMs ≤ 0
  · simp [hwindow]
  cases hmode : (d.pollMode || d.schemaMismatchSeen)
  swap
  · simp [hwindow, hmode]
  rw [if_neg hwindow, if_neg (by simp)]
  rcases frozenSince_silences h now with ⟨hnone, hempty⟩ | ⟨since, hf, hne, hany⟩
  · rw [hnone]
    simp [hempty]
  · have hcond : ¬(decide (limits.watermarkStallMs ≤ 0) || d.pollMode || d.schemaMismatchSeen ||
        decide (d.silences j now = [])) = true := by
      rw [Bool.or_assoc (decide _), hmode]
      simp [hwindow, hne]
    rw [hf, if_neg hcond, hresync]
    cases d.clock.stamps .watermarkStallResyncAt with
    | none =>
      dsimp only [Option.map_none]
      rw [hany]
      simp
    | some resyncAt =>
      dsimp only [Option.map_some]
      by_cases hexit : limits.watermarkStallExitMs ≤ 0
      · simp [hexit, not_lt.mpr hexit]
      · simp [hexit, not_le.mp hexit]

theorem progress_eq_plain (h : Tracks d.clock j later) (hwindow : 0 < limits.watermarkStallMs) (now : ℤ) :
    (d.drainProgressing limits now).1 = plainProgress limits d j now := by
  have hseen : j.silence .stallSeenProgressAt now = (d.clock.stamps .stallSeenProgressAt).map (now - ·) :=
    (h.silence _ now).symm
  rw [Detector.drainProgressing, plainProgress, hseen]
  cases hb : d.bootstrapping with
  | false => rfl
  | true =>
    rw [if_neg (by simp)]
    by_cases hticks : d.stallSeenProgressTicks ≠ some d.bootstrapProgressTicks
    · simp [hticks, Clock.set, hwindow]
    · simp only [hticks, if_false, decide_false, Bool.false_or, Bool.true_and]
      cases d.clock.stamps .stallSeenProgressAt <;> rfl

/-- What a sample comes to, read off the journal. -/
theorem checkWatermarkStall_fst (h : Tracks d.clock j later) (now : ℤ) :
    (d.checkWatermarkStall limits now).1 = plainSample limits d j now := by
  have hverdict := verdict_eq_plain limits h now
  rw [Detector.checkWatermarkStall, plainSample]
  by_cases hrun : (!d.running) = true
  · rw [if_pos hrun, if_pos hrun]
  rw [if_neg hrun, if_neg hrun]
  by_cases hpaused : (d.pauseReasons ≠ ∅ && !d.bootstrapping : Bool) = true
  · rw [if_pos hpaused, if_pos hpaused]
  rw [if_neg hpaused, if_neg hpaused]
  dsimp only
  rw [hverdict]
  by_cases hok : plainVerdict limits d j now = .ok
  · rw [if_pos hok, if_pos hok]
  have hwindow : 0 < limits.watermarkStallMs := by
    by_contra hno
    refine hok ?_
    rw [plainVerdict, if_pos (by simp [not_lt.mp hno])]
  rw [if_neg hok, if_neg hok, progress_eq_plain h hwindow]
  split_ifs <;> rfl

/-- Over every run whose clock never goes back, a sample of the moved stamps gives the verdict of a detector
    that measures each silence directly: the time since the event, less the pauses that began since and are over.
    A pause that still runs counts as silence. -/
theorem sample_eq_plain {start : ℤ} {es : List (ℤ × Action)} {w : World}
    (hr : run (step limits) ⟨{}, {}, start⟩ es = some w) (now : ℤ) :
    (w.detector.checkWatermarkStall limits now).1 = plainSample limits w.detector w.journal now :=
  checkWatermarkStall_fst (holds_run hr).tracks now

/-- A hub that runs ahead while the mirror stands still, through a disconnect of 490 seconds. -/
def frozenRun : List (ℤ × Action) :=
  [(0, .run true), (0, .advance 100), (1000, .tip 200), (10000, .close), (500000, .ready), (600000, .sample)]

/-- The world after a run, which is the first one where the run does not go through. -/
def after (limits : Limits) (es : List (ℤ × Action)) : World :=
  (run (step limits) ⟨{}, {}, 0⟩ es).getD ⟨{}, {}, 0⟩

theorem run_after {limits : Limits} {es : List (ℤ × Action)}
    (h : (run (step limits) ⟨{}, {}, 0⟩ es).isSome = true) : run (step limits) ⟨{}, {}, 0⟩ es = some (after limits es) := by
  obtain ⟨w, hw⟩ := Option.isSome_iff_exists.mp h
  rw [after, hw, Option.getD_some]

/-- Ten minutes of silence are up at 1090000, not at 600000. -/
theorem sample_eq_plain_frozen :
    ((after ⟨600000, 300000⟩ frozenRun).detector.checkWatermarkStall ⟨600000, 300000⟩ 1090000).1 =
        plainSample ⟨600000, 300000⟩ (after ⟨600000, 300000⟩ frozenRun).detector
          (after ⟨600000, 300000⟩ frozenRun).journal 1090000 ∧
      plainSample ⟨600000, 300000⟩ (after ⟨600000, 300000⟩ frozenRun).detector
          (after ⟨600000, 300000⟩ frozenRun).journal 600000 = .ok ∧
      plainSample ⟨600000, 300000⟩ (after ⟨600000, 300000⟩ frozenRun).detector
          (after ⟨600000, 300000⟩ frozenRun).journal 1090000 = .resync :=
  ⟨sample_eq_plain (run_after (by decide)) 1090000, by decide, by decide⟩

/-! ### One remedy for each freeze -/

variable {u v w : World} {e : ℤ × Action} {es : List (ℤ × Action)} {start : ℤ}

/-- A sample's verdict, and none for another step. -/
def verdictOf (limits : Limits) (u : World) (e : ℤ × Action) : Option Verdict :=
  match e.2 with
  | .sample => some (u.detector.checkWatermarkStall limits e.1).1
  | _ => none

/-- A step whose verdict is a resync. -/
def resyncs (limits : Limits) (u : World) (e : ℤ × Action) (_ : World) : ℕ :=
  if verdictOf limits u e = some .resync then 1 else 0

/-- A step that moves the watermark. -/
def advances (u : World) (_ : ℤ × Action) (v : World) : ℕ :=
  if v.detector.streamWatermark = u.detector.streamWatermark then 0 else 1

theorem remedies_iff (limits : Limits) (d : Detector) (now : ℤ) : d.remedies limits now = true ↔
    (d.checkWatermarkStall limits now).1 = .resync ∨ (d.checkWatermarkStall limits now).1 = .exit := by
  have hverdict : watermarkStallVerdict limits d now = .ok ∨ watermarkStallVerdict limits d now = .resync ∨
      watermarkStallVerdict limits d now = .exit := by
    rw [watermarkStallVerdict]
    split
    · exact Or.inl rfl
    split
    · exact Or.inl rfl
    split
    · exact Or.inl rfl
    split
    · split
      · exact Or.inr (Or.inl rfl)
      · exact Or.inl rfl
    · split
      · exact Or.inl rfl
      · split
        · exact Or.inr (Or.inr rfl)
        · exact Or.inl rfl
  rw [Detector.remedies]
  rcases sample_cases limits d now with ⟨hno, -, hquiet⟩ | ⟨hyes, heq⟩
  · rw [hno, hquiet]
    split_ifs <;> simp
  · rw [hyes, heq]
    have hsuspects : watermarkStallVerdict limits d now ≠ .ok := by
      rw [Detector.suspects, Bool.and_eq_true] at hyes
      exact of_decide_eq_true hyes.2
    cases (d.drainProgressing limits now).1 with
    | true => simp
    | false => simpa using hverdict.resolve_left hsuspects

/-- Stage 1 is taken only with no remedy outstanding. -/
theorem resync_none (h : (d.checkWatermarkStall limits now).1 = .resync) :
    d.clock.stamps .watermarkStallResyncAt = none := by
  rcases sample_cases limits d now with ⟨-, -, hquiet⟩ | ⟨-, heq⟩
  · rw [hquiet] at h
    split_ifs at h
  · rw [heq] at h
    cases hprogress : (d.drainProgressing limits now).1 with
    | true => rw [hprogress] at h; cases h
    | false =>
      rw [hprogress] at h
      have h : watermarkStallVerdict limits d now = .resync := h
      cases hresync : d.clock.stamps .watermarkStallResyncAt with
      | none => rfl
      | some resyncAt =>
        rw [watermarkStallVerdict, hresync] at h
        split at h
        · cases h
        split at h
        · cases h
        split at h
        · cases h
        dsimp only at h
        split at h
        · cases h
        · split at h <;> cases h

/-- What a step does to the note of an outstanding remedy. -/
theorem remedy_record (limits : Limits) (d : Detector) (j : Journal Stamp) (now : ℤ) (a : Action) :
    (d.record limits j now a).setAt .watermarkStallResyncAt = j.setAt .watermarkStallResyncAt ∧
        (a = .sample → d.remedies limits now = false) ∧
        (d.act limits now a).streamWatermark = d.streamWatermark ∨
      (d.record limits j now a).setAt .watermarkStallResyncAt = none ∧
        (d.act limits now a).streamWatermark ≠ d.streamWatermark ∧ a ≠ .sample ∨
      (d.record limits j now a).setAt .watermarkStallResyncAt = some now ∧ a = .sample ∧
        d.remedies limits now = true ∧ (d.act limits now a).streamWatermark = d.streamWatermark := by
  cases a with
  | run | mode | compare | close | progress => exact Or.inl ⟨rfl, (by simp), rfl⟩
  | tip ts =>
    refine Or.inl ⟨rfl, (by simp), ?_⟩
    rw [Detector.act, Detector.noteHubTip]
    split_ifs <;> rfl
  | bootstrapBegin =>
    refine Or.inl ⟨rfl, (by simp), ?_⟩
    rw [Detector.act]
    split_ifs <;> rfl
  | advance ts =>
    rw [Detector.record, Detector.act, Detector.advanceWatermark]
    split_ifs with hold
    · exact Or.inl ⟨rfl, (by simp), rfl⟩
    · refine Or.inr (Or.inl ⟨by simp [Journal.clear], ?_, by simp⟩)
      dsimp only
      omega
  | heights advanced short =>
    refine Or.inl ⟨?_, (by simp), rfl⟩
    rw [Detector.record]
    split_ifs
    · simp [Journal.set]
    · rfl
  | ready =>
    refine Or.inl ⟨?_, (by simp), ?_⟩
    · rw [Detector.record]
      split_ifs
      · rfl
      · rw [Journal.resume]
        split <;> rfl
    · rw [Detector.act, Detector.resumeWatermarkStall]
      dsimp only
      split_ifs <;> rfl
  | bootstrapEnd =>
    refine Or.inl ⟨?_, (by simp), ?_⟩
    · rw [Detector.record]
      split_ifs
      · rfl
      · rw [Journal.resume]
        split <;> rfl
    · rw [Detector.act]
      split_ifs
      · rw [Detector.resumeWatermarkStall]
        dsimp only
        split_ifs <;> rfl
      · rfl
  | sample =>
    have hwatermark : (d.act limits now .sample).streamWatermark = d.streamWatermark := by
      have hprogress : (d.drainProgressing limits now).2.streamWatermark = d.streamWatermark := by
        cases hb : d.bootstrapping with
        | false => rw [Detector.drainProgressing, if_pos (by simp [hb])]
        | true => rw [drainProgressing_eq hb]; split_ifs <;> rfl
      rw [Detector.act]
      rcases sample_cases limits d now with ⟨-, hsame, -⟩ | ⟨-, heq⟩
      · rw [hsame]
      · rw [heq]
        split_ifs
        · exact hprogress
        · exact hprogress
    rw [Detector.record]
    cases hremedy : d.remedies limits now with
    | true => exact Or.inr (Or.inr ⟨by simp [Journal.set], rfl, rfl, hwatermark⟩)
    | false =>
      refine Or.inl ⟨?_, fun _ => rfl, hwatermark⟩
      rw [if_neg Bool.false_ne_true]
      split_ifs
      · simp [Journal.set]
      · rfl

theorem step_eq (hs : step limits u e = some v) : u.now ≤ e.1 ∧
    v = ⟨u.detector.act limits e.1 e.2, u.detector.record limits u.journal e.1 e.2, e.1⟩ := by
  rw [step] at hs
  split_ifs at hs with hclock
  exact ⟨hclock, (Option.some.inj hs).symm⟩

theorem advances_eq_zero (h : v.detector.streamWatermark = u.detector.streamWatermark) : advances u e v = 0 :=
  if_pos h

theorem resyncs_eq_zero (h : e.2 = .sample → u.detector.remedies limits e.1 = false) : resyncs limits u e v = 0 := by
  refine if_neg fun hverdict => ?_
  rw [verdictOf] at hverdict
  split at hverdict
  · rename_i hsample
    have hremedy := (remedies_iff limits u.detector e.1).mpr (Or.inl (Option.some.inj hverdict))
    rw [h hsample] at hremedy
    cases hremedy
  · cases hverdict

/-- However often the hub is sampled, there is one forced resync of the first stage for each time the watermark
    moved, and one before it first does. The second stage asks for the exit. -/
theorem one_resync_per_advance (hr : run (step limits) ⟨{}, {}, start⟩ es = some w) :
    tally (step limits) (resyncs limits) ⟨{}, {}, start⟩ es ≤ 1 + tally (step limits) advances ⟨{}, {}, start⟩ es := by
  have hpotential := tally_le (f := resyncs limits) (g := advances) (B := 1)
    (φ := fun w => if (w.journal.setAt .watermarkStallResyncAt).isSome then 1 else 0) hr ?_
  · have hstart : ((({} : Journal Stamp)).setAt .watermarkStallResyncAt).isSome = false := rfl
    dsimp only at hpotential
    split_ifs at hpotential <;> omega
  · intro es₁ e es₂ u v _ hu hs _
    obtain ⟨-, rfl⟩ := step_eq hs
    have htracks := (holds_run hu).tracks
    dsimp only
    rcases remedy_record limits u.detector u.journal e.1 e.2 with
      ⟨hkept, hquiet, hsame⟩ | ⟨hcleared, hmoved, hother⟩ | ⟨hset, hsample, hremedy, hsame⟩
    · rw [resyncs_eq_zero hquiet, hkept, Nat.zero_add]
      exact Nat.le_add_right _ _
    · rw [resyncs_eq_zero (fun h => (hother h).elim), hcleared, advances, if_neg hmoved]
      split_ifs <;> simp
    · rw [hset, advances_eq_zero hsame, Option.isSome_some, if_pos rfl, resyncs]
      by_cases hverdict : verdictOf limits u e = some .resync
      · -- stage 1 is taken only with no remedy outstanding
        have hnone : u.journal.setAt .watermarkStallResyncAt = none := by
          have hsampled := hverdict
          rw [verdictOf, hsample] at hsampled
          have hmoved := htracks.moved .watermarkStallResyncAt
          rw [resync_none (Option.some.inj hsampled)] at hmoved
          exact Option.map_eq_none_iff.mp hmoved.symm
        rw [if_pos hverdict, hnone]
        exact le_rfl
      · rw [if_neg hverdict]
        split_ifs <;> simp

theorem one_resync_per_advance_frozen :
    tally (step ⟨600000, 300000⟩) (resyncs ⟨600000, 300000⟩) ⟨{}, {}, 0⟩ (frozenRun ++ [(1090000, .sample)]) = 1 ∧
      tally (step ⟨600000, 300000⟩) (resyncs ⟨600000, 300000⟩) ⟨{}, {}, 0⟩ (frozenRun ++ [(1090000, .sample)]) ≤
        1 + tally (step ⟨600000, 300000⟩) advances ⟨{}, {}, 0⟩ (frozenRun ++ [(1090000, .sample)]) :=
  ⟨by decide, one_resync_per_advance (run_after (by decide))⟩

/-- The step was a sample at `a` that took a remedy. -/
def RemedyAt (limits : Limits) (a : ℤ) (u : World) (e : ℤ × Action) : Prop :=
  e.1 = a ∧ (verdictOf limits u e = some .resync ∨ verdictOf limits u e = some .exit)

theorem remedy_since (hr : run (step limits) ⟨{}, {}, start⟩ es = some w) :
    ∀ a, w.journal.setAt .watermarkStallResyncAt = some a →
      Since (step limits) (RemedyAt limits a) advances ⟨{}, {}, start⟩ es := by
  refine run_history (I := fun es w => ∀ a, w.journal.setAt .watermarkStallResyncAt = some a →
    Since (step limits) (RemedyAt limits a) advances ⟨{}, {}, start⟩ es) (fun a h => by cases h) ?_ hr
  intro es u e v hu ih hs a ha
  obtain ⟨-, rfl⟩ := step_eq hs
  rcases remedy_record limits u.detector u.journal e.1 e.2 with
    ⟨hkept, -, hsame⟩ | ⟨hcleared, -, -⟩ | ⟨hset, hsample, hremedy, -⟩
  · exact (ih a (hkept.symm.trans ha)).keep hu hs (advances_eq_zero hsame)
  · rw [hcleared] at ha
    cases ha
  · rw [hset] at ha
    refine Since.now hu hs ⟨Option.some.inj ha, ?_⟩
    rw [verdictOf, hsample]
    exact ((remedies_iff limits u.detector e.1).mp hremedy).imp (congrArg some) (congrArg some)

/-- The mirror gives its hub up only after a remedy was taken, the watermark did not move since, and a whole
    exit window went by since that remedy, less the pauses that began since and are over. -/
theorem exit_after_remedy (hr : run (step limits) ⟨{}, {}, start⟩ es = some w) {now : ℤ}
    (hexit : (w.detector.checkWatermarkStall limits now).1 = .exit) :
    ∃ a, Since (step limits) (RemedyAt limits a) advances ⟨{}, {}, start⟩ es ∧ 0 < limits.watermarkStallExitMs ∧
      limits.watermarkStallExitMs ≤ now - a - paused w.journal.pauses a := by
  have hplain := (checkWatermarkStall_fst (holds_run hr).tracks now).symm.trans hexit
  have hverdict : plainVerdict limits w.detector w.journal now = .exit := by
    rw [plainSample] at hplain
    split_ifs at hplain
    exact hplain
  have hlong : ∃ silence, w.journal.silence .watermarkStallResyncAt now = some silence ∧
      0 < limits.watermarkStallExitMs ∧ limits.watermarkStallExitMs ≤ silence := by
    rw [plainVerdict] at hverdict
    split at hverdict
    · cases hverdict
    · split at hverdict
      · split at hverdict <;> cases hverdict
      · rename_i silence hsilence
        split at hverdict
        · rename_i hcond
          rw [Bool.and_eq_true, decide_eq_true_eq, decide_eq_true_eq] at hcond
          exact ⟨silence, hsilence, hcond⟩
        · cases hverdict
  obtain ⟨silence, hsilence, hexit, hlong⟩ := hlong
  obtain ⟨a, ha, rfl⟩ := Option.map_eq_some_iff.mp hsilence
  exact ⟨a, remedy_since hr a ha, hexit, hlong⟩

theorem exit_after_remedy_frozen :
    ((after ⟨600000, 300000⟩ (frozenRun ++ [(1090000, .sample)])).detector.checkWatermarkStall
        ⟨600000, 300000⟩ 1390000).1 = .exit ∧
      ∃ a, Since (step ⟨600000, 300000⟩) (RemedyAt ⟨600000, 300000⟩ a) advances ⟨{}, {}, 0⟩
          (frozenRun ++ [(1090000, .sample)]) ∧ (0 : ℤ) < 300000 ∧
        300000 ≤ 1390000 - a - paused (after ⟨600000, 300000⟩ (frozenRun ++ [(1090000, .sample)])).journal.pauses a :=
  ⟨by decide, exit_after_remedy (run_after (by decide)) (by decide)⟩

end StallDetector
