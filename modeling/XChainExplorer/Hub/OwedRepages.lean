import XChainExplorer.Hub.CapabilityHolds
import XChainExplorer.Hub.FailClosed
import XChainExplorer.Lib.Runs

/-! # No owed re-page is lost

    A mark on a table stays until a drain of the table completes that was opened after the mark and
    read from the start, or from the recorded floor. Most steps leave the marks and the accounting of
    the drains alone; the others are a mark, the opening, the first page and the end of a drain, and the
    certification of a pass. -/

namespace HubDbSync.CapabilityProof

open Journal

variable {K κ : Type*} {s s' t : State K κ}

/-! ### What the marks rest on -/

/-- The table of an opened drain, the mark it was opened under, and where its pages started. -/
def Drain.view : Drain → Option (MirrorTable × Option ℕ × Option Start)
  | .accounted d => some (d.table, d.repageSeq, none)
  | .paging d => some (d.table, d.repageSeq, some d.start)
  | _ => none

def State.view (s : State K κ) (d : ℕ) : Option (MirrorTable × Option ℕ × Option Start) :=
  (s.drains d).bind Drain.view

/-- The events that are not about the marks. A mark that a hold took back is one of them. -/
def Event.aside : Event κ → Bool
  | .marked _ none | .settled .. | .certified => false
  | _ => true

/-- A mark is taken back for a row the map kept. -/
def KeptMarks (log : List (Event κ)) : Prop :=
  ∀ p T k q, log = p ++ .marked T (some k) :: q → T = .capability_snapshots ∧ ∃ q', q = .held k :: q'

/-- A step that leaves the marks and opens no drain. -/
structure Quiet (s s' : State K κ) : Prop where
  owed : s'.sync.repageOwed = s.sync.repageOwed
  seq : s.sync.repageOwedSeq ≤ s'.sync.repageOwedSeq
  views : ∀ d v, s'.view d = some v → s.view d = some v
  log : ∃ new, s'.log = s.log ++ new ∧ KeptMarks new ∧ ∀ e ∈ new, e.aside = true

theorem keptMarks_nil : KeptMarks ([] : List (Event κ)) := by
  intro p T k q h
  simp at h

theorem KeptMarks.append {log new : List (Event κ)} (h : KeptMarks log) (hnew : KeptMarks new) :
    KeptMarks (log ++ new) := by
  intro p T k q heq
  rcases append_eq_append_cons heq with ⟨q', rfl, hlog⟩ | ⟨p', -, hq⟩
  · obtain ⟨hT, q'', rfl⟩ := h p T k q' hlog
    exact ⟨hT, q'' ++ new, rfl⟩
  · exact hnew p' T k q hq

theorem keptMarks_of_none {log : List (Event κ)} (h : ∀ e ∈ log, ∀ T k, e ≠ .marked T (some k)) :
    KeptMarks log := by
  rintro p T k q rfl
  exact absurd rfl (h _ (by simp) T k)

theorem Quiet.refl (s : State K κ) : Quiet s s :=
  ⟨rfl, le_rfl, fun _ _ h => h, [], by simp, keptMarks_nil, by simp⟩

theorem Quiet.trans (h : Quiet s s') (h' : Quiet s' t) : Quiet s t := by
  obtain ⟨new, hlog, hkept, haside⟩ := h.log
  obtain ⟨new', hlog', hkept', haside'⟩ := h'.log
  refine ⟨h'.owed.trans h.owed, h.seq.trans h'.seq, fun d v hv => h.views d v (h'.views d v hv),
    new ++ new', by rw [hlog', hlog, List.append_assoc], hkept.append hkept', ?_⟩
  intro e he
  rcases List.mem_append.mp he with he | he
  · exact haside e he
  · exact haside' e he

/-- A step of anything but the marks, the drains and the log. -/
theorem quiet_of_same (howed : s'.sync.repageOwed = s.sync.repageOwed)
    (hseq : s'.sync.repageOwedSeq = s.sync.repageOwedSeq) (hdrains : s'.drains = s.drains)
    (hlog : s'.log = s.log) : Quiet s s' := by
  refine ⟨howed, hseq.ge, ?_, [], by simpa using hlog, keptMarks_nil, by simp⟩
  intro d v hv
  rwa [State.view, hdrains] at hv

theorem quiet_note {new : List (Event κ)} (haside : ∀ e ∈ new, e.aside = true)
    (hkept : ∀ e ∈ new, ∀ T k, e ≠ .marked T (some k)) : Quiet s (s.note new) :=
  ⟨rfl, le_rfl, fun _ _ h => h, new, rfl, keptMarks_of_none hkept, haside⟩

theorem quiet_note_one {e : Event κ} (haside : e.aside = true)
    (hkept : ∀ T k, e ≠ .marked T (some k)) : Quiet s (s.note [e]) := by
  refine quiet_note ?_ ?_ <;> simpa

/-- A drain that is taken out, or whose view stays. -/
theorem quiet_drain {d : ℕ} {dr : Option Drain} {v₀ : Option (MirrorTable × Option ℕ × Option Start)}
    (hv : dr.bind Drain.view = v₀) (hd : v₀ = none ∨ v₀ = s.view d) :
    Quiet s { s with drains := Function.update s.drains d dr } := by
  refine ⟨rfl, le_rfl, ?_, [], by simp, keptMarks_nil, by simp⟩
  intro e v he
  dsimp only [State.view] at he
  by_cases hed : e = d
  · subst hed
    rw [Function.update_self, hv] at he
    rcases hd with rfl | rfl
    · cases he
    · exact he
  · rwa [Function.update_of_ne hed] at he

section rows
variable [DecidableEq κ] {cap i j : ℕ} {k : κ} {task : Task κ}

/-! ### The rows -/

omit [DecidableEq κ] in
theorem quiet_startTask : Quiet s (s.startTask i task) := quiet_of_same rfl rfl rfl rfl

theorem quiet_dropHold : Quiet s (s.dropHold k) := quiet_of_same rfl rfl rfl rfl

theorem quiet_release : Quiet s s.releaseCapabilityProofWaiters := by
  unfold State.releaseCapabilityProofWaiters
  refine Quiet.trans ?_ (quiet_note ?_ ?_)
  · exact quiet_of_same rfl rfl rfl rfl
  · intro e he
    obtain ⟨w, -, rfl⟩ := List.mem_map.mp he
    rfl
  · intro e he
    obtain ⟨w, -, rfl⟩ := List.mem_map.mp he
    nofun

omit [DecidableEq κ] in
theorem view_rowDone (thrown : Bool) (dr : Drain) : (dr.rowDone thrown).view = dr.view := by
  cases dr <;> rfl

omit [DecidableEq κ] in
theorem quiet_finish (thrown : Bool) : Quiet s (s.finish i task thrown) := by
  unfold State.finish
  split
  · exact quiet_of_same rfl rfl rfl rfl
  · rename_i d _
    have hview : ((s.drains d).map (Drain.rowDone thrown)).bind Drain.view = s.view d := by
      rw [Option.bind_map, State.view]
      congr 1
      funext dr
      exact view_rowDone thrown dr
    refine Quiet.trans ?_ (quiet_drain hview (.inr rfl))
    exact quiet_of_same rfl rfl rfl rfl
  · exact quiet_of_same rfl rfl rfl rfl

theorem quiet_endApply (thrown : Bool) : Quiet s (s.endApply i task thrown) := by
  unfold State.endApply
  split
  · refine Quiet.trans ?_ (quiet_finish thrown)
    split_ifs <;> exact quiet_of_same rfl rfl rfl rfl
  · exact quiet_finish thrown

theorem quiet_fence (refused : Bool) : Quiet s (s.fence i task refused) := by
  unfold State.fence
  split_ifs
  · exact (quiet_note_one rfl nofun).trans (quiet_endApply false)
  · exact quiet_of_same rfl rfl rfl rfl
  · exact quiet_startTask

theorem quiet_written (ok : Bool) : Quiet s (s.written i task ok) := by
  unfold State.written
  split_ifs
  · exact (quiet_note_one rfl nofun).trans (quiet_endApply false)
  · exact quiet_endApply true

/-! ### The steps that move a mark -/

/-- A step of the marks that settles none. -/
inductive MarkStep (s s' : State K κ) : Prop
  | same (h : s' = s)
  | marks (tables : List MirrorTable) (hlog : s'.log = s.log ++ tables.map (.marked · none))
      (hseq : s.sync.repageOwedSeq ≤ s'.sync.repageOwedSeq)
      (hfresh : ∀ T ∈ tables, ∃ n, s'.sync.repageOwed T = some n ∧ s.sync.repageOwedSeq < n ∧
        n ≤ s'.sync.repageOwedSeq)
      (hsame : ∀ T, T ∉ tables → s'.sync.repageOwed T = s.sync.repageOwed T)
      (hview : s'.view = s.view)
  | opened (d : ℕ) (T : MirrorTable) (hlog : s'.log = s.log ++ [.opened d T]) (hsync : s'.sync = s.sync)
      (hview : s'.view = Function.update s.view d (some (T, s.sync.repageOwed T, none)))
  | started (d : ℕ) (T : MirrorTable) (m : Option ℕ) (start : Start) (hv : s.view d = some (T, m, none))
      (hlog : s'.log = s.log ++ [.started d start]) (howed : s'.sync.repageOwed = s.sync.repageOwed)
      (hseq : s'.sync.repageOwedSeq = s.sync.repageOwedSeq)
      (hview : s'.view = Function.update s.view d (some (T, m, some start)))
      (hfloor : start = .floor → T = .price_snapshots)
  | certified (hlog : s'.log = s.log ++ [.certified]) (hnone : ∀ T, s.sync.repageOwed T = none)
      (howed : s'.sync.repageOwed = s.sync.repageOwed)
      (hseq : s'.sync.repageOwedSeq = s.sync.repageOwedSeq) (hview : s'.view = s.view)

/-- A mark is settled: the drain was opened under it and started from the beginning or the floor. -/
structure Settling (s s' : State K κ) (d : ℕ) (T : MirrorTable) (n : ℕ) (start : Start) : Prop where
  view : s.view d = some (T, some n, some start)
  start : start ≠ .stored
  owes : s.sync.repageOwed T = some n
  log : s'.log = s.log ++ [.completed d, .settled d T]
  owed : s'.sync.repageOwed = Function.update s.sync.repageOwed T none
  seq : s'.sync.repageOwedSeq = s.sync.repageOwedSeq
  views : s'.view = s.view

omit [DecidableEq κ] in
/-- Tables are marked over a change of the connection's fields. -/
theorem marks_of_sync {s₁ : Sync K} {tables : List MirrorTable}
    (howed : s'.sync.repageOwed = (s₁.markRepageOwed tables).repageOwed)
    (hseq : s'.sync.repageOwedSeq = (s₁.markRepageOwed tables).repageOwedSeq)
    (howed₁ : s₁.repageOwed = s.sync.repageOwed) (hseq₁ : s₁.repageOwedSeq = s.sync.repageOwedSeq)
    (hlog : s'.log = s.log ++ tables.map (.marked · none)) (hdrains : s'.drains = s.drains) :
    MarkStep s s' := by
  obtain ⟨hle, hall⟩ := markRepageOwed_owed s₁ tables
  rw [← howed, ← hseq, hseq₁, howed₁] at hall
  refine .marks tables hlog ?_ (fun T hT => (hall T).1 hT) (fun T hT => (hall T).2 hT) ?_
  · rw [hseq, ← hseq₁]
    exact hle
  · unfold State.view
    rw [hdrains]

/-- A hold that is not taken back marks the table; one that is leaves the marks as they were. -/
theorem markStep_hold (retainHold : Bool) :
    ∃ u, MarkStep s u ∧ Quiet u (s.hold cap k retainHold) := by
  unfold State.hold
  dsimp only
  by_cases hkept : ((s.bootstrapping || retainHold) && decide (k ∈ s.heldRows cap k)) = true
  · rw [if_pos hkept]
    refine ⟨s, .same rfl, ?_, Nat.le_succ _, fun _ _ h => h, _, rfl, ?_, ?_⟩
    · simp [State.setOwed, State.note, State.holdCapabilitySnapshot, Sync.markRepageOwed,
        Sync.markOwed]
    · intro p T k' q h
      rcases p with - | ⟨e, - | ⟨e', p⟩⟩
      · cases h
        exact ⟨rfl, [], rfl⟩
      · cases h
      · simp at h
    · simp [Event.aside]
  · rw [if_neg hkept]
    have hsync : (s.holdCapabilitySnapshot cap k).sync =
        s.sync.markRepageOwed [.capability_snapshots] := rfl
    have hmark : MarkStep s { s.holdCapabilitySnapshot cap k with
        log := s.log ++ [.marked .capability_snapshots none] } :=
      marks_of_sync (congrArg Sync.repageOwed hsync) (congrArg Sync.repageOwedSeq hsync) rfl rfl rfl rfl
    refine ⟨_, hmark, rfl, le_rfl, fun _ _ h => h,
      [if k ∈ s.heldRows cap k then .held k else .turnedAway k], ?_, ?_, ?_⟩
    · exact (List.append_assoc s.log [_] [_]).symm
    · apply keptMarks_of_none
      split_ifs <;> simp
    · split_ifs <;> simp [Event.aside]

omit [DecidableEq κ] in
theorem markStep_quiet (h : Quiet s s') : ∃ u, MarkStep s u ∧ Quiet u s' := ⟨s, .same rfl, h⟩

omit [DecidableEq κ] in
theorem markStep_alone (h : MarkStep s s') : ∃ u, MarkStep s u ∧ Quiet u s' := ⟨s', h, Quiet.refl s'⟩

theorem markStep_judgedRow (v : Verdict) :
    ∃ u, MarkStep s u ∧ Quiet u (s.judgedRow cap i task v) := by
  cases v with
  | held =>
    obtain ⟨u, hu, hq⟩ : ∃ u, MarkStep s u ∧ Quiet u (s.hold cap task.key false) := markStep_hold false
    exact ⟨u, hu, hq.trans (quiet_endApply false)⟩
  | refused =>
    exact markStep_quiet ((((quiet_note_one rfl nofun).trans quiet_dropHold).trans quiet_release).trans
      (quiet_endApply false))
  | accepted =>
    exact markStep_quiet ((((quiet_note_one rfl nofun).trans quiet_dropHold).trans quiet_release).trans
      quiet_startTask)
  | unchecked => exact markStep_quiet ((quiet_note_one rfl nofun).trans quiet_startTask)

theorem markStep_judgedAgain (v : Verdict) :
    ∃ u, MarkStep s u ∧ Quiet u (s.judgedAgain cap i task v) := by
  have hpass : Quiet s ({ s.note [.judged task.key false] with
      retryApproved := task.key :: s.retryApproved }.startTask i { task with phase := .entering }) := by
    refine Quiet.trans (quiet_note_one (e := .judged task.key false) rfl nofun) ?_
    exact quiet_of_same rfl rfl rfl rfl
  cases v with
  | held =>
    obtain ⟨u, hu, hq⟩ : ∃ u, MarkStep s u ∧ Quiet u (s.hold cap task.key true) := markStep_hold true
    exact ⟨u, hu, hq.trans (quiet_finish false)⟩
  | refused =>
    exact markStep_quiet (((quiet_note_one rfl nofun).trans quiet_dropHold).trans (quiet_finish false))
  | accepted => exact markStep_quiet hpass
  | unchecked => exact markStep_quiet hpass

variable {l : Label K κ}

theorem markStep_rowStep (h : s.rowStep cap l = some s') : ∃ u, MarkStep s u ∧ Quiet u s' := by
  cases l with
  | live i k =>
    simp only [State.rowStep] at h
    split at h
    · exact Option.some.inj h ▸ markStep_quiet quiet_startTask
    · cases h
  | fence i refused =>
    simp only [State.rowStep] at h
    split at h
    · exact Option.some.inj h ▸ markStep_quiet (quiet_fence refused)
    · cases h
  | judged i v =>
    simp only [State.rowStep] at h
    split at h
    · exact Option.some.inj h ▸ markStep_judgedRow v
    · exact Option.some.inj h ▸ markStep_judgedAgain v
    · cases h
  | written i ok =>
    simp only [State.rowStep] at h
    split at h
    · exact Option.some.inj h ▸ markStep_quiet (quiet_written ok)
    · cases h
  | _ => cases h

/-! ### The connection -/

omit [DecidableEq κ] in
theorem markStep_ready (instanceId : Option ℕ) (caughtUp : Bool)
    (maxIds : Option (MirrorTable → Option ℕ)) (heights : Option (Heights K)) :
    MarkStep s (s.socketStep (.ready instanceId caughtUp maxIds heights)) := by
  obtain ⟨s₁, howes₁, -, howes, -⟩ := adoptReadyFrame_marks s.sync instanceId caughtUp maxIds heights
  simp only [Sync.owes, Prod.mk.injEq] at howes₁ howes
  exact marks_of_sync howes.2.2.1 howes.2.2.2 howes₁.2.2.1 howes₁.2.2.2 rfl rfl

omit [DecidableEq κ] in
theorem markStep_resync : MarkStep s (s.socketStep .resync) := by
  have hsync : s.sync.forgetPositionsForResync = { s.sync with
      lastHubInstanceId := none, drainPositions := fun _ => 0 }.markRepageOwed MIRRORED_TABLES := rfl
  have hstep : (s.socketStep .resync).sync = s.sync.forgetPositionsForResync := rfl
  rw [hsync] at hstep
  refine marks_of_sync (congrArg Sync.repageOwed hstep) (congrArg Sync.repageOwedSeq hstep) rfl rfl rfl ?_
  dsimp only [State.socketStep, State.note]

omit [DecidableEq κ] in
theorem markStep_refuseSchema : MarkStep s (s.socketStep .refuseSchema) := by
  have hsync : s.sync.refuseSchema =
      { s.sync with schemaMismatchSeen := true }.markRepageOwed MIRRORED_TABLES := rfl
  have hstep : (s.socketStep .refuseSchema).sync = s.sync.refuseSchema := rfl
  rw [hsync] at hstep
  refine marks_of_sync (congrArg Sync.repageOwed hstep) (congrArg Sync.repageOwedSeq hstep) rfl rfl rfl ?_
  dsimp only [State.socketStep, State.note]

omit [DecidableEq κ] in
theorem markStep_socketStep (l : SocketLabel K) : ∃ u, MarkStep s u ∧ Quiet u (s.socketStep l) := by
  cases l with
  | ready instanceId caughtUp maxIds heights =>
    exact markStep_alone (markStep_ready instanceId caughtUp maxIds heights)
  | resync => exact markStep_alone markStep_resync
  | refuseSchema => exact markStep_alone markStep_refuseSchema
  | close | moveHub | selectorChange => exact markStep_quiet (quiet_of_same rfl rfl rfl rfl)

/-! ### The drains -/

omit [DecidableEq κ] in
theorem quiet_bootstrapTable (T : MirrorTable) : Quiet s (s.bootstrapTable T) := by
  let opening := Drain.opening T s.sync.wsEpoch s.sync.selectorRevision
  have hopen : Quiet s { s with drains := Function.update s.drains s.drainCount (some opening) } :=
    quiet_drain rfl (.inl rfl)
  exact hopen.trans (quiet_of_same rfl rfl rfl rfl)

theorem quiet_retryStep (h : s.retryStep l = some s') : Quiet s s' := by
  cases l with
  | retryBegin =>
    simp only [State.retryStep] at h
    split at h
    · exact Option.some.inj h ▸ quiet_of_same rfl rfl rfl rfl
    · cases h
  | retryTake i k =>
    simp only [State.retryStep] at h
    split at h
    · split_ifs at h
      all_goals exact Option.some.inj h ▸ quiet_of_same rfl rfl rfl rfl
    · cases h
  | retryOverflow =>
    simp only [State.retryStep] at h
    split at h
    · split_ifs at h
      · exact Option.some.inj h ▸ quiet_of_same rfl rfl rfl rfl
      · refine Option.some.inj h ▸ Quiet.trans ?_ (quiet_bootstrapTable _)
        exact quiet_of_same rfl rfl rfl rfl
    · cases h
  | overflowChecked =>
    simp only [State.retryStep] at h
    split at h
    · exact Option.some.inj h ▸ quiet_of_same rfl rfl rfl rfl
    · cases h
  | retryEnd =>
    simp only [State.retryStep] at h
    split at h
    · refine Option.some.inj h ▸ Quiet.trans ?_ quiet_release
      exact quiet_of_same rfl rfl rfl rfl
    · cases h
  | _ => cases h

omit [DecidableEq κ] in
theorem quiet_endDrain (d : ℕ) (drained : Bool) : Quiet s (s.endDrain d drained) := by
  have hdrop : Quiet s { s with drains := Function.update s.drains d none } :=
    quiet_drain rfl (.inl rfl)
  refine hdrop.trans ?_
  unfold State.endDrain
  refine quiet_of_same ?_ ?_ ?_ ?_
  all_goals
    dsimp only
    repeat' split
    all_goals rfl

omit [DecidableEq κ] in
theorem view_setDrain (d : ℕ) (dr : Drain) :
    (s.setDrain d dr).view = Function.update s.view d dr.view := by
  funext e
  by_cases he : e = d
  · subst he
    simp [State.view, State.setDrain]
  · simp [State.view, State.setDrain, he]

omit [DecidableEq κ] in
theorem start_choosePriceRepageStart (d : TableDrain) (floor : Option ℕ)
    (h : (s.choosePriceRepageStart d floor).start = .floor) : d.table = .price_snapshots := by
  unfold State.choosePriceRepageStart at h
  split at h
  · rename_i mark hmark
    have := (Option.filter_eq_some_iff.mp hmark).2
    simp only [Bool.and_eq_true, decide_eq_true_eq] at this
    exact this.1.1.1.1
  · unfold TableDrain.start at h
    simp only [Bool.false_eq_true, if_false] at h
    split at h <;> cases h

omit [DecidableEq κ] in
theorem view_of_drain {d : ℕ} {dr : Drain} (h : s.drains d = some dr) : s.view d = dr.view := by
  rw [State.view, h, Option.bind_some]

omit [DecidableEq κ] in
/-- The choice of a start leaves the table and the mark. -/
theorem view_choosePriceRepageStart (d : TableDrain) (floor : Option ℕ) :
    (Drain.paging (s.choosePriceRepageStart d floor)).view =
      some (d.table, d.repageSeq, some (s.choosePriceRepageStart d floor).start) := by
  unfold State.choosePriceRepageStart
  split <;> rfl

omit [DecidableEq κ] in
theorem start_ne_stored {d : TableDrain} : d.start ≠ .stored ↔ d.fullTable = true ∨ d.floorStart = true := by
  unfold TableDrain.start
  cases d.floorStart <;> cases d.fullTable <;> simp

omit [DecidableEq κ] in
theorem quiet_placeRepageStart (started : TableDrain) : Quiet s (s.placeRepageStart started) := by
  unfold State.placeRepageStart
  split_ifs
  · exact quiet_of_same rfl rfl rfl rfl
  · exact Quiet.refl s

omit [DecidableEq κ] in
theorem markStep_startPaging {d : ℕ} {dr : TableDrain} (floor : Option ℕ)
    (hd : s.drains d = some (.accounted dr)) :
    ∃ u, MarkStep s u ∧ Quiet u (s.startPaging d dr floor) := by
  -- the position is no part of the marks
  have hstarted {u : State K κ} (hlog : u.log = s.log) (hdrains : u.drains = s.drains)
      (howed : u.sync.repageOwed = s.sync.repageOwed) (hseq : u.sync.repageOwedSeq = s.sync.repageOwedSeq) :
      MarkStep s ((u.setDrain d (.paging (s.choosePriceRepageStart dr floor))).note
        [.started d (s.choosePriceRepageStart dr floor).start]) := by
    refine .started d dr.table dr.repageSeq (s.choosePriceRepageStart dr floor).start (view_of_drain hd)
      (congrArg (· ++ _) hlog) howed hseq ?_ (start_choosePriceRepageStart dr floor)
    have hview : u.view = s.view := by
      funext e
      rw [State.view, hdrains, State.view]
    rw [← view_choosePriceRepageStart dr floor, ← hview]
    exact view_setDrain d _
  unfold State.startPaging
  dsimp only
  split_ifs
  · refine markStep_alone (hstarted ?_ ?_ ?_ ?_)
    all_goals
      unfold State.placeRepageStart
      split_ifs <;> rfl
  · exact markStep_quiet ((quiet_placeRepageStart _).trans (quiet_endDrain d false))

omit [DecidableEq κ] in
theorem quiet_notePriceRepageFloor (d : TableDrain) (minAppliedWireId : Option ℕ) :
    Quiet s (s.notePriceRepageFloor d minAppliedWireId) := by
  unfold State.notePriceRepageFloor
  split_ifs
  · exact quiet_of_same rfl rfl rfl rfl
  · exact Quiet.refl s

omit [DecidableEq κ] in
/-- A drain that completes settles the mark it was opened under, or none. -/
theorem quiet_complete {n : ℕ} {d : TableDrain} (minAppliedWireId : Option ℕ)
    (hd : s.drains n = some (.paging d)) :
    Quiet s (s.complete n d minAppliedWireId) ∨
      ∃ m u, Settling s u n d.table m d.start ∧ Quiet u (s.complete n d minAppliedWireId) := by
  have hrest (u : State K κ) : Quiet u ((u.notePriceRepageFloor d minAppliedWireId).endDrain n true) :=
    (quiet_notePriceRepageFloor d minAppliedWireId).trans (quiet_endDrain n true)
  unfold State.complete State.settleRepageOwed
  by_cases hsettles : s.settles d = true
  · rw [if_pos (show (s.note [.completed n]).settles d = true from hsettles)]
    simp only [State.settles, Bool.and_eq_true, Bool.or_eq_true, beq_iff_eq] at hsettles
    obtain ⟨⟨hfull, hm⟩, howes⟩ := hsettles
    obtain ⟨m, hm⟩ := Option.isSome_iff_exists.mp hm
    have hsettle : Settling s (((s.note [.completed n]).setOwed d.table none).note [.settled n d.table]) n
        d.table m d.start := by
      refine ⟨?_, start_ne_stored.mpr hfull, howes.trans hm, ?_, rfl, rfl, rfl⟩
      · rw [view_of_drain hd, ← hm]
        rfl
      · exact List.append_assoc s.log [_] [_]
    exact .inr ⟨m, _, hsettle, hrest _⟩
  · rw [if_neg (show ¬ (s.note [.completed n]).settles d = true from hsettles)]
    exact .inl ((quiet_note_one rfl nofun).trans (hrest _))

/-! ### Any step -/

omit [DecidableEq κ] in
theorem markStep_passStep (h : s.passStep l = some s') : ∃ u, MarkStep s u ∧ Quiet u s' := by
  cases l with
  | passBegin =>
    simp only [State.passStep] at h
    split at h
    · exact Option.some.inj h ▸ markStep_quiet (quiet_of_same rfl rfl rfl rfl)
    · cases h
  | passTable =>
    simp only [State.passStep] at h
    split at h
    · split_ifs at h
      · refine Option.some.inj h ▸ markStep_quiet (Quiet.trans ?_ (quiet_bootstrapTable _))
        exact quiet_of_same rfl rfl rfl rfl
      · exact Option.some.inj h ▸ markStep_quiet (quiet_of_same rfl rfl rfl rfl)
    · cases h
  | passEnd uncaughtUp =>
    simp only [State.passStep] at h
    split at h
    · split_ifs at h with hcert
      · simp only [State.certifies, Bool.and_eq_true, List.isEmpty_iff] at hcert
        have hnone : ∀ T, s.sync.repageOwed T = none := by
          intro T
          have hempty := hcert.1.1.2
          rw [Sync.repageOwedTables, List.filter_eq_nil_iff] at hempty
          simpa using hempty T (mem_MIRRORED_TABLES T)
        exact Option.some.inj h ▸ markStep_alone (.certified rfl hnone rfl rfl rfl)
      · exact Option.some.inj h ▸ markStep_quiet (quiet_of_same rfl rfl rfl rfl)
    · cases h
  | _ => cases h

omit [DecidableEq κ] in
theorem markStep_drainStep (h : s.drainStep l = some s') :
    (∃ u, MarkStep s u ∧ Quiet u s') ∨
      ∃ d minAppliedWireId T n start u, l = .complete d minAppliedWireId ∧ Settling s u d T n start ∧
        Quiet u s' := by
  cases l with
  | resolve d =>
    refine .inl ?_
    simp only [State.drainStep] at h
    split at h
    case h_1 T epoch revision hd =>
      refine Option.some.inj h ▸ markStep_quiet (Quiet.trans ?_ (quiet_drain rfl (.inl rfl)))
      exact quiet_of_same rfl rfl rfl rfl
    · cases h
  | account d =>
    refine .inl ?_
    simp only [State.drainStep] at h
    split at h
    case h_1 T epoch revision lastId hd =>
      refine Option.some.inj h ▸ markStep_alone (.opened d T rfl rfl ?_)
      exact view_setDrain d _
    · cases h
  | start d floor =>
    refine .inl ?_
    simp only [State.drainStep] at h
    split at h
    case h_1 dr hd => exact Option.some.inj h ▸ markStep_startPaging floor hd
    · cases h
  | serve i d k =>
    refine .inl ?_
    simp only [State.drainStep] at h
    split at h
    case h_1 dr hd _ =>
      split_ifs at h
      have hbusy : (some (Drain.paging { dr with busy := true })).bind Drain.view = s.view d :=
        (view_of_drain hd).symm
      refine Option.some.inj h ▸ markStep_quiet ((quiet_drain hbusy (.inr rfl)).trans
        (Quiet.trans ?_ (quiet_note_one rfl nofun)))
      exact quiet_of_same rfl rfl rfl rfl
    · cases h
  | advance d id =>
    refine .inl ?_
    simp only [State.drainStep] at h
    split at h
    case h_1 dr hd =>
      split_ifs at h
      refine Option.some.inj h ▸ markStep_quiet ?_
      unfold State.advance
      split_ifs
      · have hmoved : (some (Drain.paging { dr with lastId := id })).bind Drain.view = s.view d :=
          (view_of_drain hd).symm
        refine (quiet_drain hmoved (.inr rfl)).trans ?_
        exact quiet_of_same rfl rfl rfl rfl
      · exact Quiet.refl s
    · cases h
  | complete d minAppliedWireId =>
    simp only [State.drainStep] at h
    split at h
    case h_1 dr hd =>
      split_ifs at h
      rcases Option.some.inj h ▸ quiet_complete minAppliedWireId hd with hq | ⟨n, u, hsettle, hq⟩
      · exact .inl (markStep_quiet hq)
      · exact .inr ⟨d, minAppliedWireId, _, n, _, u, rfl, hsettle, hq⟩
    · cases h
  | giveUp d boundRefused =>
    refine .inl ?_
    simp only [State.drainStep] at h
    split at h
    · split_ifs at h
      all_goals
        refine Option.some.inj h ▸ markStep_quiet (Quiet.trans ?_ (quiet_endDrain d false))
        exact quiet_of_same rfl rfl rfl rfl
    · cases h
  | _ => cases h

theorem quiet_barrierStep (h : s.barrierStep l = some s') : Quiet s s' := by
  have hanswer : Quiet s s.answerNow := quiet_note_one rfl nofun
  cases l with
  | query =>
    simp only [State.barrierStep, Option.some.injEq] at h
    subst h
    split_ifs
    · exact hanswer
    · exact Quiet.refl s
  | wait =>
    simp only [State.barrierStep, Option.some.injEq] at h
    subst h
    unfold State.waitForCapabilityProof
    split_ifs
    · exact hanswer
    · exact quiet_of_same rfl rfl rfl rfl
  | timeout j =>
    simp only [State.barrierStep] at h
    split_ifs at h
    refine Option.some.inj h ▸ quiet_release.trans ?_
    exact quiet_of_same rfl rfl rfl rfl
  | _ => cases h

/-- What any step does of the marks. -/
theorem markStep_of_step (h : s.step cap l = some s') :
    (∃ u, MarkStep s u ∧ Quiet u s') ∨
      ∃ d minAppliedWireId T n start u, l = .complete d minAppliedWireId ∧ Settling s u d T n start ∧
        Quiet u s' := by
  cases l with
  | socket l => exact .inl (Option.some.inj h ▸ markStep_socketStep l)
  | live | fence | judged | written =>
    simp only [State.step] at h
    exact .inl (markStep_rowStep h)
  | retryBegin | retryTake | retryOverflow | overflowChecked | retryEnd =>
    simp only [State.step] at h
    exact .inl (markStep_quiet (quiet_retryStep h))
  | passBegin | passTable | passEnd =>
    simp only [State.step] at h
    exact .inl (markStep_passStep h)
  | resolve | account | start | serve | advance | complete | giveUp =>
    simp only [State.step] at h
    exact markStep_drainStep h
  | query | wait | timeout =>
    simp only [State.step] at h
    exact .inl (markStep_quiet (quiet_barrierStep h))

end rows

/-! ### The invariant -/

/-- A drain of the table was opened and completed here that read from the start, or from the recorded
    floor of the prices. -/
def Repaged (T : MirrorTable) (log : List (Event κ)) : Prop :=
  ∃ d start, .opened d T ∈ log ∧ .started d start ∈ log ∧ .completed d ∈ log ∧
    (start = .zero ∨ start = .floor ∧ T = .price_snapshots)

/-- A certification: every table that was marked was paged again since. -/
def CertifiesRepaged (pre : List (Event κ)) (e : Event κ) : Prop :=
  e = .certified → ∀ p T q, pre = p ++ .marked T none :: q → Repaged T q

/-- A mark is settled: the drain that settles it was opened after every mark there is. -/
def SettlesLater (pre : List (Event κ)) (e : Event κ) : Prop :=
  ∀ d T, e = .settled d T → ∀ p q, pre = p ++ .marked T none :: q → .opened d T ∈ q

structure Owing (s : State K κ) : Prop where
  seq : ∀ T n, s.sync.repageOwed T = some n → n ≤ s.sync.repageOwedSeq
  drains : ∀ d T n start, s.view d = some (T, some n, start) → n ≤ s.sync.repageOwedSeq
  floors : ∀ d T m, s.view d = some (T, m, some .floor) → T = .price_snapshots
  /-- A drain under the present mark of its table was opened after every mark there is. -/
  under : ∀ p T q, s.log = p ++ .marked T none :: q → ∀ n, s.sync.repageOwed T = some n →
    ∀ d start, s.view d = some (T, some n, start) →
      .opened d T ∈ q ∧ ∀ st, start = some st → .started d st ∈ q
  marks : ∀ p T q, s.log = p ++ .marked T none :: q → Repaged T q ∨ (s.sync.repageOwed T).isSome
  certified : Each CertifiesRepaged s.log
  settled : Each SettlesLater s.log
  kept : KeptMarks s.log

theorem Repaged.append {T : MirrorTable} {log : List (Event κ)} (h : Repaged T log)
    (new : List (Event κ)) : Repaged T (log ++ new) := by
  obtain ⟨d, start, hopened, hstarted, hcompleted, hstart⟩ := h
  exact ⟨d, start, List.mem_append_left _ hopened, List.mem_append_left _ hstarted,
    List.mem_append_left _ hcompleted, hstart⟩

theorem each_of_aside {log new : List (Event κ)} (hc : Each CertifiesRepaged log)
    (hs : Each SettlesLater log) (haside : ∀ e ∈ new, e.aside = true) :
    Each CertifiesRepaged (log ++ new) ∧ Each SettlesLater (log ++ new) := by
  refine ⟨hc.append ?_, hs.append ?_⟩
  · rintro more e he rfl
    cases haside _ he
  · rintro more e he d T rfl
    cases haside _ he

/-- A mark of a log that grew by other events is an old one. -/
theorem mark_of_aside {log new p q : List (Event κ)} {T : MirrorTable}
    (h : log ++ new = p ++ .marked T none :: q) (haside : ∀ e ∈ new, e.aside = true) :
    ∃ q', q = q' ++ new ∧ log = p ++ .marked T none :: q' := by
  rcases append_eq_append_cons h with hold | ⟨p', -, rfl⟩
  · exact hold
  · cases haside (.marked T none) (by simp)

theorem owing_init : Owing ({} : State K κ) where
  seq := by simp
  drains := by simp [State.view]
  floors := by simp [State.view]
  under := by simp
  marks := by simp
  certified := each_nil
  settled := each_nil
  kept := keptMarks_nil

theorem Owing.quiet (h : Owing s) (hq : Quiet s s') : Owing s' := by
  obtain ⟨new, hlog, hkept, haside⟩ := hq.log
  have heach := each_of_aside h.certified h.settled haside
  refine ⟨?_, ?_, ?_, ?_, ?_, hlog ▸ heach.1, hlog ▸ heach.2, hlog ▸ h.kept.append hkept⟩
  · intro T n hn
    rw [hq.owed] at hn
    exact (h.seq T n hn).trans hq.seq
  · intro d T n start hv
    exact (h.drains d T n start (hq.views _ _ hv)).trans hq.seq
  · intro d T m hv
    exact h.floors d T m (hq.views _ _ hv)
  · intro p T q heq n hn d start hv
    rw [hlog] at heq
    rw [hq.owed] at hn
    obtain ⟨q', rfl, hp⟩ := mark_of_aside heq haside
    obtain ⟨hopened, hstarted⟩ := h.under p T q' hp n hn d start (hq.views _ _ hv)
    exact ⟨List.mem_append_left _ hopened, fun st hst => List.mem_append_left _ (hstarted st hst)⟩
  · intro p T q heq
    rw [hlog] at heq
    obtain ⟨q', rfl, hp⟩ := mark_of_aside heq haside
    rw [hq.owed]
    exact (h.marks p T q' hp).imp (·.append new) id

theorem Owing.marked {tables : List MirrorTable} (h : Owing s)
    (hlog : s'.log = s.log ++ tables.map (.marked · none))
    (hseq : s.sync.repageOwedSeq ≤ s'.sync.repageOwedSeq)
    (hfresh : ∀ T ∈ tables, ∃ n, s'.sync.repageOwed T = some n ∧ s.sync.repageOwedSeq < n ∧
      n ≤ s'.sync.repageOwedSeq)
    (hsame : ∀ T, T ∉ tables → s'.sync.repageOwed T = s.sync.repageOwed T)
    (hview : s'.view = s.view) : Owing s' := by
  -- no drain in flight was opened under a fresh mark
  have hstale : ∀ T ∈ tables, ∀ n, s'.sync.repageOwed T = some n →
      ∀ d start, s.view d ≠ some (T, some n, start) := by
    intro T hT n hn d start hv
    obtain ⟨n', hn', hlt, -⟩ := hfresh T hT
    obtain rfl : n' = n := Option.some.inj (hn'.symm.trans hn)
    exact absurd (h.drains d T n' start hv) (by omega)
  refine ⟨?_, ?_, ?_, ?_, ?_, ?_, ?_, ?_⟩
  · intro T n hn
    by_cases hT : T ∈ tables
    · obtain ⟨n', hn', -, hle⟩ := hfresh T hT
      exact Option.some.inj (hn'.symm.trans hn) ▸ hle
    · exact (h.seq T n (hsame T hT ▸ hn)).trans hseq
  · intro d T n start hv
    exact (h.drains d T n start (hview ▸ hv)).trans hseq
  · intro d T m hv
    exact h.floors d T m (hview ▸ hv)
  · intro p T q heq n hn d start hv
    rw [hlog] at heq
    rw [hview] at hv
    by_cases hT : T ∈ tables
    · exact absurd hv (hstale T hT n hn d start)
    · rcases append_eq_append_cons heq with ⟨q', rfl, hp⟩ | ⟨p', -, hp⟩
      · obtain ⟨hopened, hstarted⟩ := h.under p T q' hp n (hsame T hT ▸ hn) d start hv
        exact ⟨List.mem_append_left _ hopened, fun st hst => List.mem_append_left _ (hstarted st hst)⟩
      · have hmem : Event.marked (κ := κ) T none ∈ tables.map (.marked · none) := by simp [hp]
        simp only [List.mem_map, Event.marked.injEq, and_true, exists_eq_right] at hmem
        exact absurd hmem hT
  · intro p T q heq
    rw [hlog] at heq
    by_cases hT : T ∈ tables
    · obtain ⟨n, hn, -⟩ := hfresh T hT
      exact .inr (by simp [hn])
    · rcases append_eq_append_cons heq with ⟨q', rfl, hp⟩ | ⟨p', -, hp⟩
      · rw [hsame T hT]
        exact (h.marks p T q' hp).imp (·.append _) id
      · have hmem : Event.marked (κ := κ) T none ∈ tables.map (.marked · none) := by simp [hp]
        simp only [List.mem_map, Event.marked.injEq, and_true, exists_eq_right] at hmem
        exact absurd hmem hT
  · rw [hlog]
    refine h.certified.append ?_
    rintro more e he rfl
    simp at he
  · rw [hlog]
    refine h.settled.append ?_
    rintro more e he d T rfl
    simp at he
  · rw [hlog]
    refine h.kept.append (keptMarks_of_none ?_)
    rintro e he T k rfl
    simp at he

/-- Other events than marks, settlements and certifications, and views that say of every drain under a
    present mark what the invariant says. -/
theorem Owing.aside {new : List (Event κ)} (h : Owing s) (hlog : s'.log = s.log ++ new)
    (haside : ∀ e ∈ new, e.aside = true) (hnone : ∀ e ∈ new, ∀ T k, e ≠ .marked T (some k))
    (howed : s'.sync.repageOwed = s.sync.repageOwed) (hseq : s'.sync.repageOwedSeq = s.sync.repageOwedSeq)
    (hdrains : ∀ d T n start, s'.view d = some (T, some n, start) → n ≤ s.sync.repageOwedSeq)
    (hfloors : ∀ d T m, s'.view d = some (T, m, some .floor) → T = .price_snapshots)
    (hunder : ∀ p T q, s.log = p ++ .marked T none :: q → ∀ n, s.sync.repageOwed T = some n →
      ∀ d start, s'.view d = some (T, some n, start) →
        .opened d T ∈ q ++ new ∧ ∀ st, start = some st → .started d st ∈ q ++ new) : Owing s' := by
  have heach := each_of_aside h.certified h.settled haside
  refine ⟨?_, hseq ▸ hdrains, hfloors, ?_, ?_, hlog ▸ heach.1, hlog ▸ heach.2,
    hlog ▸ h.kept.append (keptMarks_of_none hnone)⟩
  · rw [howed, hseq]
    exact h.seq
  · intro p T q heq n hn d start hv
    rw [hlog] at heq
    obtain ⟨q', rfl, hp⟩ := mark_of_aside heq haside
    exact hunder p T q' hp n (howed ▸ hn) d start hv
  · intro p T q heq
    rw [hlog] at heq
    obtain ⟨q', rfl, hp⟩ := mark_of_aside heq haside
    rw [howed]
    exact (h.marks p T q' hp).imp (·.append new) id

theorem Owing.opened {d : ℕ} {T : MirrorTable} (h : Owing s) (hlog : s'.log = s.log ++ [.opened d T])
    (hsync : s'.sync = s.sync)
    (hview : s'.view = Function.update s.view d (some (T, s.sync.repageOwed T, none))) : Owing s' := by
  refine h.aside hlog (by simp [Event.aside]) (by simp) (by rw [hsync]) (by rw [hsync]) ?_ ?_ ?_
  · intro e U n start hv
    rw [hview] at hv
    by_cases hed : e = d
    · subst hed
      rw [Function.update_self, Option.some.injEq, Prod.mk.injEq, Prod.mk.injEq] at hv
      exact h.seq T n hv.2.1
    · rw [Function.update_of_ne hed] at hv
      exact h.drains e U n start hv
  · intro e U m hv
    rw [hview] at hv
    by_cases hed : e = d
    · subst hed
      simp at hv
    · rw [Function.update_of_ne hed] at hv
      exact h.floors e U m hv
  · intro p U q hp n hn e start hv
    rw [hview] at hv
    by_cases hed : e = d
    · subst hed
      simp only [Function.update_self, Option.some.injEq, Prod.mk.injEq] at hv
      obtain ⟨rfl, -, rfl⟩ := hv
      exact ⟨by simp, nofun⟩
    · rw [Function.update_of_ne hed] at hv
      obtain ⟨hopened, hstarted⟩ := h.under p U q hp n hn e start hv
      exact ⟨List.mem_append_left _ hopened, fun st hst => List.mem_append_left _ (hstarted st hst)⟩

theorem Owing.started {d : ℕ} {T : MirrorTable} {m : Option ℕ} {start : Start} (h : Owing s)
    (hv₀ : s.view d = some (T, m, none)) (hlog : s'.log = s.log ++ [.started d start])
    (howed : s'.sync.repageOwed = s.sync.repageOwed) (hseq : s'.sync.repageOwedSeq = s.sync.repageOwedSeq)
    (hview : s'.view = Function.update s.view d (some (T, m, some start)))
    (hfloor : start = .floor → T = .price_snapshots) : Owing s' := by
  refine h.aside hlog (by simp [Event.aside]) (by simp) howed hseq ?_ ?_ ?_
  · intro e U n st hv
    rw [hview] at hv
    by_cases hed : e = d
    · subst hed
      simp only [Function.update_self, Option.some.injEq, Prod.mk.injEq] at hv
      obtain ⟨rfl, rfl, -⟩ := hv
      exact h.drains e T n none hv₀
    · rw [Function.update_of_ne hed] at hv
      exact h.drains e U n st hv
  · intro e U m' hv
    rw [hview] at hv
    by_cases hed : e = d
    · subst hed
      simp only [Function.update_self, Option.some.injEq, Prod.mk.injEq] at hv
      obtain ⟨rfl, -, hst⟩ := hv
      exact hfloor hst
    · rw [Function.update_of_ne hed] at hv
      exact h.floors e U m' hv
  · intro p U q hp n hn e st hv
    rw [hview] at hv
    by_cases hed : e = d
    · subst hed
      simp only [Function.update_self, Option.some.injEq, Prod.mk.injEq] at hv
      obtain ⟨rfl, rfl, rfl⟩ := hv
      obtain ⟨hopened, -⟩ := h.under p T q hp n hn e none hv₀
      refine ⟨List.mem_append_left _ hopened, ?_⟩
      intro st hst
      cases hst
      simp
    · rw [Function.update_of_ne hed] at hv
      obtain ⟨hopened, hstarted⟩ := h.under p U q hp n hn e st hv
      exact ⟨List.mem_append_left _ hopened, fun st' hst => List.mem_append_left _ (hstarted st' hst)⟩

theorem Owing.settle {d : ℕ} {T : MirrorTable} {n : ℕ} {start : Start} (h : Owing s)
    (hs : Settling s s' d T n start) : Owing s' := by
  obtain ⟨hv, hstart, howes, hlog, howed, hseq, hview⟩ := hs
  have hwhole : start = .zero ∨ start = .floor ∧ T = .price_snapshots := by
    cases start with
    | zero => exact .inl rfl
    | floor => exact .inr ⟨rfl, h.floors d T _ hv⟩
    | stored => exact absurd rfl hstart
  have hold {p : List (Event κ)} {U : MirrorTable} {q : List (Event κ)}
      (heq : s'.log = p ++ .marked U none :: q) :
      ∃ q', q = q' ++ [.completed d, .settled d T] ∧ s.log = p ++ .marked U none :: q' := by
    rw [hlog] at heq
    rcases append_eq_append_cons heq with hold | ⟨p', -, hp⟩
    · exact hold
    · have hmem : Event.marked U none ∈ [Event.completed (κ := κ) d, .settled d T] := by simp [hp]
      simp at hmem
  refine ⟨?_, ?_, ?_, ?_, ?_, ?_, ?_, ?_⟩
  · intro U n' hn'
    rw [howed] at hn'
    by_cases hU : U = T
    · subst hU
      simp at hn'
    · rw [Function.update_of_ne hU] at hn'
      exact hseq ▸ h.seq U n' hn'
  · rw [hview, hseq]
    exact h.drains
  · rw [hview]
    exact h.floors
  · intro p U q heq n' hn' e st he
    obtain ⟨q', rfl, hp⟩ := hold heq
    rw [howed] at hn'
    rw [hview] at he
    by_cases hU : U = T
    · subst hU
      simp at hn'
    · rw [Function.update_of_ne hU] at hn'
      obtain ⟨hopened, hstarted⟩ := h.under p U q' hp n' hn' e st he
      exact ⟨List.mem_append_left _ hopened, fun st' hst => List.mem_append_left _ (hstarted st' hst)⟩
  · intro p U q heq
    obtain ⟨q', rfl, hp⟩ := hold heq
    by_cases hU : U = T
    · subst hU
      obtain ⟨hopened, hstarted⟩ := h.under p U q' hp n howes d _ hv
      exact .inl ⟨d, start, List.mem_append_left _ hopened,
        List.mem_append_left _ (hstarted start rfl), by simp, hwhole⟩
    · rw [howed, Function.update_of_ne hU]
      exact (h.marks p U q' hp).imp (·.append _) id
  · rw [hlog]
    refine h.certified.append ?_
    rintro more e he rfl
    simp at he
  · rw [hlog, List.append_cons, each_concat, each_concat]
    refine ⟨⟨h.settled, nofun⟩, ?_⟩
    rintro e U heq p q hp
    cases heq
    obtain ⟨q', rfl, hp'⟩ := mark_of_aside hp (by simp [Event.aside])
    exact List.mem_append_left _ (h.under p T q' hp' n howes d _ hv).1
  · rw [hlog]
    exact h.kept.append (keptMarks_of_none (by simp))

theorem Owing.certify (h : Owing s) (hlog : s'.log = s.log ++ [.certified])
    (hnone : ∀ T, s.sync.repageOwed T = none) (howed : s'.sync.repageOwed = s.sync.repageOwed)
    (hseq : s'.sync.repageOwedSeq = s.sync.repageOwedSeq) (hview : s'.view = s.view) : Owing s' := by
  have hall : ∀ p T q, s.log = p ++ .marked T none :: q → Repaged T q := by
    intro p T q hp
    refine (h.marks p T q hp).resolve_right ?_
    simp [hnone T]
  have hold {p : List (Event κ)} {U : MirrorTable} {q : List (Event κ)}
      (heq : s'.log = p ++ .marked U none :: q) : ∃ q', q = q' ++ [.certified] ∧
        s.log = p ++ .marked U none :: q' := by
    rw [hlog] at heq
    rcases concat_eq_append_cons heq with hold | ⟨-, -, hcert⟩
    · exact hold
    · cases hcert
  refine ⟨?_, ?_, ?_, ?_, ?_, ?_, ?_, ?_⟩
  · rw [howed, hseq]
    exact h.seq
  · rw [hview, hseq]
    exact h.drains
  · rw [hview]
    exact h.floors
  · intro p U q heq n hn e st he
    simp [howed, hnone U] at hn
  · intro p U q heq
    obtain ⟨q', rfl, hp⟩ := hold heq
    exact .inl ((hall p U q' hp).append _)
  · rw [hlog, each_concat]
    exact ⟨h.certified, fun _ => hall⟩
  · rw [hlog, each_concat]
    exact ⟨h.settled, nofun⟩
  · rw [hlog]
    exact h.kept.append (keptMarks_of_none (by simp))

theorem Owing.markStep (h : Owing s) (hs : MarkStep s s') : Owing s' := by
  cases hs with
  | same heq => exact heq ▸ h
  | marks tables hlog hseq hfresh hsame hview => exact h.marked hlog hseq hfresh hsame hview
  | opened d T hlog hsync hview => exact h.opened hlog hsync hview
  | started d T m start hv hlog howed hseq hview hfloor =>
    exact h.started hv hlog howed hseq hview hfloor
  | certified hlog hnone howed hseq hview => exact h.certify hlog hnone howed hseq hview

theorem Owing.step [DecidableEq κ] {cap : ℕ} {l : Label K κ} (h : Owing s)
    (hs : s.step cap l = some s') : Owing s' := by
  rcases markStep_of_step hs with ⟨u, hmark, hquiet⟩ | ⟨d, _, T, n, start, u, -, hsettle, hquiet⟩
  · exact (h.markStep hmark).quiet hquiet
  · exact (h.settle hsettle).quiet hquiet

/-! ### Every run -/

variable [DecidableEq κ]

/-- An owed re-page is not lost: where a pass certifies, every table that was marked was paged again
    since, from the start or from the recorded floor, but for the marks that came with a row the hold
    map kept. A drain settles a mark only if it was opened after every mark there is, and until one does
    the table stays owed, whatever holds came and went. -/
theorem no_repage_lost (cap : ℕ) {labels : List (Label K κ)}
    (hr : Runs.run (State.step cap) {} labels = some s) :
    Each CertifiesRepaged s.log ∧ Each SettlesLater s.log ∧ KeptMarks s.log ∧
      ∀ p T q, s.log = p ++ .marked T none :: q → Repaged T q ∨ (s.sync.repageOwed T).isSome := by
  have h : Owing s := Runs.run_inv' (fun _ _ _ h hs => h.step hs) owing_init hr
  exact ⟨h.certified, h.settled, h.kept, h.marks⟩

/-- A connection is made, a live row is held, and a pass drains every table. -/
def heldThenDrained : List (Label Unit ℕ) :=
  [.socket (.ready (some 1) true none none), .live 0 7, .fence 0 false, .judged 0 .held, .passBegin] ++
    (List.range 12).flatMap (fun d =>
      [.passTable, .resolve d, .account d, .start d none, .complete d none]) ++
    [.passEnd false]

theorem no_repage_lost_certified : ∃ s : State Unit ℕ,
    Runs.run (State.step CAPABILITY_SNAPSHOT_KEY_CAP) {} heldThenDrained = some s ∧
      s.log.getLast? = some .certified ∧ Event.marked .capability_snapshots none ∈ s.log ∧
      (Each CertifiesRepaged s.log ∧ Each SettlesLater s.log ∧ KeptMarks s.log ∧
        ∀ p T q, s.log = p ++ .marked T none :: q → Repaged T q ∨ (s.sync.repageOwed T).isSome) := by
  have hlog : (Runs.run (State.step CAPABILITY_SNAPSHOT_KEY_CAP) {} heldThenDrained).map (fun s =>
      (s.log.getLast?, decide (Event.marked .capability_snapshots none ∈ s.log))) =
        some (some .certified, true) := by decide +kernel
  obtain ⟨s, hr, hs⟩ := Option.map_eq_some_iff.mp hlog
  simp only [Prod.mk.injEq, decide_eq_true_eq] at hs
  exact ⟨s, hr, hs.1, hs.2, no_repage_lost CAPABILITY_SNAPSHOT_KEY_CAP hr⟩

end HubDbSync.CapabilityProof
