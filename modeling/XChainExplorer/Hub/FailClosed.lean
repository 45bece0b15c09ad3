import XChainExplorer.Hub.ApplyLatch

/-! # The watermarks stand still behind the latch

    Every step of the mirror keeps `Latched`, and while a latch is shut no frame and no drain moves
    the stream watermark or certifies a table. A run that certifies over a row which failed after
    its table was drained does both. -/

namespace HubDbSync

open Runs

variable {K : Type*} {w w' : World K} {s : Sync K}

/-! ### The connection -/

/-- The ready frame is a change of the connection's fields and a mark on the tables it re-pages. -/
theorem adoptReadyFrame_marks (s : Sync K) (instanceId : Option ℕ) (caughtUp : Bool)
    (maxIds : Option (MirrorTable → Option ℕ)) (heights : Option (Heights K)) :
    ∃ s' : Sync K, s'.owes = s.owes ∧ s'.streamWatermark = s.streamWatermark ∧
      (s.adoptReadyFrame instanceId caughtUp maxIds heights).owes =
        (s'.markRepageOwed REPAGE_PER_CONNECTION_TABLES).owes ∧
      (s.adoptReadyFrame instanceId caughtUp maxIds heights).streamWatermark =
        (s'.markRepageOwed REPAGE_PER_CONNECTION_TABLES).streamWatermark := by
  unfold Sync.adoptReadyFrame
  simp only
  refine ⟨_, ?_, ?_, rfl, rfl⟩ <;> split_ifs <;> rfl

theorem Latched.socketStep [DecidableEq K] (h : Latched w) {l : Label K}
    (hs : w.socketStep l = some w') : Latched w' := by
  cases l with
  | connect =>
    simp only [World.socketStep] at hs
    split at hs
    · simp at hs
    · obtain rfl := Option.some.inj hs
      exact h.congr rfl rfl rfl rfl rfl
  | deliver =>
    simp only [World.socketStep] at hs
    split at hs
    · split at hs
      case h_1 =>
        obtain rfl := Option.some.inj hs
        obtain ⟨s', howes, -, hmark, -⟩ := adoptReadyFrame_marks w.sync _ _ _ _
        have h' : Latched { w with sync := s' } := h.congr howes rfl rfl rfl rfl
        exact (h'.markRepageOwed REPAGE_PER_CONNECTION_TABLES).congr hmark rfl rfl rfl rfl
      case h_2 =>
        obtain rfl := Option.some.inj hs
        exact h.congr rfl rfl rfl rfl rfl
    · simp at hs
  | disconnect =>
    simp only [World.socketStep] at hs
    split at hs
    · simp at hs
    · obtain rfl := Option.some.inj hs
      exact h.congr rfl rfl rfl rfl rfl
  | resync =>
    obtain rfl := Option.some.inj hs
    have h' : Latched { w with sync := { w.sync with
        lastHubInstanceId := none, drainPositions := fun _ => 0 } } := h.congr rfl rfl rfl rfl rfl
    exact h'.markRepageOwed MIRRORED_TABLES
  | selectorChange | moveHub =>
    obtain rfl := Option.some.inj hs
    exact h.congr rfl rfl rfl rfl rfl
  | _ => simp [World.socketStep] at hs

theorem Latched.hubStep [DecidableEq K] (h : Latched w) {l : Label K}
    (hs : w.hubStep l = some w') : Latched w' := by
  cases l with
  | commit => exact Option.some.inj hs ▸ h.congr rfl rfl rfl rfl rfl
  | retract => exact Option.some.inj hs ▸ h.congr rfl rfl rfl rfl rfl
  | publish => exact Option.some.inj hs ▸ h.congr rfl rfl rfl rfl rfl
  | heartbeat => exact Option.some.inj hs ▸ h.congr rfl rfl rfl rfl rfl
  | _ => simp [World.hubStep] at hs

theorem Latched.chainStep (h : Latched w) {l : Label K} (hs : w.chainStep l = some w') :
    Latched w' := by
  cases l with
  | next =>
    simp only [World.chainStep] at hs
    split at hs
    case h_1 t ts _ _ =>
      obtain rfl := Option.some.inj hs
      have h' : Latched { w with chain := ts } := h.congr rfl rfl rfl rfl rfl
      exact (h'.begin t).congr rfl rfl rfl rfl rfl
    · simp at hs
  | apply o =>
    obtain ⟨b, -, rfl⟩ := Option.map_eq_some_iff.mp hs
    exact (h.finish b o).congr rfl rfl rfl rfl rfl
  | nextStale i =>
    obtain ⟨t, -, rfl⟩ := Option.map_eq_some_iff.mp hs
    have h' : Latched { w with stale := w.stale.eraseIdx i } := h.congr rfl rfl rfl rfl rfl
    exact (h'.begin t).congr rfl rfl rfl rfl rfl
  | applyOld i o =>
    obtain ⟨b, -, rfl⟩ := Option.map_eq_some_iff.mp hs
    have h' : Latched { w with oldBusy := w.oldBusy.eraseIdx i } := h.congr rfl rfl rfl rfl rfl
    exact (h'.finish b o).congr rfl rfl rfl rfl rfl
  | _ => simp [World.chainStep] at hs

/-! ### Any step -/

variable [DecidableEq K] {pollMode : Bool} {l : Label K}

/-- The four kinds of step. -/
theorem step_cases (hs : w.step pollMode l = some w') :
    w.hubStep l = some w' ∨ w.socketStep l = some w' ∨ w.chainStep l = some w' ∨
      (∃ p : Pass K, w' = { w with
        sync := { w.sync with pendingBootstrapHeights := none }, pass := some p } ∧
        w.pass = none ∧ p.todo = drainOrder ∧ p.pc = .next) ∨
      ∃ p, w.pass = some p ∧ w.passStep pollMode p l = some w' := by
  cases l with
  | commit | retract | publish | heartbeat => exact .inl hs
  | connect | deliver | disconnect | resync | selectorChange | moveHub => exact .inr (.inl hs)
  | next | apply | nextStale | applyOld => exact .inr (.inr (.inl hs))
  | bootstrapAll =>
    simp only [World.step] at hs
    split at hs
    case h_1 => simp at hs
    case h_2 hp =>
      obtain rfl := Option.some.inj hs
      exact .inr (.inr (.inr (.inl ⟨_, rfl, hp, rfl, rfl⟩)))
  | _ =>
    obtain ⟨p, hp, hs⟩ := Option.bind_eq_some_iff.mp hs
    exact .inr (.inr (.inr (.inr ⟨p, hp, hs⟩)))

theorem Latched.step (h : Latched w) (hl : CertifiesServed w l)
    (hs : w.step pollMode l = some w') : Latched w' := by
  rcases step_cases hs with hs | hs | hs | ⟨p, rfl, hp, htodo, hpc⟩ | ⟨p, hp, hs⟩
  · exact h.hubStep hs
  · exact h.socketStep hs
  · exact h.chainStep hs
  · refine ⟨h.latch, h.seq, ?_, fun T hT => (h.owed T hT).imp fun n hn => ⟨hn.1, ?_⟩, ?_⟩
    · rintro _ ⟨⟩ n hn
      simp [Pass.mark_of_next hpc] at hn
    · rintro _ ⟨⟩ -
      simp [Pass.mark_of_next hpc]
    · rintro _ ⟨⟩ - T hT
      exact absurd (mem_drainOrder T) (htodo ▸ hT)
  · exact h.passStep hp hl hs

/-! ### Behind a shut latch -/

section shut

variable {T : MirrorTable}

/-- One of the two latches is shut. -/
def Sync.shut (s : Sync K) : Prop := s.applyFailureSeen = true ∨ s.schemaMismatchSeen = true

omit [DecidableEq K] in
theorem Sync.shut.handleWatermarkFrame (h : s.shut) (ts : ℤ) (heights : Option (Heights K)) :
    s.handleWatermarkFrame ts heights = s := by
  rcases h with h | h <;> simp [Sync.handleWatermarkFrame, h]

omit [DecidableEq K] in
theorem Sync.shut.tableWatermark (h : s.shut) (U : MirrorTable) : s.tableWatermark U = 0 := by
  have hno : s.tableCertifiedOnCurrentConnection U = false := by
    rcases h with h | h <;> simp [Sync.tableCertifiedOnCurrentConnection, h]
  simp [Sync.tableWatermark, hno]

omit [DecidableEq K] in
@[simp] theorem noteHubTip_streamWatermark (ts : ℤ) :
    (s.noteHubTip ts).streamWatermark = s.streamWatermark := by
  unfold Sync.noteHubTip
  split_ifs <;> rfl

omit [DecidableEq K] in
@[simp] theorem bufferPriceEvent_streamWatermark (cap : ℕ) (event : PriceEvent) :
    (s.bufferPriceEvent cap event).streamWatermark = s.streamWatermark := by
  unfold Sync.bufferPriceEvent
  split_ifs <;> rfl

omit [DecidableEq K] in
@[simp] theorem markRepageOwed_streamWatermark (tables : List MirrorTable) :
    (s.markRepageOwed tables).streamWatermark = s.streamWatermark :=
  (markRepageOwed_frame s tables).2.2

omit [DecidableEq K] in
@[simp] theorem replayed_sync (flushed : Bool) : (w.replayed flushed).sync = w.sync := rfl

omit [DecidableEq K] in
/-- A link of the chain moves the stream watermark by a heartbeat only. -/
theorem begin_streamWatermark (h : w.sync.shut) (t : Task K) :
    (w.begin t).1.sync.streamWatermark = w.sync.streamWatermark := by
  have hrow (U : MirrorTable) (ok : Bool) (e : PriceEvent) (b : Busy) :
      (w.handleRowEvent U ok e b).1.sync.streamWatermark = w.sync.streamWatermark := by
    unfold World.handleRowEvent
    split_ifs
    · exact markRepageOwed_streamWatermark MIRRORED_TABLES
    · exact bufferPriceEvent_streamWatermark _ _
    · rfl
  cases t with
  | replay epoch => rfl
  | frame f epoch revision =>
    simp only [World.begin]
    split_ifs
    · rfl
    · cases f with
      | ready => rfl
      | watermark ts heights =>
        have htip : (w.sync.noteHubTip ts).shut := by
          unfold Sync.noteHubTip
          split_ifs <;> exact h
        simp [htip.handleWatermarkFrame]
      | inserted => exact hrow _ _ _ _
      | deleted => exact hrow _ _ _ _

omit [DecidableEq K] in
theorem finish_streamWatermark (w : World K) (b : Busy) (o : Outcome) :
    (w.finish b o).1.sync.streamWatermark = w.sync.streamWatermark := by
  unfold World.finish
  split
  · unfold World.flushNext
    split
    · rfl
    · split
      · split <;> rfl
      · cases o
        · simp only
          split <;> rfl
        · rfl
  all_goals rfl

omit [DecidableEq K] in
theorem certifyTable_streamWatermark (w : World K) (pollMode : Bool) (p : Pass K) (d : Drain K) :
    (w.certifyTable pollMode p d).sync.streamWatermark = w.sync.streamWatermark := by
  have hcert : (w.sync.certifyTableDrain pollMode d).streamWatermark = w.sync.streamWatermark := by
    unfold Sync.certifyTableDrain
    cases d.heights <;> cases pollMode <;> rfl
  simp only [World.certifyTable, Sync.settleRepageOwed]
  split_ifs <;> exact hcert

/-- No step moves the stream watermark while a table is unserved. -/
theorem Latched.streamWatermark_step (h : Latched w) (hT : w.unserved T = true)
    (hl : CertifiesServed w l) (hs : w.step pollMode l = some w') :
    w'.sync.streamWatermark = w.sync.streamWatermark := by
  have hshut : w.sync.shut := h.latch T hT
  rcases step_cases hs with hs | hs | hs | ⟨p, rfl, -⟩ | ⟨p, hp, hs⟩
  · cases l <;> simp only [World.hubStep, Option.some.injEq, reduceCtorEq] at hs <;> subst hs <;> rfl
  · cases l with
    | connect =>
      simp only [World.socketStep] at hs
      split at hs
      · simp at hs
      · exact Option.some.inj hs ▸ rfl
    | deliver =>
      simp only [World.socketStep] at hs
      split at hs
      · split at hs
        · obtain rfl := Option.some.inj hs
          obtain ⟨s', -, hs', -, hmark⟩ := adoptReadyFrame_marks w.sync _ _ _ _
          exact hmark.trans ((markRepageOwed_streamWatermark _).trans hs')
        · exact Option.some.inj hs ▸ rfl
      · simp at hs
    | disconnect =>
      simp only [World.socketStep] at hs
      split at hs
      · simp at hs
      · exact Option.some.inj hs ▸ rfl
    | resync => exact Option.some.inj hs ▸ markRepageOwed_streamWatermark MIRRORED_TABLES
    | selectorChange | moveHub => exact Option.some.inj hs ▸ rfl
    | _ => simp [World.socketStep] at hs
  · cases l with
    | next =>
      simp only [World.chainStep] at hs
      split at hs
      case h_1 t ts _ _ =>
        obtain rfl := Option.some.inj hs
        exact begin_streamWatermark (w := { w with chain := ts }) hshut t
      · simp at hs
    | apply o =>
      obtain ⟨b, -, rfl⟩ := Option.map_eq_some_iff.mp hs
      exact finish_streamWatermark w b o
    | nextStale i =>
      obtain ⟨t, -, rfl⟩ := Option.map_eq_some_iff.mp hs
      exact begin_streamWatermark (w := { w with stale := w.stale.eraseIdx i }) hshut t
    | applyOld i o =>
      obtain ⟨b, -, rfl⟩ := Option.map_eq_some_iff.mp hs
      exact finish_streamWatermark { w with oldBusy := w.oldBusy.eraseIdx i } b o
    | _ => simp [World.chainStep] at hs
  · rfl
  · cases passTrans_of_passStep hs with
    | passEnd hpc htodo =>
      split_ifs with hc
      · have := h.all_served hp hpc htodo hc (fun U => hl p hp hc U (mem_MIRRORED_TABLES U)) T
        simp [hT] at this
      · rfl
    | certify => exact certifyTable_streamWatermark w pollMode p _
    | _ => rfl

/-! ### Until the table is drained again -/

/-- The drain of `T` in flight completes, and no live row of `T` failed or was refused since it
    opened. -/
def World.Reserves (w : World K) (T : MirrorTable) : Prop :=
  ∃ p ∈ w.pass, ∃ d, p.pc = .draining d ∧ d.pc = .ending ∧ d.table = T ∧
    w.failedSince T = false ∧ w.refusedSince T = false

omit [DecidableEq K] in
theorem fail_unserved (hT : w.unserved T = true) (U : MirrorTable) :
    (w.fail U).unserved T = true := by
  simp only [World.fail, Function.update_apply]
  split_ifs
  · rfl
  · exact hT

omit [DecidableEq K] in
theorem begin_unserved (hT : w.unserved T = true) (t : Task K) :
    (w.begin t).1.unserved T = true := by
  have hrow (U : MirrorTable) (ok : Bool) (e : PriceEvent) (b : Busy) :
      (w.handleRowEvent U ok e b).1.unserved T = true := by
    unfold World.handleRowEvent
    split_ifs
    · exact fail_unserved hT U
    · exact hT
    · exact hT
  cases t with
  | replay epoch => exact hT
  | frame f epoch revision =>
    simp only [World.begin]
    split_ifs
    · exact hT
    · cases f with
      | ready => exact hT
      | watermark => exact hT
      | inserted => exact hrow _ _ _ _
      | deleted => exact hrow _ _ _ _

omit [DecidableEq K] in
theorem finish_unserved (hT : w.unserved T = true) (b : Busy) (o : Outcome) :
    (w.finish b o).1.unserved T = true := by
  unfold World.finish
  split
  · unfold World.flushNext
    split
    · exact hT
    · split
      · split <;> exact hT
      · cases o
        · simp only
          split <;> exact hT
        · exact fail_unserved hT .price_snapshots
  · exact hT
  · exact fail_unserved hT _
  · exact hT
  · exact fail_unserved hT _

/-- A table stays unserved until a drain of it that opened after its last failure completes. -/
theorem unserved_step (hT : w.unserved T = true) (hs : w.step pollMode l = some w') :
    w'.unserved T = true ∨ l = .certify ∧ w.Reserves T := by
  rcases step_cases hs with hs | hs | hs | ⟨p, rfl, -⟩ | ⟨p, hp, hs⟩
  · refine .inl ?_
    cases l <;> simp only [World.hubStep, Option.some.injEq, reduceCtorEq] at hs <;> subst hs <;>
      exact hT
  · refine .inl ?_
    cases l with
    | connect =>
      simp only [World.socketStep] at hs
      split at hs
      · simp at hs
      · exact Option.some.inj hs ▸ hT
    | deliver =>
      simp only [World.socketStep] at hs
      split at hs
      · split at hs
        · exact Option.some.inj hs ▸ hT
        · exact Option.some.inj hs ▸ hT
      · simp at hs
    | disconnect =>
      simp only [World.socketStep] at hs
      split at hs
      · simp at hs
      · exact Option.some.inj hs ▸ hT
    | resync => exact Option.some.inj hs ▸ hT
    | selectorChange | moveHub => exact Option.some.inj hs ▸ hT
    | _ => simp [World.socketStep] at hs
  · refine .inl ?_
    cases l with
    | next =>
      simp only [World.chainStep] at hs
      split at hs
      case h_1 t ts _ _ =>
        obtain rfl := Option.some.inj hs
        exact begin_unserved (w := { w with chain := ts }) hT t
      · simp at hs
    | apply o =>
      obtain ⟨b, -, rfl⟩ := Option.map_eq_some_iff.mp hs
      exact finish_unserved hT b o
    | nextStale i =>
      obtain ⟨t, -, rfl⟩ := Option.map_eq_some_iff.mp hs
      exact begin_unserved (w := { w with stale := w.stale.eraseIdx i }) hT t
    | applyOld i o =>
      obtain ⟨b, -, rfl⟩ := Option.map_eq_some_iff.mp hs
      exact finish_unserved (w := { w with oldBusy := w.oldBusy.eraseIdx i }) hT b o
    | _ => simp [World.chainStep] at hs
  · exact .inl hT
  · cases passTrans_of_passStep hs with
    | @certify d hd hpc =>
      simp only [World.certifyTable, Function.update_apply]
      split_ifs with heq
      · subst heq
        by_cases hf : (w.failedSince d.table || w.refusedSince d.table) = true
        · exact .inl (by rw [hT, hf]; rfl)
        · simp only [Bool.or_eq_true, not_or, Bool.not_eq_true] at hf
          exact .inr ⟨trivial, p, hp, d, hd, hpc, rfl, hf.1, hf.2⟩
      · exact .inl hT
    | _ => exact .inl hT

theorem Latched.shut_until (h : Latched w) (hT : w.unserved T = true) {fs : List (Label K)}
    (hm : Meets (World.step pollMode) CertifiesServed w fs)
    (hr : run (World.step pollMode) w fs = some w') :
    (w'.sync.streamWatermark = w.sync.streamWatermark ∧ ∀ U, w'.sync.tableWatermark U = 0) ∨
      ∃ gs v, gs ++ [.certify] <+: fs ∧ run (World.step pollMode) w gs = some v ∧ v.Reserves T := by
  induction fs generalizing w with
  | nil =>
    obtain rfl := Option.some.inj hr
    exact .inl ⟨rfl, fun U => (show w.sync.shut from h.latch T hT).tableWatermark U⟩
  | cons l fs ih =>
    obtain ⟨v, hv, hr⟩ := run_cons.mp hr
    rw [meets_cons hv] at hm
    rcases unserved_step hT hv with hT' | ⟨rfl, hres⟩
    · rcases ih (h.step hm.1 hv) hT' hm.2 hr with ⟨hsame, hzero⟩ | ⟨gs, u, hpre, hu, hres⟩
      · exact .inl ⟨hsame.trans (h.streamWatermark_step hT hm.1 hv), hzero⟩
      · exact .inr ⟨l :: gs, u, by simpa using hpre, run_cons.mpr ⟨v, hv, hu⟩, hres⟩
    · exact .inr ⟨[], w, by simp, rfl, hres⟩

end shut

/-- In every run whose passes certify only when no table has had a live row fail since its drain
    opened: from the state where a live row of `T` failed on, the stream watermark stands and every
    table watermark reads zero, until a drain of `T` that opened after the last failure completes. -/
theorem apply_latch_fails_closed {es fs : List (Label K)} {T : MirrorTable}
    (hm : Meets (World.step pollMode) CertifiesServed {} (es ++ fs))
    (hr : run (World.step pollMode) {} es = some w) (hT : w.unserved T = true)
    (hr' : run (World.step pollMode) w fs = some w') :
    (w'.sync.streamWatermark = w.sync.streamWatermark ∧ ∀ U, w'.sync.tableWatermark U = 0) ∨
      ∃ gs v, gs ++ [.certify] <+: fs ∧ run (World.step pollMode) w gs = some v ∧ v.Reserves T := by
  obtain ⟨hes, hfs⟩ := (meets_append hr).mp hm
  have h : Latched w := run_inv (fun _ _ _ hl hc hs => hl.step hc hs) Latched.init hes hr
  exact h.shut_until hT hfs hr'

/-! ### A row that fails behind its drain -/

/-- The subscription opens on a hub that states its instance. -/
def subscribe : List (Label Unit) := [.connect (some 1) true true true, .deliver]

/-- One table's drain, over a single short page with no row. -/
def drainEmpty (watermark : ℤ) : List (Label Unit) :=
  [.table, .openTable, .serve (some watermark) false true, .take, .pageEnd, .close, .certify]

/-- The price drain, whose replay waits its turn in the message chain. -/
def drainNoPrices (watermark : ℤ) : List (Label Unit) :=
  [.table, .openTable, .serve (some watermark) false true, .take, .pageEnd, .close, .next,
    .apply .handled, .close, .certify]

/-- A live row comes in and fails to apply. -/
def failRow (T : MirrorTable) (id : ℕ) : List (Label Unit) :=
  [.commit T id true, .deliver, .next, .apply .failed]

/-- The oracle table is drained, one of its rows fails, and the tables behind it are drained. -/
def failBehindDrain : List (Label Unit) :=
  subscribe ++ .bootstrapAll :: drainEmpty 5 ++ failRow .oracle_prices 1 ++
    (List.replicate 10 (drainEmpty 5)).flatten ++ drainNoPrices 5

theorem apply_latch_fails_closed_heartbeat : ∃ w w' : World Unit,
    run (World.step false) {} (subscribe ++ failRow .oracle_prices 1) = some w ∧
      run (World.step false) w [.heartbeat 9 true, .deliver, .next] = some w' ∧
      w'.sync.streamWatermark = w.sync.streamWatermark ∧ ∀ U, w'.sync.tableWatermark U = 0 := by
  obtain ⟨w, hr, hT⟩ : ∃ w, run (World.step false) {} (subscribe ++ failRow .oracle_prices 1) =
      some w ∧ w.unserved .oracle_prices = true := Option.map_eq_some_iff.mp (by decide +kernel)
  obtain ⟨w', hr', -⟩ : ∃ w', run (World.step false) {} (subscribe ++ failRow .oracle_prices 1 ++
      [.heartbeat 9 true, .deliver, .next]) = some w' ∧ w'.unserved .oracle_prices = true :=
    Option.map_eq_some_iff.mp (by decide +kernel)
  obtain ⟨_, hu, hr'⟩ := run_append.mp hr'
  obtain rfl := Option.some.inj (hr.symm.trans hu)
  refine ⟨w, w', hr, hr', ?_⟩
  rcases apply_latch_fails_closed (by decide +kernel) hr hT hr' with h | ⟨gs, v, hpre, -⟩
  · exact h
  · have hmem : Label.certify ∈ gs ++ [Label.certify (K := Unit)] := by simp
    have := hpre.subset hmem
    simp at this

/-- A pass that drained the table before its row failed opens the latch and moves the watermark. -/
theorem apply_latch_opened : ¬ ∀ (es fs : List (Label Unit)) (w w' : World Unit) (T : MirrorTable),
    run (World.step false) {} es = some w → w.unserved T = true →
    run (World.step false) w fs = some w' →
    (w'.sync.streamWatermark = w.sync.streamWatermark ∧ ∀ U, w'.sync.tableWatermark U = 0) ∨
      ∃ gs v, gs ++ [.certify] <+: fs ∧ run (World.step false) w gs = some v ∧ v.Reserves T := by
  intro h
  obtain ⟨w, hr, hw⟩ : ∃ w, run (World.step false) {} failBehindDrain = some w ∧
      (w.unserved .oracle_prices, w.sync.streamWatermark) = (true, 0) :=
    Option.map_eq_some_iff.mp (by decide +kernel)
  obtain ⟨w', hr', hw'⟩ : ∃ w', run (World.step false) {} (failBehindDrain ++ [.passEnd false]) =
      some w' ∧ w'.sync.streamWatermark = 5 := Option.map_eq_some_iff.mp (by decide +kernel)
  obtain ⟨_, hu, hr'⟩ := run_append.mp hr'
  obtain rfl := Option.some.inj (hr.symm.trans hu)
  obtain ⟨hT, hzero⟩ := Prod.mk.inj hw
  rcases h _ _ w w' .oracle_prices hr hT hr' with ⟨hsame, -⟩ | ⟨gs, v, hpre, -⟩
  · rw [hw', hzero] at hsame
    exact absurd hsame (by decide)
  · have hmem : Label.certify ∈ gs ++ [Label.certify (K := Unit)] := by simp
    have := hpre.subset hmem
    simp at this

end HubDbSync
