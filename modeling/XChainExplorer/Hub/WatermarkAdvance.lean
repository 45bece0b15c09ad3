import XChainExplorer.Hub.FailClosed

/-! # What moves the watermarks

    The stream watermark rises with the certification of a full drain, and with a heartbeat behind one.
    A table's own watermark is set by the certification of its drain, and rises with a heartbeat behind
    it. All of them on the connection in use: a heartbeat of an older one is dropped whenever its turn
    comes. -/

namespace HubDbSync

open Runs

variable {K : Type*}

/-! ### The steps that may -/

/-- A pass ends that drained every table on the connection in use, with none owed a re-page. -/
def World.CertifiesFull (w : World K) (l : Label K) : Prop :=
  ∃ p uncaughtUp, l = .passEnd uncaughtUp ∧ w.pass = some p ∧ p.todo = [] ∧ p.undrained = false ∧
    p.drainEpoch = w.sync.wsEpoch ∧ p.selectorRevision = w.sync.selectorRevision ∧
    ∀ T, w.sync.repageOwed T = none

/-- The drain of a table ends that was opened on the connection in use. -/
def World.CertifiesTable (T : MirrorTable) (w : World K) (l : Label K) : Prop :=
  ∃ p d, l = .certify ∧ w.pass = some p ∧ p.pc = .draining d ∧ d.table = T ∧
    d.connectionEpoch = w.sync.wsEpoch ∧ d.selectorRevision = w.sync.selectorRevision

/-- The link of a message chain a step begins. -/
def World.begun (w : World K) : Label K → Option (Task K)
  | .next => w.chain.head?
  | .nextStale i => w.stale[i]?
  | _ => none

/-- A heartbeat is taken up that came in on the connection in use, with both latches open. -/
def World.Heartbeats (w : World K) (l : Label K) : Prop :=
  (∃ ts heights, w.begun l =
    some (.frame (.watermark ts heights) w.sync.wsEpoch w.sync.selectorRevision)) ∧
  w.sync.schemaMismatchSeen = false ∧ w.sync.applyFailureSeen = false

/-! ### What a step leaves of them -/

def Sync.marks (s : Sync K) : ℤ × (MirrorTable → ℤ) := (s.streamWatermark, s.tableWatermarks)

/-- The connections the tables were certified on. -/
def Sync.drains (s : Sync K) : (MirrorTable → Option ℕ) × (MirrorTable → Option ℕ) :=
  (s.tableDrainEpochs, s.tableDrainRevisions)

def Sync.connection (s : Sync K) : ℕ × ℕ := (s.wsEpoch, s.selectorRevision)

/-- The steps, by what they do to the watermarks and to what certifies them. -/
inductive Moves (w : World K) (l : Label K) (s : Sync K) : Prop
  | quiet (hmarks : s.marks = w.sync.marks) (hdrains : s.drains = w.sync.drains)
      (hconn : s.connection = w.sync.connection) (hboot : s.bootstrapDrained = w.sync.bootstrapDrained)
  | dropped (hmarks : s.marks = w.sync.marks) (hdrains : s.drains = w.sync.drains)
      (hepoch : w.sync.wsEpoch ≤ s.wsEpoch) (hboot : s.bootstrapDrained = false)
  | heartbeat (hbeat : w.Heartbeats l) (hdrains : s.drains = w.sync.drains)
      (hconn : s.connection = w.sync.connection) (hboot : s.bootstrapDrained = w.sync.bootstrapDrained)
      (hstream : s.streamWatermark = w.sync.streamWatermark ∨ w.sync.bootstrapDrained = true)
      (htables : ∀ T, s.tableWatermarks T = w.sync.tableWatermarks T ∨
        w.sync.tableCertifiedOnCurrentConnection T = true)
  | table (T : MirrorTable) (hcert : w.CertifiesTable T l)
      (hstream : s.streamWatermark = w.sync.streamWatermark)
      (htables : ∀ U, U ≠ T → s.tableWatermarks U = w.sync.tableWatermarks U)
      (hdrains : s.drains = (Function.update w.sync.tableDrainEpochs T (some w.sync.wsEpoch),
        Function.update w.sync.tableDrainRevisions T (some w.sync.selectorRevision)))
      (hconn : s.connection = w.sync.connection) (hboot : s.bootstrapDrained = w.sync.bootstrapDrained)
  | full (hcert : w.CertifiesFull l) (htables : s.tableWatermarks = w.sync.tableWatermarks)
      (hdrains : s.drains = w.sync.drains) (hconn : s.connection = w.sync.connection)

/-- Everything a quiet step leaves. -/
def Sync.certificate (s : Sync K) : (ℤ × (MirrorTable → ℤ)) ×
    ((MirrorTable → Option ℕ) × (MirrorTable → Option ℕ)) × (ℕ × ℕ) × Bool :=
  (s.marks, s.drains, s.connection, s.bootstrapDrained)

section moves
variable {w w' : World K} {s : Sync K} {l : Label K}

theorem moves_of_certificate (h : s.certificate = w.sync.certificate) : Moves w l s := by
  simp only [Sync.certificate, Prod.mk.injEq] at h
  exact .quiet h.1 h.2.1 h.2.2.1 h.2.2.2

@[simp] theorem certificate_noteHubTip (s : Sync K) (ts : ℤ) :
    (s.noteHubTip ts).certificate = s.certificate := by
  unfold Sync.noteHubTip
  split_ifs <;> rfl

@[simp] theorem certificate_bufferPriceEvent (s : Sync K) (cap : ℕ) (event : PriceEvent) :
    (s.bufferPriceEvent cap event).certificate = s.certificate := by
  unfold Sync.bufferPriceEvent
  split_ifs <;> rfl

@[simp] theorem certificate_markRepageOwed (s : Sync K) (tables : List MirrorTable) :
    (s.markRepageOwed tables).certificate = s.certificate := by
  unfold Sync.markRepageOwed
  induction tables generalizing s with
  | nil => rfl
  | cons t tables ih => exact (ih (s.markOwed t)).trans rfl

@[simp] theorem certificate_settleRepageOwed (s : Sync K) (d : Drain K) :
    (s.settleRepageOwed d).certificate = s.certificate := by
  unfold Sync.settleRepageOwed
  split_ifs <;> rfl

/-! ### A heartbeat -/

/-- What a heartbeat does of the tables: it writes the watermarks of certified ones. -/
structure Beats (s t : Sync K) : Prop where
  stream : t.streamWatermark = s.streamWatermark
  drains : t.drains = s.drains
  connection : t.connection = s.connection
  boot : t.bootstrapDrained = s.bootstrapDrained
  certified : ∀ U, t.tableCertifiedOnCurrentConnection U = s.tableCertifiedOnCurrentConnection U
  tables : ∀ U, t.tableWatermarks U = s.tableWatermarks U ∨ s.tableCertifiedOnCurrentConnection U = true

theorem Beats.refl (s : Sync K) : Beats s s :=
  ⟨rfl, rfl, rfl, rfl, fun _ => rfl, fun _ => .inl rfl⟩

theorem Beats.trans {s t u : Sync K} (h : Beats s t) (h' : Beats t u) : Beats s u where
  stream := h'.stream.trans h.stream
  drains := h'.drains.trans h.drains
  connection := h'.connection.trans h.connection
  boot := h'.boot.trans h.boot
  certified U := (h'.certified U).trans (h.certified U)
  tables U := by
    rcases h'.tables U with hsame | hcert
    · rcases h.tables U with hsame' | hcert
      · exact .inl (hsame.trans hsame')
      · exact .inr hcert
    · exact .inr ((h.certified U).symm.trans hcert)

theorem beats_table (s : Sync K) (ts : ℤ) (heights : Option (Heights K)) (T : MirrorTable) :
    Beats s (Sync.advanceCertifiedTableWatermark ts heights s T) := by
  unfold Sync.advanceCertifiedTableWatermark
  split_ifs with hcert hlow
  · exact Beats.refl s
  · have hT : s.tableCertifiedOnCurrentConnection T = true := by simpa using hcert
    have htables : ∀ U, Function.update s.tableWatermarks T ts U = s.tableWatermarks U ∨
        s.tableCertifiedOnCurrentConnection U = true := by
      intro U
      by_cases hU : U = T
      · exact .inr (hU ▸ hT)
      · exact .inl (Function.update_of_ne hU _ _)
    cases heights <;> exact ⟨rfl, rfl, rfl, rfl, fun _ => rfl, htables⟩
  · cases heights <;> exact ⟨rfl, rfl, rfl, rfl, fun _ => rfl, fun _ => .inl rfl⟩

theorem beats_tables (s : Sync K) (ts : ℤ) (heights : Option (Heights K)) :
    Beats s (s.advanceCertifiedTableWatermarks ts heights) := by
  unfold Sync.advanceCertifiedTableWatermarks
  induction MIRRORED_TABLES generalizing s with
  | nil => exact Beats.refl s
  | cons T tables ih => exact (beats_table s ts heights T).trans (ih _)

theorem certified_congr {s t : Sync K} (h : t.certificate = s.certificate)
    (hschema : t.schemaMismatchSeen = s.schemaMismatchSeen)
    (happly : t.applyFailureSeen = s.applyFailureSeen) (U : MirrorTable) :
    t.tableCertifiedOnCurrentConnection U = s.tableCertifiedOnCurrentConnection U := by
  simp only [Sync.certificate, Sync.drains, Sync.connection, Prod.mk.injEq] at h
  obtain ⟨-, ⟨hepochs, hrevisions⟩, ⟨hepoch, hrevision⟩, hboot⟩ := h
  simp only [Sync.tableCertifiedOnCurrentConnection, hschema, happly, hepochs, hrevisions, hepoch,
    hrevision, hboot]

/-- A heartbeat, behind what was noted of its tip. -/
theorem moves_handleWatermarkFrame {s₀ : Sync K} {ts : ℤ} {heights : Option (Heights K)}
    (hb : w.begun l = some (.frame (.watermark ts heights) w.sync.wsEpoch w.sync.selectorRevision))
    (h₀ : s₀.certificate = w.sync.certificate)
    (hschema : s₀.schemaMismatchSeen = w.sync.schemaMismatchSeen)
    (happly : s₀.applyFailureSeen = w.sync.applyFailureSeen) :
    Moves w l (s₀.handleWatermarkFrame ts heights) := by
  have hcert := certified_congr h₀ hschema happly
  simp only [Sync.certificate, Prod.mk.injEq] at h₀
  obtain ⟨hmarks, hdrains, hconn, hboot⟩ := h₀
  have hstream : s₀.streamWatermark = w.sync.streamWatermark := congrArg Prod.fst hmarks
  have htables : s₀.tableWatermarks = w.sync.tableWatermarks := congrArg Prod.snd hmarks
  unfold Sync.handleWatermarkFrame
  split_ifs with hlatch
  · exact .quiet hmarks hdrains hconn hboot
  · simp only [Bool.or_eq_true, not_or, Bool.not_eq_true, hschema, happly] at hlatch
    have hbeats := beats_tables s₀ ts heights
    have hwritten : ∀ T, (s₀.advanceCertifiedTableWatermarks ts heights).tableWatermarks T =
        w.sync.tableWatermarks T ∨ w.sync.tableCertifiedOnCurrentConnection T = true := by
      intro T
      rw [← hcert T, ← htables]
      exact hbeats.tables T
    generalize s₀.advanceCertifiedTableWatermarks ts heights = s₁ at hbeats hwritten ⊢
    simp only
    split_ifs with hopen
    · exact .heartbeat ⟨⟨ts, heights, hb⟩, hlatch⟩ (hbeats.drains.trans hdrains)
        (hbeats.connection.trans hconn) (hbeats.boot.trans hboot) (.inl (hbeats.stream.trans hstream))
        hwritten
    · have hdrained : w.sync.bootstrapDrained = true := by
        rw [← hboot, ← hbeats.boot]
        simpa using hopen
      unfold Sync.advanceWatermark
      split_ifs <;> exact .heartbeat ⟨⟨ts, heights, hb⟩, hlatch⟩ (hbeats.drains.trans hdrains)
        (hbeats.connection.trans hconn) (hbeats.boot.trans hboot) (.inr hdrained) hwritten

/-! ### The links of the message chain -/

theorem certificate_handleRowEvent (w : World K) (T : MirrorTable) (ok : Bool) (e : PriceEvent)
    (b : Busy) : (w.handleRowEvent T ok e b).1.sync.certificate = w.sync.certificate := by
  unfold World.handleRowEvent
  split_ifs
  · exact certificate_markRepageOwed _ MIRRORED_TABLES
  · exact certificate_bufferPriceEvent _ _ _
  · rfl

/-- A frame of another connection is dropped. -/
theorem begin_of_old (w : World K) {f : Frame K} {epoch revision : ℕ}
    (hold : epoch ≠ w.sync.wsEpoch ∨ revision ≠ w.sync.selectorRevision) :
    w.begin (.frame f epoch revision) = (w, none) := by
  simp only [World.begin, if_pos hold]

theorem moves_begin {v : World K} (hv : v.sync = w.sync) {t : Task K} (hb : w.begun l = some t) :
    Moves w l (v.begin t).1.sync := by
  cases t with
  | replay epoch => exact moves_of_certificate (hv ▸ rfl)
  | frame f epoch revision =>
    by_cases hold : epoch ≠ v.sync.wsEpoch ∨ revision ≠ v.sync.selectorRevision
    · rw [begin_of_old v hold, hv]
      exact moves_of_certificate rfl
    · have hcurrent : epoch = w.sync.wsEpoch ∧ revision = w.sync.selectorRevision := by
        rw [← hv]
        exact ⟨not_not.mp (not_or.mp hold).1, not_not.mp (not_or.mp hold).2⟩
      obtain ⟨rfl, rfl⟩ := hcurrent
      simp only [World.begin, if_neg hold]
      cases f with
      | ready => exact moves_of_certificate (hv ▸ rfl)
      | watermark ts heights =>
        refine moves_handleWatermarkFrame hb (hv ▸ certificate_noteHubTip _ _) ?_ ?_
        all_goals
          rw [hv]
          unfold Sync.noteHubTip
          split_ifs <;> rfl
      | inserted | deleted =>
        exact moves_of_certificate ((certificate_handleRowEvent v _ _ _ _).trans (hv ▸ rfl))

theorem certificate_finish (w : World K) (b : Busy) (o : Outcome) :
    (w.finish b o).1.sync.certificate = w.sync.certificate := by
  unfold World.finish
  split
  · unfold World.flushNext
    split
    · rfl
    · split
      · split <;> rfl
      · cases o
        · simp only
          split <;> rfl
        · rfl
  all_goals rfl

/-! ### The other steps -/

theorem moves_certifyTable {p : Pass K} {d : Drain K} (pollMode : Bool) (hp : w.pass = some p)
    (hd : p.pc = .draining d)
    (hon : w.sync.onConnection d.connectionEpoch d.selectorRevision = true) :
    Moves w .certify (w.certifyTable pollMode p d).sync := by
  simp only [Sync.onConnection, Bool.and_eq_true, beq_iff_eq] at hon
  have hcert : (w.certifyTable pollMode p d).sync.certificate =
      (w.sync.certifyTableDrain pollMode d).certificate := certificate_settleRepageOwed _ d
  have hdrain : (w.sync.certifyTableDrain pollMode d).certificate =
      ((w.sync.streamWatermark, Function.update w.sync.tableWatermarks d.table
        (if pollMode then 0 else d.watermark.getD 0)),
      (Function.update w.sync.tableDrainEpochs d.table (some d.connectionEpoch),
        Function.update w.sync.tableDrainRevisions d.table (some d.selectorRevision)),
      w.sync.connection, w.sync.bootstrapDrained) := by
    unfold Sync.certifyTableDrain
    cases d.heights <;> cases pollMode <;> rfl
  rw [hdrain] at hcert
  simp only [Sync.certificate, Prod.mk.injEq] at hcert
  obtain ⟨hmarks, hdrains, hconn, hboot⟩ := hcert
  refine .table d.table ⟨p, d, rfl, hp, hd, rfl, hon⟩ (congrArg Prod.fst hmarks) (fun U hU => ?_) ?_
    hconn hboot
  · have htables := congrFun (congrArg Prod.snd hmarks) U
    exact htables.trans (Function.update_of_ne hU _ _)
  · rw [hdrains, hon.1, hon.2]

theorem moves_passEnd {p : Pass K} {uncaughtUp : Bool} (pollMode : Bool) (hp : w.pass = some p)
    (ht : p.todo = []) (hs : s = if w.certifies p uncaughtUp then
      w.sync.certifyFullDrain pollMode p.marks else w.sync) : Moves w (.passEnd uncaughtUp) s := by
  subst hs
  split_ifs with hcert
  · simp only [World.certifies, Bool.and_eq_true, Bool.not_eq_true', List.isEmpty_iff,
      Sync.onConnection, beq_iff_eq] at hcert
    obtain ⟨⟨⟨⟨hund, howed⟩, -⟩, hepoch, hrevision⟩, -⟩ := hcert
    have howed' : ∀ T, w.sync.repageOwed T = none := by
      intro T
      rw [Sync.repageOwedTables, List.filter_eq_nil_iff] at howed
      simpa using howed T (mem_MIRRORED_TABLES T)
    have hfull : w.CertifiesFull (.passEnd uncaughtUp) :=
      ⟨p, uncaughtUp, rfl, hp, ht, hund, hepoch, hrevision, howed'⟩
    unfold Sync.certifyFullDrain
    cases pollMode
    · simp only [Bool.false_eq_true, if_false]
      unfold Sync.advanceWatermark
      split_ifs <;> exact .full hfull rfl rfl rfl
    · exact .full hfull rfl rfl rfl
  · exact moves_of_certificate rfl

theorem moves_adoptReadyFrame (instanceId : Option ℕ) (caughtUp : Bool)
    (maxIds : Option (MirrorTable → Option ℕ)) (heights : Option (Heights K)) :
    Moves w l (w.sync.adoptReadyFrame instanceId caughtUp maxIds heights) := by
  have hmark (t : Sync K) : (t.markRepageOwed REPAGE_PER_CONNECTION_TABLES).certificate =
      t.certificate := certificate_markRepageOwed t _
  simp only [Sync.certificate, Prod.mk.injEq] at hmark
  unfold Sync.adoptReadyFrame
  simp only
  split_ifs
  · exact .dropped (hmark _).1 (hmark _).2.1 (congrArg Prod.fst (hmark _).2.2.1).ge (hmark _).2.2.2
  · exact .dropped (hmark _).1 (hmark _).2.1 (congrArg Prod.fst (hmark _).2.2.1).ge (hmark _).2.2.2
  · exact .quiet (hmark _).1 (hmark _).2.1 (hmark _).2.2.1 (hmark _).2.2.2
  · exact .quiet (hmark _).1 (hmark _).2.1 (hmark _).2.2.1 (hmark _).2.2.2

variable [DecidableEq K] {pollMode : Bool}

theorem moves_socketStep (hs : w.socketStep l = some w') : Moves w l w'.sync := by
  cases l with
  | connect =>
    simp only [World.socketStep] at hs
    split at hs
    · cases hs
    · cases hs
      exact moves_of_certificate rfl
  | deliver =>
    simp only [World.socketStep] at hs
    split at hs
    · split at hs
      · cases hs
        exact moves_adoptReadyFrame _ _ _ _
      · cases hs
        exact moves_of_certificate rfl
    · cases hs
  | disconnect resync =>
    simp only [World.socketStep] at hs
    split at hs
    · cases hs
    · cases hs
      exact .dropped rfl rfl (Nat.le_succ _) rfl
  | resync =>
    cases hs
    exact moves_of_certificate (certificate_markRepageOwed _ MIRRORED_TABLES)
  | selectorChange | moveHub =>
    cases hs
    exact .dropped rfl rfl le_rfl rfl
  | _ => cases hs

omit [DecidableEq K] in
theorem moves_chainStep (hs : w.chainStep l = some w') : Moves w l w'.sync := by
  cases l with
  | next =>
    simp only [World.chainStep] at hs
    split at hs
    case h_1 t ts _ hchain =>
      cases hs
      have hbegun : w.begun .next = some t := by
        rw [World.begun, hchain]
        rfl
      exact moves_begin (w := w) (v := { w with chain := ts }) rfl hbegun
    · cases hs
  | apply o =>
    obtain ⟨b, -, rfl⟩ := Option.map_eq_some_iff.mp hs
    exact moves_of_certificate (certificate_finish w b o)
  | nextStale i =>
    obtain ⟨t, ht, rfl⟩ := Option.map_eq_some_iff.mp hs
    exact moves_begin (w := w) (v := { w with stale := w.stale.eraseIdx i }) rfl ht
  | applyOld i o =>
    obtain ⟨b, -, rfl⟩ := Option.map_eq_some_iff.mp hs
    exact moves_of_certificate (certificate_finish { w with oldBusy := w.oldBusy.eraseIdx i } b o)
  | _ => cases hs

theorem moves_passTrans {p : Pass K} (hp : w.pass = some p) (ht : PassTrans pollMode w p l w') :
    Moves w l w'.sync := by
  cases ht with
  | passEnd hpc ht => exact moves_passEnd pollMode hp ht rfl
  | certify hd hpc hon => exact moves_certifyTable pollMode hp hd hon
  | _ => exact moves_of_certificate rfl

theorem moves_of_step (hs : w.step pollMode l = some w') : Moves w l w'.sync := by
  rcases step_cases hs with hs | hs | hs | ⟨p, rfl, -⟩ | ⟨p, hp, hs⟩
  · cases l <;> simp only [World.hubStep, Option.some.injEq, reduceCtorEq] at hs <;> subst hs <;>
      exact moves_of_certificate rfl
  · exact moves_socketStep hs
  · exact moves_chainStep hs
  · exact moves_of_certificate rfl
  · exact moves_passTrans hp (passTrans_of_passStep hs)

end moves

/-! ### What certified them -/

variable [DecidableEq K] {pollMode : Bool}

/-- An earlier step of the run, on the given connection, satisfies `C`. -/
def Earlier (pollMode : Bool) (labels : List (Label K)) (C : World K → Label K → Prop)
    (connection : ℕ × ℕ) : Prop :=
  ∃ before l after v, labels = before ++ l :: after ∧
    run (World.step pollMode) {} before = some v ∧ C v l ∧ v.sync.connection = connection

section history
variable {labels : List (Label K)} {C : World K → Label K → Prop} {connection : ℕ × ℕ}

theorem Earlier.concat (h : Earlier pollMode labels C connection) (l : Label K) :
    Earlier pollMode (labels ++ [l]) C connection := by
  obtain ⟨before, l', after, v, rfl, hv, hC, hconn⟩ := h
  exact ⟨before, l', after ++ [l], v, by simp, hv, hC, hconn⟩

theorem earlier_last {v : World K} {l : Label K} (hv : run (World.step pollMode) {} labels = some v)
    (hC : C v l) : Earlier pollMode (labels ++ [l]) C v.sync.connection :=
  ⟨labels, l, [], v, rfl, hv, hC, rfl⟩

end history

/-- Each certificate in force goes back to a step of the run on its connection. -/
structure Certificates (pollMode : Bool) (labels : List (Label K)) (w : World K) : Prop where
  full : w.sync.bootstrapDrained = true →
    Earlier pollMode labels World.CertifiesFull w.sync.connection
  table : ∀ T epoch revision, w.sync.tableDrainEpochs T = some epoch →
    w.sync.tableDrainRevisions T = some revision →
      Earlier pollMode labels (World.CertifiesTable T) (epoch, revision)

theorem Certificates.concat {labels : List (Label K)} {w w' : World K} {l : Label K}
    (h : Certificates pollMode labels w) (hr : run (World.step pollMode) {} labels = some w)
    (hs : w.step pollMode l = some w') : Certificates pollMode (labels ++ [l]) w' := by
  have hkept (hdrains : w'.sync.drains = w.sync.drains) : ∀ T epoch revision,
      w'.sync.tableDrainEpochs T = some epoch → w'.sync.tableDrainRevisions T = some revision →
        Earlier pollMode (labels ++ [l]) (World.CertifiesTable T) (epoch, revision) := by
    obtain ⟨hepochs, hrevisions⟩ := Prod.mk.inj hdrains
    intro T epoch revision hepoch hrevision
    rw [hepochs] at hepoch
    rw [hrevisions] at hrevision
    exact (h.table T epoch revision hepoch hrevision).concat l
  have hstill (hconn : w'.sync.connection = w.sync.connection)
      (hboot : w'.sync.bootstrapDrained = w.sync.bootstrapDrained)
      (hopen : w'.sync.bootstrapDrained = true) :
      Earlier pollMode (labels ++ [l]) World.CertifiesFull w'.sync.connection := by
    rw [hconn]
    exact (h.full (hboot ▸ hopen)).concat l
  cases moves_of_step hs with
  | quiet hmarks hdrains hconn hboot => exact ⟨hstill hconn hboot, hkept hdrains⟩
  | dropped hmarks hdrains hepoch hboot =>
    refine ⟨fun hopen => ?_, hkept hdrains⟩
    rw [hboot] at hopen
    cases hopen
  | heartbeat hbeat hdrains hconn hboot => exact ⟨hstill hconn hboot, hkept hdrains⟩
  | table T hcert hstream htables hdrains hconn hboot =>
    refine ⟨hstill hconn hboot, fun U epoch revision hepoch hrevision => ?_⟩
    obtain ⟨hepochs, hrevisions⟩ := Prod.mk.inj hdrains
    rw [hepochs] at hepoch
    rw [hrevisions] at hrevision
    by_cases hU : U = T
    · subst hU
      rw [Function.update_self] at hepoch hrevision
      cases hepoch
      cases hrevision
      exact earlier_last hr hcert
    · rw [Function.update_of_ne hU] at hepoch hrevision
      exact (h.table U epoch revision hepoch hrevision).concat l
  | full hcert htables hdrains hconn =>
    refine ⟨fun _ => ?_, hkept hdrains⟩
    rw [hconn]
    exact earlier_last hr hcert

theorem certificates {labels : List (Label K)} {w : World K}
    (hr : run (World.step pollMode) {} labels = some w) : Certificates pollMode labels w := by
  refine run_history ⟨fun hopen => ?_, fun T epoch revision hepoch => ?_⟩
    (fun es u l t hu h hs => h.concat hu hs) hr
  · cases hopen
  · cases hepoch

/-! ### What a closed connection left behind -/

/-- A link is of the connection in use or of an earlier one. -/
def Task.UpTo (t : Task K) (epoch : ℕ) : Prop :=
  ∀ f frameEpoch revision, t = .frame f frameEpoch revision → frameEpoch ≤ epoch

omit [DecidableEq K] in
theorem Task.UpTo.mono {t : Task K} {m n : ℕ} (h : t.UpTo m) (hmn : m ≤ n) : t.UpTo n :=
  fun f epoch revision ht => (h f epoch revision ht).trans hmn

omit [DecidableEq K] in
theorem upTo_replay (epoch n : ℕ) : (Task.replay epoch : Task K).UpTo n := by
  intro f frameEpoch revision ht
  cases ht

/-- The links of the chain, and those a closed connection left. -/
structure QueuedUpTo (w : World K) : Prop where
  chain : ∀ t ∈ w.chain, t.UpTo w.sync.wsEpoch
  stale : ∀ t ∈ w.stale, ∀ f epoch revision, t = .frame f epoch revision → epoch < w.sync.wsEpoch

section queues
variable {w w' : World K} {l : Label K}

theorem wsEpoch_le_of_step (hs : w.step pollMode l = some w') : w.sync.wsEpoch ≤ w'.sync.wsEpoch := by
  cases moves_of_step hs with
  | quiet hmarks hdrains hconn => exact (congrArg Prod.fst hconn).ge
  | dropped hmarks hdrains hepoch => exact hepoch
  | heartbeat hbeat hdrains hconn => exact (congrArg Prod.fst hconn).ge
  | table T hcert hstream htables hdrains hconn => exact (congrArg Prod.fst hconn).ge
  | full hcert htables hdrains hconn => exact (congrArg Prod.fst hconn).ge

omit [DecidableEq K] in
/-- A link that begins touches neither queue. -/
theorem begin_queues (w : World K) (t : Task K) :
    (w.begin t).1.chain = w.chain ∧ (w.begin t).1.stale = w.stale := by
  have hrow (T : MirrorTable) (ok : Bool) (e : PriceEvent) (b : Busy) :
      (w.handleRowEvent T ok e b).1.chain = w.chain ∧
        (w.handleRowEvent T ok e b).1.stale = w.stale := by
    unfold World.handleRowEvent
    split_ifs
    · simp only [World.refuse, and_self]
    · exact ⟨rfl, rfl⟩
    · exact ⟨rfl, rfl⟩
  cases t with
  | replay epoch => exact ⟨rfl, rfl⟩
  | frame f epoch revision =>
    simp only [World.begin]
    split_ifs
    · exact ⟨rfl, rfl⟩
    · cases f
      · exact ⟨rfl, rfl⟩
      · exact ⟨rfl, rfl⟩
      · exact hrow _ _ _ _
      · exact hrow _ _ _ _

omit [DecidableEq K] in
theorem finish_queues (w : World K) (b : Busy) (o : Outcome) :
    (w.finish b o).1.chain = w.chain ∧ (w.finish b o).1.stale = w.stale := by
  unfold World.finish
  split
  · unfold World.flushNext
    split
    · exact ⟨rfl, rfl⟩
    · split
      · split <;> exact ⟨rfl, rfl⟩
      · cases o
        · simp only
          split <;> exact ⟨rfl, rfl⟩
        · exact ⟨rfl, rfl⟩
  all_goals exact ⟨rfl, rfl⟩

/-- The queues after a step: the close of the socket hands the chain over, and any other step takes
    links out or puts one of the connection in use in. -/
inductive Requeued (w : World K) (w' : World K) : Prop
  | closed (hchain : w'.chain = []) (hstale : w'.stale = w.stale ++ w.chain)
      (hepoch : w.sync.wsEpoch < w'.sync.wsEpoch)
  | kept (hchain : ∀ t ∈ w'.chain, t ∈ w.chain ∨ t.UpTo w.sync.wsEpoch)
      (hstale : ∀ t ∈ w'.stale, t ∈ w.stale)

omit [DecidableEq K] in
theorem requeued_same (hchain : w'.chain = w.chain) (hstale : w'.stale = w.stale) :
    Requeued w w' :=
  .kept (fun _ ht => .inl (hchain ▸ ht)) (fun _ ht => hstale ▸ ht)

theorem requeued_socketStep (hs : w.socketStep l = some w') : Requeued w w' := by
  cases l with
  | connect =>
    simp only [World.socketStep] at hs
    split at hs
    · cases hs
    · cases hs
      exact requeued_same rfl rfl
  | deliver =>
    simp only [World.socketStep] at hs
    split at hs
    · split at hs
      · cases hs
        exact requeued_same rfl rfl
      · cases hs
        refine .kept (fun t ht => (List.mem_append.mp ht).imp_right fun hlast => ?_) fun t ht => ht
        obtain rfl := List.mem_singleton.mp hlast
        intro f epoch revision ht
        cases ht
        exact le_rfl
    · cases hs
  | disconnect resync =>
    simp only [World.socketStep] at hs
    split at hs
    · cases hs
    · cases hs
      exact .closed rfl rfl (Nat.lt_succ_self _)
  | resync | selectorChange | moveHub =>
    cases hs
    exact requeued_same rfl rfl
  | _ => cases hs

omit [DecidableEq K] in
theorem requeued_chainStep (hs : w.chainStep l = some w') : Requeued w w' := by
  cases l with
  | next =>
    simp only [World.chainStep] at hs
    split at hs
    case h_1 t ts _ hchain =>
      cases hs
      let v : World K := { w with chain := ts }
      obtain ⟨hc, hst⟩ : (v.begin t).1.chain = ts ∧ (v.begin t).1.stale = w.stale := begin_queues v t
      refine .kept (fun u hu => .inl ?_) (fun u hu => hst ▸ hu)
      rw [hchain]
      exact List.mem_cons_of_mem t (hc ▸ hu)
    · cases hs
  | apply o =>
    obtain ⟨b, -, rfl⟩ := Option.map_eq_some_iff.mp hs
    obtain ⟨hc, hst⟩ := finish_queues w b o
    exact requeued_same hc hst
  | nextStale i =>
    obtain ⟨t, -, rfl⟩ := Option.map_eq_some_iff.mp hs
    let v : World K := { w with stale := w.stale.eraseIdx i }
    obtain ⟨hc, hst⟩ : (v.begin t).1.chain = w.chain ∧ (v.begin t).1.stale = w.stale.eraseIdx i :=
      begin_queues v t
    exact .kept (fun u hu => .inl (hc ▸ hu)) (fun u hu => List.mem_of_mem_eraseIdx (hst ▸ hu))
  | applyOld i o =>
    obtain ⟨b, -, rfl⟩ := Option.map_eq_some_iff.mp hs
    obtain ⟨hc, hst⟩ := finish_queues { w with oldBusy := w.oldBusy.eraseIdx i } b o
    exact requeued_same hc hst
  | _ => cases hs

theorem requeued_of_step (hs : w.step pollMode l = some w') : Requeued w w' := by
  rcases step_cases hs with hs | hs | hs | ⟨p, rfl, -⟩ | ⟨p, hp, hs⟩
  · cases l <;> simp only [World.hubStep, Option.some.injEq, reduceCtorEq] at hs <;> subst hs <;>
      exact requeued_same rfl rfl
  · exact requeued_socketStep hs
  · exact requeued_chainStep hs
  · exact requeued_same rfl rfl
  · cases passTrans_of_passStep hs with
    | goOn hd chain hchain =>
      rcases hchain with rfl | rfl
      · exact requeued_same rfl rfl
      · refine .kept (fun t ht => (List.mem_append.mp ht).imp_right fun hlast => ?_) fun t ht => ht
        rw [List.mem_singleton.mp hlast]
        exact upTo_replay _ _
    | _ => exact requeued_same rfl rfl

theorem QueuedUpTo.step (h : QueuedUpTo w) (hs : w.step pollMode l = some w') : QueuedUpTo w' := by
  have hmono := wsEpoch_le_of_step hs
  cases requeued_of_step hs with
  | closed hchain hstale hepoch =>
    refine ⟨fun t ht => ?_, fun t ht f epoch revision heq => ?_⟩
    · rw [hchain] at ht
      cases ht
    · rw [hstale] at ht
      rcases List.mem_append.mp ht with ht | ht
      · exact (h.stale t ht f epoch revision heq).trans hepoch
      · exact (h.chain t ht f epoch revision heq).trans_lt hepoch
  | kept hchain hstale =>
    refine ⟨fun t ht => ?_, fun t ht f epoch revision heq => ?_⟩
    · rcases hchain t ht with ht | ht
      · exact (h.chain t ht).mono hmono
      · exact ht.mono hmono
    · exact (h.stale t (hstale t ht) f epoch revision heq).trans_le hmono

end queues

theorem queuedUpTo {labels : List (Label K)} {w : World K}
    (hr : run (World.step pollMode) {} labels = some w) : QueuedUpTo w := by
  refine run_inv' (fun _ _ _ h hs => h.step hs) ⟨fun t ht => ?_, fun t ht => ?_⟩ hr
  · cases ht
  · cases ht

/-! ### The watermarks over a run -/

section rises
variable {labels : List (Label K)} {w w' : World K} {l : Label K}

theorem stream_rises (hr : run (World.step pollMode) {} labels = some w)
    (hs : w.step pollMode l = some w') (hrise : w.sync.streamWatermark < w'.sync.streamWatermark) :
    w.CertifiesFull l ∨
      w.Heartbeats l ∧ Earlier pollMode labels World.CertifiesFull w.sync.connection := by
  have hnot (hsame : w'.sync.streamWatermark = w.sync.streamWatermark) : False := by
    rw [hsame] at hrise
    exact lt_irrefl _ hrise
  cases moves_of_step hs with
  | quiet hmarks => exact (hnot (congrArg Prod.fst hmarks)).elim
  | dropped hmarks => exact (hnot (congrArg Prod.fst hmarks)).elim
  | heartbeat hbeat hdrains hconn hboot hstream =>
    rcases hstream with hsame | hopen
    · exact (hnot hsame).elim
    · exact .inr ⟨hbeat, (certificates hr).full hopen⟩
  | table T hcert hstream => exact (hnot hstream).elim
  | full hcert => exact .inl hcert

theorem table_rises {T : MirrorTable} (hr : run (World.step pollMode) {} labels = some w)
    (hs : w.step pollMode l = some w')
    (hrise : w.sync.tableWatermarks T < w'.sync.tableWatermarks T) :
    w.CertifiesTable T l ∨
      w.Heartbeats l ∧ (Earlier pollMode labels (World.CertifiesTable T) w.sync.connection ∨
        Earlier pollMode labels World.CertifiesFull w.sync.connection) := by
  have hnot (hsame : w'.sync.tableWatermarks T = w.sync.tableWatermarks T) : False := by
    rw [hsame] at hrise
    exact lt_irrefl _ hrise
  cases moves_of_step hs with
  | quiet hmarks => exact (hnot (congrFun (congrArg Prod.snd hmarks) T)).elim
  | dropped hmarks => exact (hnot (congrFun (congrArg Prod.snd hmarks) T)).elim
  | heartbeat hbeat hdrains hconn hboot hstream htables =>
    refine .inr ⟨hbeat, ?_⟩
    rcases htables T with hsame | hcert
    · exact (hnot hsame).elim
    · -- the table is certified by its own drain, or by a full one
      rw [Sync.tableCertifiedOnCurrentConnection] at hcert
      split_ifs at hcert
      simp only [Bool.and_eq_true, Bool.or_eq_true, beq_iff_eq] at hcert
      rcases hcert with ⟨hepoch, hrevision⟩ | hopen
      · exact .inl ((certificates hr).table T _ _ hepoch hrevision)
      · exact .inr ((certificates hr).full hopen)
  | table U hcert hstream htables =>
    by_cases hU : T = U
    · exact .inl (hU ▸ hcert)
    · exact (hnot (htables T hU)).elim
  | full hcert htables => exact (hnot (congrFun htables T)).elim

/-- A frame that is not of the connection in use leaves the mirror as it was. -/
theorem old_frame_dropped {f : Frame K} {epoch revision : ℕ}
    (hb : w.begun l = some (.frame f epoch revision))
    (hold : (epoch, revision) ≠ w.sync.connection) (hs : w.step pollMode l = some w') :
    w'.sync = w.sync := by
  have hne : epoch ≠ w.sync.wsEpoch ∨ revision ≠ w.sync.selectorRevision := by
    by_contra hboth
    obtain ⟨he, hrev⟩ := not_or.mp hboth
    exact hold (Prod.ext (not_not.mp he) (not_not.mp hrev))
  cases l with
  | next =>
    simp only [World.step, World.chainStep] at hs
    split at hs
    case h_1 t ts _ hchain =>
      cases hs
      rw [World.begun, hchain] at hb
      obtain rfl := Option.some.inj hb
      rw [begin_of_old { w with chain := ts } hne]
    · cases hs
  | nextStale i =>
    obtain ⟨t, ht, rfl⟩ := Option.map_eq_some_iff.mp hs
    obtain rfl := Option.some.inj (ht.symm.trans hb)
    rw [begin_of_old { w with stale := w.stale.eraseIdx i } hne]
  | _ => cases hb

end rises

/-- In every run: the stream watermark rises only with the certification of a full drain, or with a
    heartbeat of the connection in use behind one on that connection; a table's watermark rises
    only with the certification of the table's drain, or with a heartbeat behind that or behind a
    full one. A frame of another connection changes nothing, and the frames a closed socket left
    are all of another connection. -/
theorem watermarks_rise_behind_certification {labels : List (Label K)} {w w' : World K}
    {l : Label K} (hr : run (World.step pollMode) {} labels = some w)
    (hs : w.step pollMode l = some w') :
    (w.sync.streamWatermark < w'.sync.streamWatermark → w.CertifiesFull l ∨
      w.Heartbeats l ∧ Earlier pollMode labels World.CertifiesFull w.sync.connection) ∧
    (∀ T, w.sync.tableWatermarks T < w'.sync.tableWatermarks T → w.CertifiesTable T l ∨
      w.Heartbeats l ∧ (Earlier pollMode labels (World.CertifiesTable T) w.sync.connection ∨
        Earlier pollMode labels World.CertifiesFull w.sync.connection)) ∧
    (∀ f epoch revision, w.begun l = some (.frame f epoch revision) →
      (epoch, revision) ≠ w.sync.connection → w'.sync = w.sync) ∧
    ∀ f epoch revision, .frame f epoch revision ∈ w.stale → epoch < w.sync.wsEpoch := by
  refine ⟨stream_rises hr hs, fun T => table_rises hr hs, fun f epoch revision hb hold => ?_,
    fun f epoch revision hmem => ?_⟩
  · exact old_frame_dropped hb hold hs
  · exact (queuedUpTo hr).stale _ hmem f epoch revision rfl

/-- Every table is drained, and the pass is at its end. -/
def drainAll : List (Label Unit) :=
  subscribe ++ .bootstrapAll :: (List.replicate 11 (drainEmpty 5)).flatten ++ drainNoPrices 5

/-- The full drain certifies at 5, and the heartbeat behind it raises the stream watermark to 9. -/
theorem watermarks_rise_on_heartbeat : ∃ w w' : World Unit,
    run (World.step false) {} (drainAll ++ [.passEnd false, .heartbeat 9 false, .deliver]) = some w ∧
      w.step false .next = some w' ∧ w.sync.streamWatermark = 5 ∧ w'.sync.streamWatermark = 9 ∧
      (w.CertifiesFull .next ∨ w.Heartbeats .next ∧
        Earlier false (drainAll ++ [.passEnd false, .heartbeat 9 false, .deliver])
          World.CertifiesFull w.sync.connection) := by
  obtain ⟨w, hr, hw⟩ : ∃ w, run (World.step false) {}
      (drainAll ++ [.passEnd false, .heartbeat 9 false, .deliver]) = some w ∧
        w.sync.streamWatermark = 5 := Option.map_eq_some_iff.mp (by decide +kernel)
  obtain ⟨w', hr', hw'⟩ : ∃ w', run (World.step false) {}
      (drainAll ++ [.passEnd false, .heartbeat 9 false, .deliver] ++ [.next]) = some w' ∧
        w'.sync.streamWatermark = 9 := Option.map_eq_some_iff.mp (by decide +kernel)
  obtain ⟨_, hu, hlast⟩ := run_append.mp hr'
  obtain rfl := Option.some.inj (hr.symm.trans hu)
  obtain ⟨_, hs, hnil⟩ := run_cons.mp hlast
  obtain rfl := Option.some.inj hnil
  refine ⟨w, _, hr, hs, hw, hw', (watermarks_rise_behind_certification hr hs).1 ?_⟩
  rw [hw, hw']
  decide

/-- The first table's drain is at its end. -/
def drainedOne : List (Label Unit) :=
  subscribe ++ [.bootstrapAll, .table, .openTable, .serve (some 5) false true, .take, .pageEnd, .close]

/-- The first table's own certification sets its watermark, with the other tables undrained. -/
theorem not_rise_behind_full_drain : ¬ ∀ (labels : List (Label Unit)) (w w' : World Unit)
    (l : Label Unit) (T : MirrorTable), run (World.step false) {} labels = some w →
    w.step false l = some w' → w.sync.tableWatermarks T < w'.sync.tableWatermarks T →
    w.CertifiesFull l ∨
      (∃ f, w.begun l = some (.frame f w.sync.wsEpoch w.sync.selectorRevision)) ∧
        Earlier false labels World.CertifiesFull w.sync.connection := by
  intro h
  obtain ⟨w, hr, hw⟩ : ∃ w, run (World.step false) {} drainedOne = some w ∧
      w.sync.tableWatermarks .oracle_prices = 0 := Option.map_eq_some_iff.mp (by decide +kernel)
  obtain ⟨w', hr', hw'⟩ : ∃ w', run (World.step false) {} (drainedOne ++ [.certify]) = some w' ∧
      w'.sync.tableWatermarks .oracle_prices = 5 := Option.map_eq_some_iff.mp (by decide +kernel)
  obtain ⟨_, hu, hlast⟩ := run_append.mp hr'
  obtain rfl := Option.some.inj (hr.symm.trans hu)
  obtain ⟨v, hs, hnil⟩ := run_cons.mp hlast
  obtain rfl := Option.some.inj hnil
  have hrise : w.sync.tableWatermarks .oracle_prices < v.sync.tableWatermarks .oracle_prices := by
    rw [hw, hw']
    decide
  rcases h drainedOne w v .certify .oracle_prices hr hs hrise with ⟨p, _, hend, -⟩ | ⟨⟨f, hb⟩, -⟩
  · cases hend
  · cases hb

end HubDbSync
