import XChainExplorer.Hub.PassSteps

/-! # The apply latch

    A live row that was not applied shuts a latch, and nothing but the certification of a full
    drain opens it. A refused schema also owes every table a re-page, so no pass certifies before a
    drain opened after the refusal completed. A row that failed to apply owes nothing: a pass that
    had drained its table before certifies over it. -/

namespace HubDbSync

variable {K : Type*}

/-! ### Owed marks -/

theorem markRepageOwed_frame (s : Sync K) (tables : List MirrorTable) :
    (s.markRepageOwed tables).applyFailureSeen = s.applyFailureSeen ∧
    (s.markRepageOwed tables).schemaMismatchSeen = s.schemaMismatchSeen ∧
    (s.markRepageOwed tables).streamWatermark = s.streamWatermark := by
  induction tables generalizing s with
  | nil => exact ⟨rfl, rfl, rfl⟩
  | cons t ts ih => exact ih (s.markOwed t)

/-- A mark is fresh where the table was named, and as before elsewhere. -/
theorem markRepageOwed_owed (s : Sync K) (tables : List MirrorTable) :
    s.repageOwedSeq ≤ (s.markRepageOwed tables).repageOwedSeq ∧ ∀ T,
      (T ∈ tables → ∃ n, (s.markRepageOwed tables).repageOwed T = some n ∧ s.repageOwedSeq < n ∧
        n ≤ (s.markRepageOwed tables).repageOwedSeq) ∧
      (T ∉ tables → (s.markRepageOwed tables).repageOwed T = s.repageOwed T) := by
  induction tables generalizing s with
  | nil => exact ⟨le_rfl, fun T => ⟨by simp, fun _ => rfl⟩⟩
  | cons t ts ih =>
    obtain ⟨hseq, hall⟩ := ih (s.markOwed t)
    have hlt : s.repageOwedSeq < (s.markOwed t).repageOwedSeq := Nat.lt_succ_self _
    refine ⟨hlt.le.trans hseq, fun T => ⟨fun hT => ?_, fun hT => ?_⟩⟩
    · by_cases hmem : T ∈ ts
      · obtain ⟨n, hn, hgt, hle⟩ := (hall T).1 hmem
        exact ⟨n, hn, hlt.trans hgt, hle⟩
      · obtain rfl : T = t := (List.mem_cons.mp hT).resolve_right hmem
        refine ⟨s.repageOwedSeq + 1, ((hall T).2 hmem).trans ?_, Nat.lt_succ_self _, hseq⟩
        simp [Sync.markOwed]
    · have hne : T ≠ t := fun h => hT (by simp [h])
      refine ((hall T).2 fun h => hT (List.mem_cons_of_mem _ h)).trans ?_
      simp [Sync.markOwed, hne]

/-! ### The invariant -/

/-- The table a pass is working on. -/
def Pass.table : Pass K → Option MirrorTable
  | { pc := .next, .. } => none
  | { pc := .opening T, .. } => some T
  | { pc := .draining d, .. } => some d.table

/-- The mark the drain in flight was opened under. -/
def Pass.mark : Pass K → Option ℕ
  | { pc := .draining d, .. } => d.repageSeq
  | _ => none

theorem Pass.table_of_next {p : Pass K} (hpc : p.pc = .next) : p.table = none := by
  obtain ⟨e, r, todo, marks, und, pc⟩ := p
  simp only at hpc
  subst hpc
  rfl

theorem Pass.mark_of_next {p : Pass K} (hpc : p.pc = .next) : p.mark = none := by
  obtain ⟨e, r, todo, marks, und, pc⟩ := p
  simp only at hpc
  subst hpc
  rfl

/-- A row that is not served again keeps a latch shut; a refused one keeps its table owed a page
    from the start under a mark no open drain can settle; and in a pass that has missed no table
    so far, a table it is through with is served up to what came in since its drain opened. -/
structure Latched (w : World K) : Prop where
  latch : ∀ T, w.unserved T = true →
    w.sync.applyFailureSeen = true ∨ w.sync.schemaMismatchSeen = true
  seq : ∀ T n, w.sync.repageOwed T = some n → n ≤ w.sync.repageOwedSeq
  mark : ∀ p ∈ w.pass, ∀ n, p.mark = some n → n ≤ w.sync.repageOwedSeq
  owed : ∀ T, w.refusedSince T = true → ∃ n, w.sync.repageOwed T = some n ∧
    ∀ p ∈ w.pass, p.table = some T → p.mark ≠ some n
  served : ∀ p ∈ w.pass, p.undrained = false → ∀ T, T ∉ p.todo → p.table ≠ some T →
    w.unserved T = true → w.failedSince T = true ∨ w.refusedSince T = true

theorem Latched.init : Latched ({} : World K) :=
  ⟨by simp, by simp, by simp, by simp, by simp⟩

variable {w w' : World K}

/-- The part of the certification state the invariant reads: the latches and the marks. -/
def Sync.owes (s : Sync K) : Bool × Bool × (MirrorTable → Option ℕ) × ℕ :=
  (s.applyFailureSeen, s.schemaMismatchSeen, s.repageOwed, s.repageOwedSeq)

/-- The invariant reads the latches, the marks, the pass and the record only. -/
theorem Latched.congr (h : Latched w) (hs : w'.sync.owes = w.sync.owes) (hp : w'.pass = w.pass)
    (hf : w'.failedSince = w.failedSince) (hr : w'.refusedSince = w.refusedSince)
    (hu : w'.unserved = w.unserved) : Latched w' := by
  simp only [Sync.owes, Prod.mk.injEq] at hs
  obtain ⟨ha, hs, ho, hq⟩ := hs
  obtain ⟨h1, h2, h3, h4, h5⟩ := h
  rw [← ha, ← hs, ← hu] at h1
  rw [← ho, ← hq] at h2
  rw [← hp, ← hq] at h3
  rw [← hr, ← ho, ← hp] at h4
  rw [← hp, ← hu, ← hf, ← hr] at h5
  exact ⟨h1, h2, h3, h4, h5⟩

/-- The pass moves on with the same table, or with none and a table missed. -/
theorem Latched.setPass (h : Latched w) {p p' : Pass K} (hp : w.pass = some p)
    (hm : p'.mark = none ∨ p'.mark = p.mark) (ht : p'.table = p.table ∨ p'.mark = none)
    (hs : p'.undrained = true ∨
      p'.undrained = p.undrained ∧ p'.todo = p.todo ∧ p'.table = p.table) :
    Latched { w with pass := some p' } := by
  refine ⟨h.latch, h.seq, ?_, fun T hT => ?_, ?_⟩
  · rintro _ ⟨⟩ n hn
    rcases hm with hm | hm
    · simp [hm] at hn
    · exact h.mark p hp n (hm ▸ hn)
  · obtain ⟨n, hn, hno⟩ := h.owed T hT
    refine ⟨n, hn, ?_⟩
    rintro _ ⟨⟩ htab
    rcases ht with ht | ht
    · rcases hm with hm | hm
      · simp [hm]
      · exact hm ▸ hno p hp (ht ▸ htab)
    · simp [ht]
  · rintro _ ⟨⟩ hund T hT htab
    rcases hs with hs | ⟨hu, htodo, ht⟩
    · simp [hs] at hund
    · exact h.served p hp (hu ▸ hund) T (htodo ▸ hT) (ht ▸ htab)

theorem Latched.miss (h : Latched w) {p : Pass K} (hp : w.pass = some p) :
    Latched { w with pass := some p.miss } :=
  h.setPass hp (.inl rfl) (.inr rfl) (.inl rfl)

/-- A drain goes on. -/
theorem Latched.setDrain (h : Latched w) {p : Pass K} {d : Drain K} (hp : w.pass = some p)
    (hd : p.pc = .draining d) (d' : Drain K) (ht : d'.table = d.table)
    (hm : d'.repageSeq = d.repageSeq) : Latched { w with pass := some (p.withDrain d') } := by
  obtain ⟨e, r, todo, marks, und, pc⟩ := p
  simp only at hd
  subst hd
  refine h.setPass hp (.inr ?_) (.inl ?_) (.inr ⟨rfl, rfl, ?_⟩)
  · simp [Pass.withDrain, Pass.mark, hm]
  · simp [Pass.withDrain, Pass.table, ht]
  · simp [Pass.withDrain, Pass.table, ht]

theorem Latched.drain (h : Latched w) {p : Pass K} {d d' : Drain K} (hp : w.pass = some p)
    (hd : p.pc = .draining d) (hp' : w'.pass = some (p.withDrain d')) (ht : d'.table = d.table)
    (hm : d'.repageSeq = d.repageSeq) (hs : w'.sync.owes = w.sync.owes)
    (hf : w'.failedSince = w.failedSince) (hr : w'.refusedSince = w.refusedSince)
    (hu : w'.unserved = w.unserved) : Latched w' :=
  (h.setDrain hp hd d' ht hm).congr hs hp' hf hr hu

theorem Latched.fail (h : Latched w) (T : MirrorTable) : Latched (w.fail T) := by
  refine ⟨fun _ _ => .inl rfl, h.seq, h.mark, h.owed, fun p hp hund U hU htab hun => ?_⟩
  simp only [World.fail, Function.update_apply] at hun ⊢
  by_cases hUT : U = T
  · simp [hUT]
  · simp only [hUT, if_false] at hun ⊢
    exact h.served p hp hund U hU htab hun

/-- A refusal shuts its latch and owes every table a fresh mark. -/
theorem refuseSchema_owed (s : Sync K) : s.refuseSchema.schemaMismatchSeen = true ∧
    s.repageOwedSeq ≤ s.refuseSchema.repageOwedSeq ∧
    ∀ T, ∃ n, s.refuseSchema.repageOwed T = some n ∧ s.repageOwedSeq < n ∧
      n ≤ s.refuseSchema.repageOwedSeq := by
  obtain ⟨hseq, hall⟩ := markRepageOwed_owed { s with schemaMismatchSeen := true } MIRRORED_TABLES
  exact ⟨(markRepageOwed_frame { s with schemaMismatchSeen := true } MIRRORED_TABLES).2.1, hseq,
    fun T => (hall T).1 (mem_MIRRORED_TABLES T)⟩

theorem Latched.refuse (h : Latched w) (T : MirrorTable) : Latched (w.refuse T) := by
  obtain ⟨hs, hseq, hall⟩ := refuseSchema_owed w.sync
  rw [World.refuse]
  generalize w.sync.refuseSchema = s at hs hseq hall
  refine ⟨fun _ _ => .inr hs, fun U n hn => ?_, fun p hp n hn => (h.mark p hp n hn).trans hseq,
    fun U _ => ?_, fun p hp hund U hU htab hun => ?_⟩
  · obtain ⟨m, hm, -, hle⟩ := hall U
    obtain rfl := Option.some.inj (hm.symm.trans hn)
    exact hle
  · obtain ⟨n, hn, hgt, -⟩ := hall U
    refine ⟨n, hn, fun p hp _ hmark => ?_⟩
    -- the mark is newer than the one any open drain was opened under
    exact absurd (h.mark p hp n hmark) (by omega)
  · simp only [Function.update_apply] at hun ⊢
    by_cases hUT : U = T
    · simp [hUT]
    · simp only [hUT, if_false] at hun ⊢
      exact h.served p hp hund U hU htab hun

/-- New marks on some tables. -/
theorem Latched.markRepageOwed (h : Latched w) (tables : List MirrorTable) :
    Latched { w with sync := w.sync.markRepageOwed tables } := by
  obtain ⟨ha, hs, -⟩ := markRepageOwed_frame w.sync tables
  obtain ⟨hseq, hall⟩ := markRepageOwed_owed w.sync tables
  refine ⟨fun T hT => by simpa only [ha, hs] using h.latch T hT, fun T n hn => ?_,
    fun p hp n hn => (h.mark p hp n hn).trans hseq, fun T hT => ?_, h.served⟩
  · by_cases hT : T ∈ tables
    · obtain ⟨m, hm, -, hle⟩ := (hall T).1 hT
      obtain rfl := Option.some.inj (hm.symm.trans hn)
      exact hle
    · exact (h.seq T n ((hall T).2 hT ▸ hn)).trans hseq
  · by_cases hmem : T ∈ tables
    · obtain ⟨n, hn, hgt, -⟩ := (hall T).1 hmem
      refine ⟨n, hn, fun p hp _ hmark => ?_⟩
      have := h.mark p hp n hmark
      omega
    · obtain ⟨n, hn, hno⟩ := h.owed T hT
      exact ⟨n, ((hall T).2 hmem).trans hn, hno⟩

/-! ### Functions that touch no latch and no mark -/

variable {s : Sync K}

@[simp] theorem owes_advanceWatermark (ts : ℤ) : (s.advanceWatermark ts).owes = s.owes := by
  unfold Sync.advanceWatermark
  split_ifs <;> rfl

@[simp] theorem owes_noteHeights (raw : Option (Heights K)) : (s.noteHeights raw).owes = s.owes :=
  rfl

@[simp] theorem owes_noteHubTip (ts : ℤ) : (s.noteHubTip ts).owes = s.owes := by
  unfold Sync.noteHubTip
  split_ifs <;> rfl

theorem advanceCertifiedTableWatermark_frame (ts : ℤ) (heights : Option (Heights K))
    (table : MirrorTable) :
    (Sync.advanceCertifiedTableWatermark ts heights s table).owes = s.owes ∧
      (Sync.advanceCertifiedTableWatermark ts heights s table).streamWatermark =
        s.streamWatermark := by
  unfold Sync.advanceCertifiedTableWatermark
  split_ifs <;> cases heights <;> exact ⟨rfl, rfl⟩

@[simp] theorem owes_advanceCertifiedTableWatermarks (ts : ℤ) (heights : Option (Heights K)) :
    (s.advanceCertifiedTableWatermarks ts heights).owes = s.owes := by
  unfold Sync.advanceCertifiedTableWatermarks
  induction MIRRORED_TABLES generalizing s with
  | nil => rfl
  | cons t ts' ih => exact ih.trans (advanceCertifiedTableWatermark_frame ts heights t).1

@[simp] theorem owes_handleWatermarkFrame (ts : ℤ) (heights : Option (Heights K)) :
    (s.handleWatermarkFrame ts heights).owes = s.owes := by
  unfold Sync.handleWatermarkFrame
  split_ifs
  · rfl
  · simp only
    split_ifs <;> simp

@[simp] theorem owes_bufferPriceEvent (cap : ℕ) (event : PriceEvent) :
    (s.bufferPriceEvent cap event).owes = s.owes := by
  unfold Sync.bufferPriceEvent
  split_ifs <;> rfl

@[simp] theorem owes_certifyTableDrain (pollMode : Bool) (d : Drain K) :
    (s.certifyTableDrain pollMode d).owes = s.owes := by
  unfold Sync.certifyTableDrain
  cases d.heights
  · rfl
  · cases pollMode <;> rfl

/-! ### The steps -/

theorem Latched.replayed (h : Latched w) (flushed : Bool) : Latched (w.replayed flushed) := by
  cases hp : w.pass with
  | none => exact h.congr rfl (by simp [World.replayed, hp]) rfl rfl rfl
  | some p =>
    cases hd : p.pc with
    | next => exact h.congr rfl (by simp [World.replayed, hp, hd]) rfl rfl rfl
    | opening T => exact h.congr rfl (by simp [World.replayed, hp, hd]) rfl rfl rfl
    | draining d =>
      cases hpc : d.pc with
      | replaying f =>
        cases f with
        | none =>
          have hdrain := h.setDrain hp hd { d with pc := .replaying (some flushed) } rfl rfl
          exact hdrain.congr rfl (by simp [World.replayed, hp, hd, hpc, Pass.withDrain]) rfl rfl rfl
        | some => exact h.congr rfl (by simp [World.replayed, hp, hd, hpc]) rfl rfl rfl
      | _ => exact h.congr rfl (by simp [World.replayed, hp, hd, hpc]) rfl rfl rfl

theorem Latched.begin (h : Latched w) (t : Task K) : Latched (w.begin t).1 := by
  have hrow (T : MirrorTable) (ok : Bool) (e : PriceEvent) (b : Busy) :
      Latched (w.handleRowEvent T ok e b).1 := by
    unfold World.handleRowEvent
    split_ifs
    · exact h.refuse T
    · exact h.congr (by simp) rfl rfl rfl rfl
    · exact h
  cases t with
  | replay epoch => exact h
  | frame f epoch revision =>
    simp only [World.begin]
    split_ifs
    · exact h
    · cases f with
      | ready => exact h
      | watermark ts heights => exact h.congr (by simp) rfl rfl rfl rfl
      | inserted T id version ok => exact hrow _ _ _ _
      | deleted T ok => exact hrow _ _ _ _

theorem Latched.landed (h : Latched w) (T : MirrorTable) (id version : ℕ) :
    Latched (w.landed T id version) :=
  h.congr rfl rfl rfl rfl rfl

theorem Latched.flushNext (h : Latched w) (epoch : ℕ) (o : Outcome) :
    Latched (w.flushNext epoch o).1 := by
  unfold World.flushNext
  split
  · refine Latched.replayed ?_ false
    exact h.congr rfl rfl rfl rfl rfl
  · split
    · split
      · refine Latched.replayed ?_ true
        exact h.congr rfl rfl rfl rfl rfl
      · exact h.replayed false
    · cases o with
      | failed => exact (h.fail _).replayed false
      | handled =>
        simp only
        split <;> exact h.congr rfl rfl rfl rfl rfl

theorem Latched.finish (h : Latched w) (b : Busy) (o : Outcome) : Latched (w.finish b o).1 := by
  unfold World.finish
  split
  · exact h.flushNext _ _
  · exact h.landed _ _ _
  · exact h.fail _
  · exact h
  · exact h.fail _

theorem Latched.openDrain (h : Latched w) {p : Pass K} {T : MirrorTable} (hp : w.pass = some p)
    (hT : p.pc = .opening T) : Latched (w.openDrain p T) := by
  refine ⟨h.latch, h.seq, ?_, fun U hU => ?_, ?_⟩
  · rintro _ ⟨⟩ n hn
    exact h.seq T n hn
  · simp only [World.openDrain, Function.update_apply] at hU
    split_ifs at hU with hUT
    obtain ⟨n, hn, -⟩ := h.owed U hU
    refine ⟨n, hn, ?_⟩
    rintro _ ⟨⟩ htab
    exact absurd (Option.some.inj htab).symm hUT
  · rintro _ ⟨⟩ hund U hU htab hun
    have hUT : U ≠ T := fun heq => htab (by rw [heq]; rfl)
    obtain ⟨e, r, todo, marks, und, pc⟩ := p
    simp only at hT
    subst hT
    have hne : (⟨e, r, todo, marks, und, .opening T⟩ : Pass K).table ≠ some U :=
      fun heq => hUT (Option.some.inj heq).symm
    simpa [World.openDrain, hUT] using h.served _ hp hund U hU hne hun

theorem Latched.certifyTable (h : Latched w) {p : Pass K} {d : Drain K} (pollMode : Bool)
    (hp : w.pass = some p) (hd : p.pc = .draining d) : Latched (w.certifyTable pollMode p d) := by
  obtain ⟨e, r, todo, marks, und, pc⟩ := p
  simp only at hd
  subst hd
  have howes := owes_certifyTableDrain (s := w.sync) pollMode d
  simp only [Sync.owes, Prod.mk.injEq] at howes
  obtain ⟨ha, hs, ho, hq⟩ := howes
  rw [World.certifyTable]
  generalize w.sync.certifyTableDrain pollMode d = s at ha hs ho hq
  -- settling drops the mark of the drain's own table, and only the one it was opened under
  have hsettle : (s.settleRepageOwed d).applyFailureSeen = s.applyFailureSeen ∧
      (s.settleRepageOwed d).schemaMismatchSeen = s.schemaMismatchSeen ∧
      (s.settleRepageOwed d).repageOwedSeq = s.repageOwedSeq ∧
      ∀ T, (s.settleRepageOwed d).repageOwed T = s.repageOwed T ∨
        (s.settleRepageOwed d).repageOwed T = none ∧ T = d.table ∧ s.repageOwed T = d.repageSeq := by
    unfold Sync.settleRepageOwed
    split
    case isTrue hc =>
      simp only [Bool.and_eq_true, beq_iff_eq] at hc
      refine ⟨rfl, rfl, rfl, fun T => ?_⟩
      by_cases hT : T = d.table
      · subst hT
        exact .inr ⟨by simp, rfl, hc.2⟩
      · exact .inl (by simp [hT])
    case isFalse => exact ⟨rfl, rfl, rfl, fun T => .inl rfl⟩
  obtain ⟨ha', hs', hq', hown⟩ := hsettle
  refine ⟨fun T hT => ?_, fun T n hn => ?_, ?_, fun T hT => ?_, ?_⟩
  · simp only [ha', hs', ha, hs]
    refine h.latch T ?_
    simp only [Function.update_apply] at hT
    split_ifs at hT with heq
    · exact heq ▸ (Bool.and_eq_true _ _ ▸ hT).1
    · exact hT
  · simp only [hq', hq] at hn ⊢
    rcases hown T with heq | ⟨hnone, -⟩
    · exact h.seq T n (ho ▸ heq ▸ hn)
    · simp [hnone] at hn
  · rintro _ ⟨⟩ n hn
    simp [Pass.mark] at hn
  · obtain ⟨n, hn, hno⟩ := h.owed T hT
    rcases hown T with heq | ⟨-, rfl, heq⟩
    · refine ⟨n, by simp only [heq, ho, hn], ?_⟩
      rintro _ ⟨⟩ htab
      simp [Pass.table] at htab
    · exact absurd (heq.symm.trans (ho ▸ hn)) (hno _ hp rfl)
  · rintro _ ⟨⟩ hund T hT htab hun
    simp only [Function.update_apply] at hun
    split_ifs at hun with heq
    · subst heq
      simp only [Bool.and_eq_true, Bool.or_eq_true] at hun
      exact hun.2
    · exact h.served _ hp hund T hT (fun h => heq (Option.some.inj h).symm) hun

/-- A pass certifies only when no table has had a live row fail since its drain opened. -/
def CertifiesServed (w : World K) : Label K → Prop
  | .passEnd uncaughtUp => ∀ p ∈ w.pass, w.certifies p uncaughtUp = true →
      ∀ T ∈ MIRRORED_TABLES, w.failedSince T = false
  | _ => True

instance (w : World K) : ∀ l, Decidable (CertifiesServed w l)
  | .passEnd uncaughtUp => inferInstanceAs (Decidable (∀ p ∈ w.pass,
      w.certifies p uncaughtUp = true → ∀ T ∈ MIRRORED_TABLES, w.failedSince T = false))
  | .commit .. | .retract .. | .publish .. | .heartbeat .. | .connect .. | .deliver | .disconnect _
  | .resync | .selectorChange | .moveHub | .next | .apply _ | .nextStale _ | .applyOld .. | .bootstrapAll
  | .table | .openTable | .giveUp | .serve .. | .take | .row _ | .pageEnd | .skipCatchUp | .close
  | .certify => isTrue trivial

/-- A pass that certifies as it should leaves no table unserved. -/
theorem Latched.all_served (h : Latched w) {p : Pass K} {uncaughtUp : Bool} (hp : w.pass = some p)
    (hpc : p.pc = .next) (htodo : p.todo = []) (hc : w.certifies p uncaughtUp = true)
    (hs : ∀ T, w.failedSince T = false) (T : MirrorTable) : w.unserved T = false := by
  by_contra hun
  have hno := hc
  simp only [World.certifies, Bool.and_eq_true, Bool.not_eq_true', List.isEmpty_iff] at hno
  obtain ⟨⟨⟨⟨hund, howed⟩, -⟩, -⟩, -⟩ := hno
  have htab : p.table ≠ some T := by simp [Pass.table_of_next hpc]
  rcases h.served p hp hund T (by simp [htodo]) htab (by simpa using hun) with hf | hr
  · simp [hs T] at hf
  · obtain ⟨n, hn, -⟩ := h.owed T hr
    rw [Sync.repageOwedTables, List.filter_eq_nil_iff] at howed
    exact howed T (mem_MIRRORED_TABLES T) (by simp [hn])

theorem certifyFullDrain_frame (s : Sync K) (pollMode : Bool) (marks : List ℤ) :
    (s.certifyFullDrain pollMode marks).repageOwed = s.repageOwed ∧
      (s.certifyFullDrain pollMode marks).repageOwedSeq = s.repageOwedSeq := by
  unfold Sync.certifyFullDrain
  cases pollMode
  · simp only [Bool.false_eq_true, if_false]
    have := owes_advanceWatermark (s := ({ s with
      bootstrapDrained := true, schemaMismatchSeen := false, applyFailureSeen := false } : Sync K).noteHeights
        (s.pendingBootstrapHeights <|> s.readyHeights)) (marks.min?.getD 0)
    simp only [Sync.owes, Prod.mk.injEq] at this
    exact ⟨this.2.2.1, this.2.2.2⟩
  · exact ⟨rfl, rfl⟩

theorem Latched.passEnd (h : Latched w) {p : Pass K} {pollMode uncaughtUp : Bool}
    (hp : w.pass = some p) (hpc : p.pc = .next) (htodo : p.todo = [])
    (hs : w.certifies p uncaughtUp = true → ∀ T, w.failedSince T = false) :
    Latched { w with
      sync := if w.certifies p uncaughtUp then w.sync.certifyFullDrain pollMode p.marks else w.sync
      pass := none } := by
  have hnopass : Latched { w with pass := none } :=
    ⟨h.latch, h.seq, by simp, fun T hT => (h.owed T hT).imp fun n hn => ⟨hn.1, by simp⟩, by simp⟩
  split_ifs with hc
  · have hall := h.all_served hp hpc htodo hc (hs hc)
    obtain ⟨ho, hq⟩ := certifyFullDrain_frame w.sync pollMode p.marks
    refine ⟨fun T hT => ?_, ?_, by simp, fun T hT => ?_, by simp⟩
    · simp [hall T] at hT
    · simp only [ho, hq]
      exact h.seq
    · simp only [ho]
      exact hnopass.owed T hT
  · exact hnopass

/-- A table's drain is next. -/
theorem Latched.nextTable (h : Latched w) {p : Pass K} {t : MirrorTable} {ts : List MirrorTable}
    (hp : w.pass = some p) (hpc : p.pc = .next) (htodo : p.todo = t :: ts) :
    Latched { w with pass := some { p with todo := ts, pc := .opening t } } := by
  refine ⟨h.latch, h.seq, ?_, fun T hT => ?_, ?_⟩
  · rintro _ ⟨⟩ n hn
    simp [Pass.mark] at hn
  · obtain ⟨n, hn, -⟩ := h.owed T hT
    refine ⟨n, hn, ?_⟩
    rintro _ ⟨⟩ -
    simp [Pass.mark]
  · rintro _ ⟨⟩ hund T hT htab
    have hne : T ≠ t := fun heq => htab (by rw [heq]; rfl)
    exact h.served p hp hund T (by simp [htodo, hne, hT]) (by simp [Pass.table_of_next hpc])

variable [DecidableEq K] {pollMode : Bool}

theorem Latched.passStep (h : Latched w) {p : Pass K} {l : Label K} (hp : w.pass = some p)
    (hl : CertifiesServed w l) (hs : w.passStep pollMode p l = some w') : Latched w' := by
  cases passTrans_of_passStep hs with
  | table hpc htodo => exact h.nextTable hp hpc htodo
  | lost hpc =>
    have hmark : ({ p with todo := [], undrained := true } : Pass K).mark = none :=
      Pass.mark_of_next hpc
    exact h.setPass hp (.inl hmark) (.inr hmark) (.inl rfl)
  | openTable hpc => exact h.openDrain hp hpc
  | notOpened id => exact (h.miss hp).congr rfl rfl rfl rfl rfl
  | miss => exact h.miss hp
  | passEnd hpc htodo => exact h.passEnd hp hpc htodo fun hc T => hl p hp hc T (mem_MIRRORED_TABLES T)
  | serve _ _ _ hd => exact h.drain hp hd rfl rfl rfl rfl rfl rfl rfl
  | serveCatchUp _ _ _ hd => exact h.drain hp hd rfl rfl rfl rfl rfl rfl rfl
  | take hd => exact h.drain hp hd rfl rfl rfl rfl rfl rfl rfl
  | takeCatchUp hd => exact h.drain hp hd rfl rfl rfl rfl rfl rfl rfl
  | refuseCatchUp hd => exact h.drain hp hd rfl rfl rfl rfl rfl rfl rfl
  | row hd => exact h.drain hp hd rfl rfl rfl rfl rfl rfl rfl
  | rowFailed hd => exact h.drain hp hd rfl rfl rfl rfl rfl rfl rfl
  | pageEnd hd _ hp' =>
    rcases hp' with rfl | ⟨pc, -, rfl⟩
    · exact (h.miss hp).congr rfl rfl rfl rfl rfl
    · exact h.drain hp hd rfl rfl rfl rfl rfl rfl rfl
  | goOn hd => exact h.drain hp hd rfl rfl rfl rfl rfl rfl rfl
  | certify hd => exact h.certifyTable pollMode hp hd

end HubDbSync
