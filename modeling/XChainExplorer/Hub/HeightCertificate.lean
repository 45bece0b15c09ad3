import XChainExplorer.Hub.FailClosed

/-! # What a certified height stands for

    A page holds every row of its table up to the place of the log it was read from, so what the
    mirror covers by pages it holds; and what it holds beyond came off the socket. The height map a
    pass installs may be newer than the pages of the tables it drained first: it stands for the
    whole table exactly when the socket brought the writes in between. -/

namespace HubDbSync

open Runs

variable {K : Type*} [DecidableEq K]

/-! ### Pages -/

/-- What a page is: the rows of the table as the log stood when the hub read them. -/
structure IsPage (w : World K) (d : Drain K) (page : SnapshotPage K) : Prop where
  logged : page.logged ≤ w.log.length
  rows : page.rows = Page.fetch (·.1) (tableRows d.table (w.log.take page.logged)) d.since PAGE_LIMIT

/-- The mirror holds this version of the row or a newer one. -/
def World.Holds (w : World K) (T : MirrorTable) (id version : ℕ) : Prop :=
  ∃ v, w.held T id = some v ∧ version ≤ v

/-- The socket brought this version of the row or a newer one. -/
def World.Received (w : World K) (T : MirrorTable) (id version : ℕ) : Prop :=
  ∃ v, w.live T id = some v ∧ version ≤ v

/-- A drain that met no failure holds the rows of its page that it is through with. -/
def PageOk (w : World K) (d : Drain K) : DrainPc K → Prop
  | .fetch (some page) | .catchUp (some page) => IsPage w d page
  | .rows page todo => IsPage w d page ∧ (∀ e ∈ todo, e ∈ page.rows) ∧
      (d.applyErrors = false → ∀ e ∈ page.rows, e ∈ todo ∨ w.Holds d.table e.1 e.2)
  | .catchUpRows page todo => IsPage w d page ∧ ∀ e ∈ todo, e ∈ page.rows
  | _ => True

structure Covered (w : World K) : Prop where
  cover : ∀ T id q, q < w.cover T id → w.log[q]? = some (.row T id) → w.Holds T id q
  origin : ∀ T id v, w.held T id = some v → v < w.cover T id ∨ w.Received T id v
  live : ∀ T id u, w.live T id = some u → w.Holds T id u
  bound : ∀ T id, w.cover T id ≤ w.log.length
  page : ∀ p ∈ w.pass, ∀ d, p.pc = .draining d → PageOk w d d.pc

theorem Covered.init : Covered ({} : World K) :=
  ⟨by simp, by simp, by simp, by simp, by simp⟩

variable {w w' : World K} {T : MirrorTable} {id version : ℕ}

/-- A row of a page was last committed before the page was read, and no later. -/
theorem IsPage.mem {d : Drain K} {page : SnapshotPage K} (h : IsPage w d page)
    (he : (id, version) ∈ page.rows) : version < page.logged ∧
      ∀ q < page.logged, w.log[q]? = some (.row d.table id) → q ≤ version := by
  rw [h.rows] at he
  obtain ⟨hv, hmax⟩ := mem_tableRows.mp (Page.mem_of_mem_fetch he).1
  have hlt : version < (w.log.take page.logged).length := (List.getElem?_eq_some_iff.mp hv).1
  rw [List.length_take] at hlt
  refine ⟨by omega, fun q hq hrow => hmax q ?_⟩
  rwa [List.getElem?_take_of_lt hq]

/-- A row committed before a page was read is on it, when its id lies between the page's ends. -/
theorem IsPage.mem_of_committed {d : Drain K} {page : SnapshotPage K} (h : IsPage w d page) {q : ℕ}
    (hq : q < page.logged) (hrow : w.log[q]? = some (.row d.table id)) (hlo : d.since < id)
    (hhi : page.rows.length < PAGE_LIMIT ∨ id ≤ Page.reached (·.1) d.since page.rows) :
    ∃ version, (id, version) ∈ page.rows := by
  obtain ⟨v, hv⟩ : ∃ v, (id, v) ∈ tableRows d.table (w.log.take page.logged) :=
    exists_mem_tableRows ((List.getElem?_take_of_lt hq).trans hrow)
  refine ⟨v, ?_⟩
  rw [h.rows] at hhi ⊢
  rcases hhi with hhi | hhi
  · exact (Page.mem_fetch_of_short hhi).mpr ⟨hv, hlo⟩
  · exact (Page.mem_fetch (tableRows_pairwise _ _)).mpr ⟨hv, hlo, hhi⟩

/-! ### Steps that read no page -/

theorem IsPage.mono {d d' : Drain K} {page : SnapshotPage K} (h : IsPage w d page)
    (hl : w.log <+: w'.log) (ht : d'.table = d.table) (hs : d'.since = d.since) :
    IsPage w' d' page := by
  obtain ⟨more, hmore⟩ := hl
  refine ⟨?_, ?_⟩
  · rw [← hmore, List.length_append]
    exact h.logged.trans (Nat.le_add_right _ _)
  · rw [h.rows, ← hmore, List.take_append_of_le_length h.logged, ht, hs]

theorem PageOk.mono {d d' : Drain K} {pc : DrainPc K} (h : PageOk w d pc) (hl : w.log <+: w'.log)
    (hh : ∀ T id v, w.Holds T id v → w'.Holds T id v) (ht : d'.table = d.table)
    (hs : d'.since = d.since) (ha : d'.applyErrors = d.applyErrors) : PageOk w' d' pc := by
  cases pc with
  | fetch answer =>
    cases answer with
    | none => trivial
    | some page => exact IsPage.mono h hl ht hs
  | catchUp answer =>
    cases answer with
    | none => trivial
    | some page => exact IsPage.mono h hl ht hs
  | rows page todo =>
    obtain ⟨hpage, hsub, hdone⟩ := h
    refine ⟨hpage.mono hl ht hs, hsub, fun hno e he => ?_⟩
    exact (hdone (ha ▸ hno) e he).imp_right fun hheld => ht ▸ hh _ _ _ hheld
  | catchUpRows page todo => exact ⟨h.1.mono hl ht hs, h.2⟩
  | _ => trivial

/-- The invariant reads the log, what is held and covered, and the page in hand. -/
theorem Covered.congr (h : Covered w) (hlog : w'.log = w.log) (hheld : w'.held = w.held)
    (hlive : w'.live = w.live) (hcov : w'.cover = w.cover)
    (hp : ∀ p ∈ w'.pass, ∀ d, p.pc = .draining d → PageOk w d d.pc) : Covered w' := by
  have hh (T : MirrorTable) (id v : ℕ) (hv : w.Holds T id v) : w'.Holds T id v := by
    unfold World.Holds
    rw [hheld]
    exact hv
  refine ⟨fun T id q hq hrow => ?_, fun T id v hv => ?_, fun T id u hu => ?_, ?_,
    fun p hp' d hd => ?_⟩
  · exact hh _ _ _ (h.cover T id q (hcov ▸ hq) (hlog ▸ hrow))
  · unfold World.Received
    rw [hcov, hlive]
    exact h.origin T id v (hheld ▸ hv)
  · exact hh _ _ _ (h.live T id u (hlive ▸ hu))
  · rw [hcov, hlog]
    exact h.bound
  · exact (hp p hp' d hd).mono (hlog ▸ List.prefix_refl _) hh rfl rfl rfl

/-- The hub appends to its log. -/
theorem Covered.append (h : Covered w) (x : HubWrite K) :
    Covered { w with log := w.log ++ [x] } := by
  refine ⟨fun T id q hq hrow => h.cover T id q hq ?_, h.origin, h.live, fun T id => ?_,
    fun p hp d hd => (h.page p hp d hd).mono (List.prefix_append _ _) (fun _ _ _ => id) rfl rfl rfl⟩
  · rwa [List.getElem?_append_left (hq.trans_le (h.bound T id))] at hrow
  · simp only [List.length_append]
    exact (h.bound T id).trans (Nat.le_add_right _ _)

theorem holds_newest {held : MirrorTable → ℕ → Option ℕ} {U : MirrorTable} {i v : ℕ}
    (h : ∃ u, held U i = some u ∧ v ≤ u) : ∃ u, newest held T id version U i = some u ∧ v ≤ u := by
  obtain ⟨u, hu, hle⟩ := h
  unfold newest
  split_ifs with heq
  · obtain ⟨rfl, rfl⟩ := heq
    exact ⟨_, rfl, by simp [hu, hle]⟩
  · exact ⟨u, hu, hle⟩

theorem newest_self (held : MirrorTable → ℕ → Option ℕ) (T : MirrorTable) (id version : ℕ) :
    ∃ u, newest held T id version T id = some u ∧ version ≤ u := by
  simp [newest]

/-- What is newest was so before, or is the version just handled. -/
theorem newest_cases {held : MirrorTable → ℕ → Option ℕ} {U : MirrorTable} {i v : ℕ}
    (h : newest held T id version U i = some v) :
    held U i = some v ∨ (U = T ∧ i = id) ∧ v = version := by
  unfold newest at h
  split_ifs at h with heq
  · obtain ⟨rfl, rfl⟩ := heq
    cases hheld : held U i with
    | none => exact .inr ⟨⟨rfl, rfl⟩, by simpa [hheld] using h.symm⟩
    | some u =>
      simp only [hheld, Option.getD_some, Option.some.injEq] at h
      rcases Nat.le_total version u with hle | hle
      · exact .inl (congrArg some ((Nat.max_eq_left hle).symm.trans h))
      · exact .inr ⟨⟨rfl, rfl⟩, h.symm.trans (Nat.max_eq_right hle)⟩
  · exact .inl h

/-- A live row lands. -/
theorem Covered.landed (h : Covered w) (T : MirrorTable) (id version : ℕ) :
    Covered (w.landed T id version) := by
  have hh (U : MirrorTable) (i v : ℕ) (hv : w.Holds U i v) : (w.landed T id version).Holds U i v :=
    holds_newest hv
  refine ⟨fun U i q hq hrow => hh _ _ _ (h.cover U i q hq hrow), fun U i v hv => ?_,
    fun U i u hu => ?_, h.bound,
    fun p hp d hd => (h.page p hp d hd).mono (List.prefix_refl _) hh rfl rfl rfl⟩
  · rcases newest_cases hv with hv | ⟨⟨rfl, rfl⟩, rfl⟩
    · exact (h.origin U i v hv).imp_right holds_newest
    · exact .inr (newest_self _ _ _ _)
  · rcases newest_cases hu with hu | ⟨⟨rfl, rfl⟩, rfl⟩
    · exact hh _ _ _ (h.live U i u hu)
    · exact newest_self _ _ _ _

theorem Covered.replayed (h : Covered w) (flushed : Bool) : Covered (w.replayed flushed) := by
  refine h.congr rfl rfl rfl rfl fun p hp d hd => ?_
  simp only [World.replayed, Option.mem_def, Option.map_eq_some_iff] at hp
  obtain ⟨p', hp', rfl⟩ := hp
  split at hd
  case h_1 d' hd' =>
    split at hd
    · obtain rfl := PassPc.draining.inj hd
      trivial
    · exact h.page p' hp' d hd
  case h_2 => exact h.page p' hp' d hd

theorem Covered.refuse (h : Covered w) (T : MirrorTable) : Covered (w.refuse T) := by
  rw [World.refuse]
  generalize w.sync.refuseSchema = s
  exact h.congr rfl rfl rfl rfl h.page

theorem Covered.begin (h : Covered w) (t : Task K) : Covered (w.begin t).1 := by
  have hrow (U : MirrorTable) (ok : Bool) (e : PriceEvent) (b : Busy) :
      Covered (w.handleRowEvent U ok e b).1 := by
    unfold World.handleRowEvent
    split_ifs
    · exact h.refuse U
    · exact h.congr rfl rfl rfl rfl h.page
    · exact h
  cases t with
  | replay epoch => exact h
  | frame f epoch revision =>
    simp only [World.begin]
    split_ifs
    · exact h
    · cases f with
      | ready => exact h
      | watermark => exact h.congr rfl rfl rfl rfl h.page
      | inserted => exact hrow _ _ _ _
      | deleted => exact hrow _ _ _ _

theorem Covered.finish (h : Covered w) (b : Busy) (o : Outcome) : Covered (w.finish b o).1 := by
  have hfail (U : MirrorTable) : Covered (w.fail U) := h.congr rfl rfl rfl rfl h.page
  unfold World.finish
  split
  · unfold World.flushNext
    split
    · refine Covered.replayed ?_ false
      exact h.congr rfl rfl rfl rfl h.page
    · split
      · split
        · refine Covered.replayed ?_ true
          exact h.congr rfl rfl rfl rfl h.page
        · exact h.replayed false
      · cases o
        · simp only
          split
          case h_1 id version _ =>
            have hland := h.landed .price_snapshots id version
            exact hland.congr rfl rfl rfl rfl hland.page
          case h_2 => exact h.congr rfl rfl rfl rfl h.page
        · exact (hfail _).replayed false
  · exact h.landed _ _ _
  · exact hfail _
  · exact h
  · exact hfail _

theorem Covered.socketStep (h : Covered w) {l : Label K} (hs : w.socketStep l = some w') :
    Covered w' := by
  cases l with
  | connect =>
    simp only [World.socketStep] at hs
    split at hs
    · simp at hs
    · exact Option.some.inj hs ▸ h.congr rfl rfl rfl rfl h.page
  | deliver =>
    simp only [World.socketStep] at hs
    split at hs
    · split at hs
      · exact Option.some.inj hs ▸ h.congr rfl rfl rfl rfl h.page
      · exact Option.some.inj hs ▸ h.congr rfl rfl rfl rfl h.page
    · simp at hs
  | disconnect =>
    simp only [World.socketStep] at hs
    split at hs
    · simp at hs
    · exact Option.some.inj hs ▸ h.congr rfl rfl rfl rfl h.page
  | resync => exact Option.some.inj hs ▸ h.congr rfl rfl rfl rfl h.page
  | selectorChange | moveHub => exact Option.some.inj hs ▸ h.congr rfl rfl rfl rfl h.page
  | _ => simp [World.socketStep] at hs

theorem Covered.hubStep (h : Covered w) {l : Label K} (hs : w.hubStep l = some w') :
    Covered w' := by
  cases l with
  | commit T id ok =>
    have happ := h.append (.row T id)
    exact Option.some.inj hs ▸ happ.congr rfl rfl rfl rfl happ.page
  | retract => exact Option.some.inj hs ▸ h.congr rfl rfl rfl rfl h.page
  | publish T chain height =>
    have happ := h.append (.height T chain height)
    exact Option.some.inj hs ▸ happ.congr rfl rfl rfl rfl happ.page
  | heartbeat => exact Option.some.inj hs ▸ h.congr rfl rfl rfl rfl h.page
  | _ => simp [World.hubStep] at hs

theorem Covered.chainStep (h : Covered w) {l : Label K} (hs : w.chainStep l = some w') :
    Covered w' := by
  cases l with
  | next =>
    simp only [World.chainStep] at hs
    split at hs
    case h_1 t ts _ _ =>
      obtain rfl := Option.some.inj hs
      have h' : Covered { w with chain := ts } := h.congr rfl rfl rfl rfl h.page
      exact (h'.begin t).congr rfl rfl rfl rfl (h'.begin t).page
    · simp at hs
  | apply o =>
    obtain ⟨b, -, rfl⟩ := Option.map_eq_some_iff.mp hs
    exact (h.finish b o).congr rfl rfl rfl rfl (h.finish b o).page
  | nextStale i =>
    obtain ⟨t, -, rfl⟩ := Option.map_eq_some_iff.mp hs
    have h' : Covered { w with stale := w.stale.eraseIdx i } := h.congr rfl rfl rfl rfl h.page
    exact (h'.begin t).congr rfl rfl rfl rfl (h'.begin t).page
  | applyOld i o =>
    obtain ⟨b, -, rfl⟩ := Option.map_eq_some_iff.mp hs
    have h' : Covered { w with oldBusy := w.oldBusy.eraseIdx i } := h.congr rfl rfl rfl rfl h.page
    exact (h'.finish b o).congr rfl rfl rfl rfl (h'.finish b o).page
  | _ => simp [World.chainStep] at hs

/-! ### Steps of a pass -/

/-- A row of the page in hand is handled. -/
theorem Covered.row (h : Covered w) {p' : Pass K} {d : Drain K} {page : SnapshotPage K}
    (hpage : IsPage w d page) (he : (id, version) ∈ page.rows)
    (hp : ∀ d', p'.pc = .draining d' →
      PageOk (w.applyPendingRow d.table page.logged id version) d' d'.pc) :
    Covered { w.applyPendingRow d.table page.logged id version with pass := some p' } := by
  obtain ⟨hlt, hmax⟩ := hpage.mem he
  have hh (U : MirrorTable) (i v : ℕ) (hv : w.Holds U i v) :
      (w.applyPendingRow d.table page.logged id version).Holds U i v := holds_newest hv
  have hcov (U : MirrorTable) (i : ℕ) :
      w.cover U i ≤ (w.applyPendingRow d.table page.logged id version).cover U i := by
    simp only [World.applyPendingRow]
    split_ifs
    · exact Nat.le_max_left _ _
    · exact le_rfl
  refine ⟨fun U i q hq hrow => ?_, fun U i v hv => ?_, fun U i u hu => hh _ _ _ (h.live U i u hu),
    fun U i => ?_, ?_⟩
  · simp only [World.applyPendingRow] at hq
    split_ifs at hq with heq
    · obtain ⟨rfl, rfl⟩ := heq
      rcases lt_max_iff.mp hq with hq | hq
      · exact hh _ _ _ (h.cover _ _ q hq hrow)
      · obtain ⟨v, hv, hle⟩ := newest_self w.held d.table i version
        exact ⟨v, hv, (hmax q hq hrow).trans hle⟩
    · exact hh _ _ _ (h.cover U i q hq hrow)
  · rcases newest_cases hv with hv | ⟨⟨rfl, rfl⟩, rfl⟩
    · exact (h.origin U i v hv).imp_left fun hlt => hlt.trans_le (hcov U i)
    · refine .inl (hlt.trans_le ?_)
      simp [World.applyPendingRow]
  · simp only [World.applyPendingRow]
    split_ifs
    · exact Nat.max_le.mpr ⟨h.bound U i, hpage.logged⟩
    · exact h.bound U i
  · rintro _ ⟨⟩ d' hd'
    exact (hp d' hd').mono (List.prefix_refl _) (fun _ _ _ hv => hv) rfl rfl rfl

/-- A page with no hole is through. -/
theorem Covered.pageEnd (h : Covered w) {d : Drain K} {page : SnapshotPage K} {s : Sync K}
    {p : Pass K} (hpage : PageOk w d (.rows page [])) (hno : d.applyErrors = false)
    (hp : ∀ d', p.pc = .draining d' → PageOk w d' d'.pc) :
    Covered { w with
      sync := s
      cover := coverPage w.cover d.table d.since (Page.reached (·.1) d.since page.rows)
        (decide (page.rows.length < PAGE_LIMIT)) page.logged
      pass := some p } := by
  obtain ⟨his, -, hdone⟩ := hpage
  refine ⟨fun U i q hq hrow => ?_, fun U i v hv => ?_, h.live, fun U i => ?_, ?_⟩
  · simp only [coverPage] at hq
    split_ifs at hq with hin
    · obtain ⟨rfl, hlo, hhi⟩ := hin
      rcases lt_max_iff.mp hq with hq | hq
      · exact h.cover _ _ q hq hrow
      · -- the row is on the page, and the page is handled
        obtain ⟨v, hv⟩ := his.mem_of_committed hq hrow hlo (by simpa using hhi)
        obtain ⟨u, hu, hle⟩ := (hdone hno _ hv).resolve_left (by simp)
        exact ⟨u, hu, ((his.mem hv).2 q hq hrow).trans hle⟩
    · exact h.cover U i q hq hrow
  · refine (h.origin U i v hv).imp_left fun hlt => hlt.trans_le ?_
    simp only [coverPage]
    split_ifs
    · exact Nat.le_max_left _ _
    · exact le_rfl
  · simp only [coverPage]
    split_ifs
    · exact Nat.max_le.mpr ⟨h.bound U i, his.logged⟩
    · exact h.bound U i
  · rintro _ ⟨⟩ d' hd'
    exact (hp d' hd').mono (List.prefix_refl _) (fun _ _ _ hv => hv) rfl rfl rfl

/-- The drain goes on, with or without a page. -/
theorem pageOk_withDrain {p : Pass K} {d : Drain K} (h : PageOk w d d.pc) :
    ∀ d', (p.withDrain d).pc = .draining d' → PageOk w d' d'.pc := by
  rintro _ ⟨⟩
  exact h

theorem Covered.passStep {pollMode : Bool} (h : Covered w) {p : Pass K} {l : Label K}
    (hp : w.pass = some p) (hs : w.passStep pollMode p l = some w') : Covered w' := by
  have hat {d : Drain K} (hd : p.pc = .draining d) : PageOk w d d.pc := h.page p hp d hd
  cases passTrans_of_passStep hs with
  | table => exact h.congr rfl rfl rfl rfl (by rintro _ ⟨⟩ d ⟨⟩)
  | lost hpc =>
    refine h.congr rfl rfl rfl rfl ?_
    rintro _ ⟨⟩ d hd
    simp [hpc] at hd
  | openTable =>
    refine h.congr rfl rfl rfl rfl ?_
    rintro _ ⟨⟩ d ⟨⟩
    trivial
  | notOpened => exact h.congr rfl rfl rfl rfl (by rintro _ ⟨⟩ d ⟨⟩)
  | miss => exact h.congr rfl rfl rfl rfl (by rintro _ ⟨⟩ d ⟨⟩)
  | passEnd => exact h.congr rfl rfl rfl rfl (by rintro _ ⟨⟩)
  | serve _ _ _ hd =>
    refine h.congr rfl rfl rfl rfl ?_
    rintro _ ⟨⟩
    exact pageOk_withDrain ⟨le_rfl, by rw [World.pageNow, List.take_length]⟩
  | serveCatchUp _ _ _ hd =>
    refine h.congr rfl rfl rfl rfl ?_
    rintro _ ⟨⟩
    exact pageOk_withDrain ⟨le_rfl, by rw [World.pageNow, List.take_length]⟩
  | take hd hpc =>
    have his := hat hd
    rw [hpc] at his
    refine h.congr rfl rfl rfl rfl ?_
    rintro _ ⟨⟩
    exact pageOk_withDrain ⟨IsPage.mono his (List.prefix_refl _) rfl rfl, fun _ he => he,
      fun _ _ he => .inl he⟩
  | takeCatchUp hd hpc =>
    have his := hat hd
    rw [hpc] at his
    refine h.congr rfl rfl rfl rfl ?_
    rintro _ ⟨⟩
    exact pageOk_withDrain ⟨IsPage.mono his (List.prefix_refl _) rfl rfl, fun _ he => he⟩
  | refuseCatchUp hd =>
    refine h.congr rfl rfl rfl rfl ?_
    rintro _ ⟨⟩
    exact pageOk_withDrain trivial
  | row hd hpc =>
    have his := hat hd
    rcases hpc with ⟨hpc, rfl⟩ | ⟨hpc, rfl⟩
    · rw [hpc] at his
      obtain ⟨hpage, hsub, hdone⟩ := his
      refine h.row hpage (hsub _ (by simp)) (pageOk_withDrain
        ⟨hpage.mono (List.prefix_refl _) rfl rfl, fun e he => hsub e (List.mem_cons_of_mem _ he),
          fun hno e he => ?_⟩)
      rcases hdone hno e he with hmem | hheld
      · rcases List.mem_cons.mp hmem with rfl | hmem
        · exact .inr (newest_self _ _ _ _)
        · exact .inl hmem
      · exact .inr (holds_newest hheld)
    · rw [hpc] at his
      obtain ⟨hpage, hsub⟩ := his
      exact h.row hpage (hsub _ (by simp)) (pageOk_withDrain
        ⟨hpage.mono (List.prefix_refl _) rfl rfl, fun e he => hsub e (List.mem_cons_of_mem _ he)⟩)
  | rowFailed hd hpc =>
    refine h.congr rfl rfl rfl rfl ?_
    rintro _ ⟨⟩
    rcases hpc with ⟨page, todo, hpc, rfl⟩ | rfl
    · have his := hat hd
      rw [hpc] at his
      exact pageOk_withDrain ⟨his.1.mono (List.prefix_refl _) rfl rfl, by simp, by simp⟩
    · exact pageOk_withDrain trivial
  | @pageEnd d page p' hd hpc hp' =>
    have his := hat hd
    rw [hpc] at his
    have hnext (d' : Drain K) (hd' : p'.pc = .draining d') : PageOk w d' d'.pc := by
      rcases hp' with rfl | ⟨pc, hpc', rfl⟩
      · cases hd'
      · refine pageOk_withDrain ?_ d' hd'
        rcases hpc' with rfl | rfl | rfl <;> trivial
    cases hno : d.applyErrors with
    | true =>
      refine h.congr rfl rfl rfl (by simp) ?_
      rintro _ ⟨⟩
      exact hnext
    | false => exact h.pageEnd his hno hnext
  | goOn hd chain hchain hpc =>
    refine h.congr rfl rfl rfl rfl ?_
    rintro _ ⟨⟩
    refine pageOk_withDrain ?_
    rcases hpc with rfl | rfl | rfl <;> trivial
  | certify => exact h.congr rfl rfl rfl rfl (by rintro _ ⟨⟩ d ⟨⟩)

theorem Covered.step {pollMode : Bool} (h : Covered w) {l : Label K}
    (hs : w.step pollMode l = some w') : Covered w' := by
  rcases step_cases hs with hs | hs | hs | ⟨p, rfl, -, -, hpc⟩ | ⟨p, hp, hs⟩
  · exact h.hubStep hs
  · exact h.socketStep hs
  · exact h.chainStep hs
  · refine h.congr rfl rfl rfl rfl ?_
    rintro _ ⟨⟩ d hd
    simp [hpc] at hd
  · exact h.passStep hp hs

/-! ### The installed map -/

/-- Everything the height map stands for is held. -/
def World.HeightsHeld (w : World K) : Prop :=
  ∀ T C e, w.sync.heightWatermarks T C = some e → ∀ id q, q < e.logged →
    w.log[q]? = some (.row T id) → w.Holds T id q

/-- The socket brought every write of a table that came after the page covering its row and before
    the publication of the table's height in the map the pass ends with. -/
def World.Bridged (w : World K) : Prop :=
  ∀ m ∈ w.sync.pendingBootstrapHeights <|> w.sync.readyHeights, ∀ T C e, m T C = some e →
    ∀ id q, w.cover T id ≤ q → q < e.logged → w.log[q]? = some (.row T id) → w.Received T id q

omit [DecidableEq K] in
theorem certifyFullDrain_heights (s : Sync K) (marks : List ℤ) :
    (s.certifyFullDrain false marks).heightWatermarks =
      (s.pendingBootstrapHeights <|> s.readyHeights).getD fun _ _ => none := by
  simp only [Sync.certifyFullDrain, Bool.false_eq_true, if_false, Sync.advanceWatermark]
  split_ifs <;> rfl

/-- A pass that certifies installs a map whose every height stands for rows the mirror holds,
    exactly when the socket brought the writes its pages were too early for. -/
theorem height_certificate_sound {es : List (Label K)} {p : Pass K} {uncaughtUp : Bool}
    (hr : run (World.step false) {} es = some w) (hp : w.pass = some p)
    (hc : w.certifies p uncaughtUp = true) (hs : w.step false (.passEnd uncaughtUp) = some w') :
    w'.HeightsHeld ↔ w.Bridged := by
  have h : Covered w := run_inv' (fun _ _ _ h hs => h.step hs) Covered.init hr
  have hw' : w'.sync = w.sync.certifyFullDrain false p.marks ∧ w'.log = w.log ∧ w'.held = w.held := by
    simp only [World.step, hp, Option.bind_some, World.passStep] at hs
    split at hs
    · obtain rfl := Option.some.inj hs
      exact ⟨if_pos hc, rfl, rfl⟩
    · simp at hs
  obtain ⟨hsync, hlog, hheld⟩ := hw'
  have hholds (T : MirrorTable) (id q : ℕ) : w'.Holds T id q ↔ w.Holds T id q := by
    rw [World.Holds, World.Holds, hheld]
  simp only [World.HeightsHeld, World.Bridged, hsync, certifyFullDrain_heights, hlog, hholds]
  constructor
  · intro hall m hm T C e he id q hcov hq hrow
    obtain ⟨v, hv, hle⟩ := hall T C e (by rw [hm]; exact he) id q hq hrow
    -- held beyond what the pages cover, so off the socket
    rcases h.origin T id v hv with hlt | ⟨u, hu, hvu⟩
    · omega
    · exact ⟨u, hu, hle.trans hvu⟩
  · intro hbridged T C e he id q hq hrow
    by_cases hcov : q < w.cover T id
    · exact h.cover T id q hcov hrow
    · cases hm : w.sync.pendingBootstrapHeights <|> w.sync.readyHeights with
      | none => simp [hm] at he
      | some m =>
        rw [hm] at he
        obtain ⟨u, hu, hqu⟩ := hbridged m hm T C e he id q (not_lt.mp hcov) hq hrow
        obtain ⟨v, hv, huv⟩ := h.live T id u hu
        exact ⟨v, hv, hqu.trans huv⟩

/-! ### One oracle row, on its page or in flight -/

/-- One table's drain, over a single short page with one row. -/
def drainOneRow (watermark : ℤ) : List (Label Unit) :=
  [.table, .openTable, .serve (some watermark) true true, .take, .row .handled, .pageEnd, .close,
    .certify]

/-- The tables behind the first, all empty. -/
def drainRest (watermark : ℤ) : List (Label Unit) :=
  (List.replicate 10 (drainEmpty watermark)).flatten ++
    [.table, .openTable, .serve (some watermark) true true, .take, .pageEnd, .close, .next,
      .apply .handled, .close, .certify]

/-- A row and a height of the oracle table, both before its page is read. -/
def rowOnPage : List (Label Unit) :=
  .commit .oracle_prices 1 true :: .publish .oracle_prices () 7 ::
    subscribe ++ .bootstrapAll :: drainOneRow 5 ++ drainRest 5

/-- The same row and height after the oracle drain; the row's frame is never delivered. -/
def rowInFlight : List (Label Unit) :=
  subscribe ++ .bootstrapAll :: drainEmpty 5 ++
    .commit .oracle_prices 1 true :: .publish .oracle_prices () 7 :: drainRest 5

theorem height_certificate_on_page : ∃ w w' : World Unit,
    run (World.step false) {} rowOnPage = some w ∧ w.step false (.passEnd false) = some w' ∧
      (w'.sync.heightWatermarks .oracle_prices ()).map (·.height) = some 7 ∧ w'.HeightsHeld := by
  obtain ⟨w, hr, hw⟩ : ∃ w, run (World.step false) {} rowOnPage = some w ∧
      (w.log, w.cover .oracle_prices 1, w.pass.map fun p => w.certifies p false) =
        ([.row .oracle_prices 1, .height .oracle_prices () 7], 2, some true) :=
    Option.map_eq_some_iff.mp (by decide +kernel)
  obtain ⟨w', hr', hw'⟩ : ∃ w', run (World.step false) {} (rowOnPage ++ [.passEnd false]) = some w' ∧
      (w'.sync.heightWatermarks .oracle_prices ()).map (·.height) = some 7 :=
    Option.map_eq_some_iff.mp (by decide +kernel)
  obtain ⟨_, hu, hend⟩ := run_append.mp hr'
  obtain rfl := Option.some.inj (hr.symm.trans hu)
  obtain ⟨_, hs, hlast⟩ := run_cons.mp hend
  obtain rfl := Option.some.inj hlast
  simp only [Prod.mk.injEq, Option.map_eq_some_iff] at hw
  obtain ⟨hlog, hcover, p, hp, hc⟩ := hw
  refine ⟨w, _, hr, hs, hw', (height_certificate_sound hr hp hc hs).mpr ?_⟩
  rintro m - T C e - id q hcov - hrow
  -- the log holds one row, and its page covers it
  rw [hlog] at hrow
  rcases q with _ | _ | q
  · simp only [List.getElem?_cons_zero, Option.some.injEq, HubWrite.row.injEq] at hrow
    obtain ⟨rfl, rfl⟩ := hrow
    omega
  · simp at hrow
  · simp at hrow

/-- The newest page's map stands for a row that came after the oracle drain and is in flight. -/
theorem height_certificate_unsound : ¬ ∀ (es : List (Label Unit)) (w w' : World Unit)
    (p : Pass Unit) (uncaughtUp : Bool), run (World.step false) {} es = some w → w.pass = some p →
    w.certifies p uncaughtUp = true → w.step false (.passEnd uncaughtUp) = some w' →
    w'.HeightsHeld := by
  intro h
  obtain ⟨w, hr, hw⟩ : ∃ w, run (World.step false) {} rowInFlight = some w ∧
      (w.pass.map fun p => w.certifies p false) = some true :=
    Option.map_eq_some_iff.mp (by decide +kernel)
  obtain ⟨w', hr', hw'⟩ : ∃ w', run (World.step false) {} (rowInFlight ++ [.passEnd false]) = some w' ∧
      (w'.sync.heightWatermarks .oracle_prices (), w'.log, w'.held .oracle_prices 1) =
        (some ⟨7, 1⟩, [.row .oracle_prices 1, .height .oracle_prices () 7], none) :=
    Option.map_eq_some_iff.mp (by decide +kernel)
  obtain ⟨_, hu, hend⟩ := run_append.mp hr'
  obtain rfl := Option.some.inj (hr.symm.trans hu)
  obtain ⟨_, hs, hlast⟩ := run_cons.mp hend
  obtain rfl := Option.some.inj hlast
  simp only [Prod.mk.injEq] at hw'
  obtain ⟨hheight, hlog, hheld⟩ := hw'
  obtain ⟨p, hp, hc⟩ := Option.map_eq_some_iff.mp hw
  obtain ⟨v, hv, -⟩ := h _ w _ p false hr hp hc hs .oracle_prices () _ hheight 1 0 (by decide)
    (by rw [hlog]; rfl)
  simp [hheld] at hv

end HubDbSync
