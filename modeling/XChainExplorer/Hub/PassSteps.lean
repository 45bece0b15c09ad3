import XChainExplorer.Hub.Mirror

/-! # What a step of the bootstrap pass can do

    One transition for each branch of the pass's code. An invariant of the mirror is a case analysis
    over them. -/

namespace HubDbSync

variable {K : Type*} [DecidableEq K]

/-- The pass with its drain at another wait. -/
def Pass.withDrain (p : Pass K) (d : Drain K) : Pass K := { p with pc := .draining d }

/-- The page the hub serves now. -/
def World.pageNow (w : World K) (T : MirrorTable) (since : ℕ) (watermark : Option ℤ)
    (heights : Option (Heights K)) (schemaOk : Bool) : SnapshotPage K where
  rows := Page.fetch (·.1) (tableRows T w.log) since PAGE_LIMIT
  logged := w.log.length
  watermark := watermark
  heights := heights
  schemaOk := schemaOk

/-- The transitions of a pass `p`. -/
inductive PassTrans (pollMode : Bool) (w : World K) (p : Pass K) : Label K → World K → Prop
  -- between tables
  | table {t ts} (hpc : p.pc = .next) (ht : p.todo = t :: ts) :
      PassTrans pollMode w p .table { w with pass := some { p with todo := ts, pc := .opening t } }
  | lost (hpc : p.pc = .next) :
      PassTrans pollMode w p .table { w with pass := some { p with todo := [], undrained := true } }
  | openTable {t} (hpc : p.pc = .opening t) : PassTrans pollMode w p .openTable (w.openDrain p t)
  | notOpened {t} (id : ℕ) : PassTrans pollMode w p .openTable
      { w with sync := w.sync.setPosition t id, pass := some p.miss }
  | miss {l} : PassTrans pollMode w p l { w with pass := some p.miss }
  | passEnd {uncaughtUp} (hpc : p.pc = .next) (ht : p.todo = []) :
      PassTrans pollMode w p (.passEnd uncaughtUp) { w with
        sync := if w.certifies p uncaughtUp then w.sync.certifyFullDrain pollMode p.marks else w.sync
        pass := none }
  -- the pages
  | serve {d l} (watermark heights schemaOk) (hd : p.pc = .draining d) (hpc : d.pc = .fetch none) :
      PassTrans pollMode w p l { w with pass := some (p.withDrain { d with
        since := d.lastId
        pc := .fetch (some (w.pageNow d.table d.lastId watermark heights schemaOk)) }) }
  | serveCatchUp {d l} (watermark heights schemaOk) (hd : p.pc = .draining d)
      (hpc : d.pc = .catchUp none) :
      PassTrans pollMode w p l { w with pass := some (p.withDrain { d with
        since := w.sync.drainPositions d.table
        pc := .catchUp (some
          (w.pageNow d.table (w.sync.drainPositions d.table) watermark heights schemaOk)) }) }
  | take {d page} (hd : p.pc = .draining d) (hpc : d.pc = .fetch (some page)) :
      PassTrans pollMode w p .take { w with pass := some (p.withDrain { d with
        pages := d.pages + 1, pc := .rows page page.rows }) }
  | takeCatchUp {d page} (hd : p.pc = .draining d) (hpc : d.pc = .catchUp (some page)) :
      PassTrans pollMode w p .take
        { w with pass := some (p.withDrain { d with pc := .catchUpRows page page.rows }) }
  | refuseCatchUp {d} (hd : p.pc = .draining d) : PassTrans pollMode w p .take
      { w with pass := some (p.withDrain { d with applyErrors := true, pc := .closing }) }
  -- the rows
  | row {d page id version todo pc'} (hd : p.pc = .draining d)
      (hpc : d.pc = .rows page ((id, version) :: todo) ∧ pc' = .rows page todo ∨
        d.pc = .catchUpRows page ((id, version) :: todo) ∧ pc' = .catchUpRows page todo) :
      PassTrans pollMode w p (.row .handled) { w.applyPendingRow d.table page.logged id version with
        pass := some (p.withDrain { d with lastId := d.lastId.max id, pc := pc' }) }
  | rowFailed {d pc'} (hd : p.pc = .draining d)
      (hpc : (∃ page todo, d.pc = .rows page todo ∧ pc' = .rows page []) ∨ pc' = .closing) :
      PassTrans pollMode w p (.row .failed)
        { w with pass := some (p.withDrain { d with applyErrors := true, pc := pc' }) }
  | pageEnd {d page p'} (hd : p.pc = .draining d) (hpc : d.pc = .rows page [])
      (hp' : p' = p.miss ∨ ∃ pc, (pc = .fetch none ∨ pc = .catchUp none ∨ pc = .closing) ∧
        p' = p.withDrain { d with
          lastPageCount := page.rows.length
          watermark := page.watermark <|> d.watermark
          heights := page.heights <|> d.heights
          pc }) :
      PassTrans pollMode w p .pageEnd { w with
        sync := w.sync.noteSnapshotHeights page.heights
        cover := if d.applyErrors then w.cover else coverPage w.cover d.table d.since
          (Page.reached (·.1) d.since page.rows) (decide (page.rows.length < PAGE_LIMIT)) page.logged
        pass := some p' }
  -- the end of a drain
  | goOn {d pc l} (hd : p.pc = .draining d) (chain : List (Task K))
      (hchain : chain = w.chain ∨ chain = w.chain ++ [.replay w.sync.wsEpoch])
      (hpc : pc = .closing ∨ pc = .replaying none ∨ pc = .ending) :
      PassTrans pollMode w p l { w with chain, pass := some (p.withDrain { d with pc }) }
  | certify {d} (hd : p.pc = .draining d) (hpc : d.pc = .ending)
      (hon : w.sync.onConnection d.connectionEpoch d.selectorRevision = true) :
      PassTrans pollMode w p .certify (w.certifyTable pollMode p d)

variable {pollMode : Bool} {w w' : World K} {p : Pass K} {d : Drain K}

theorem passTrans_of_pageRow {o : Outcome} (hd : p.pc = .draining d)
    (hs : w.pageRow p d o = some w') : PassTrans pollMode w p (.row o) w' := by
  simp only [World.pageRow] at hs
  split at hs
  case h_1 page id version todo hpc =>
    obtain rfl := Option.some.inj hs
    cases o
    · exact .row hd (.inl ⟨hpc, rfl⟩)
    · exact .rowFailed hd (.inl ⟨page, _, hpc, rfl⟩)
  case h_2 page id version todo hpc =>
    obtain rfl := Option.some.inj hs
    cases o
    · exact .row hd (.inr ⟨hpc, rfl⟩)
    · exact .rowFailed hd (.inr rfl)
  case h_3 => simp at hs

omit [DecidableEq K] in
theorem catchUpToReadyCeiling_cases (w : World K) (d : Drain K) :
    w.catchUpToReadyCeiling d = .catchUp none ∨ w.catchUpToReadyCeiling d = .closing := by
  unfold World.catchUpToReadyCeiling
  split
  · split_ifs
    · exact .inl rfl
    · exact .inr rfl
  · exact .inr rfl

theorem passTrans_of_pageEnd (hd : p.pc = .draining d) (hs : w.pageEnd p d = some w') :
    PassTrans pollMode w p .pageEnd w' := by
  simp only [World.pageEnd] at hs
  split at hs
  case h_1 page hpc =>
    split at hs
    case isTrue =>
      obtain rfl := Option.some.inj hs
      refine .pageEnd hd hpc (.inr ⟨_, ?_, rfl⟩)
      by_cases hend : (d.applyErrors || decide (page.rows.length < PAGE_LIMIT) ||
          decide (MAX_PAGES ≤ d.pages)) = true
      · simp only [if_pos hend]
        exact .inr (catchUpToReadyCeiling_cases _ _)
      · simp only [if_neg hend]
        exact .inl trivial
    case isFalse =>
      obtain rfl := Option.some.inj hs
      exact .pageEnd hd hpc (.inl rfl)
  case h_2 page hpc =>
    obtain rfl := Option.some.inj hs
    exact .goOn hd w.chain (.inl rfl) (.inl rfl)
  case h_3 => simp at hs

theorem passTrans_of_closeDrain (hd : p.pc = .draining d) (hs : w.closeDrain p d = some w') :
    PassTrans pollMode w p .close w' := by
  simp only [World.closeDrain] at hs
  split at hs
  case h_1 =>
    split_ifs at hs
    · exact Option.some.inj hs ▸ .miss
    · obtain rfl := Option.some.inj hs
      exact .goOn hd _ (.inr rfl) (.inr (.inl rfl))
    · obtain rfl := Option.some.inj hs
      exact .goOn hd w.chain (.inl rfl) (.inr (.inr rfl))
  case h_2 =>
    split_ifs at hs
    · obtain rfl := Option.some.inj hs
      exact .goOn hd w.chain (.inl rfl) (.inr (.inr rfl))
    · exact Option.some.inj hs ▸ .miss
  case h_3 => simp at hs

theorem passTrans_of_serve {d' : Drain K} {watermark : Option ℤ} {withHeights schemaOk : Bool}
    (hd : p.pc = .draining d) (hs : w.serve d watermark withHeights schemaOk = some d') (l : Label K) :
    PassTrans pollMode w p l { w with pass := some (p.withDrain d') } := by
  simp only [World.serve] at hs
  split at hs
  case h_1 hpc => exact Option.some.inj hs ▸ .serve _ _ _ hd hpc
  case h_2 hpc => exact Option.some.inj hs ▸ .serveCatchUp _ _ _ hd hpc
  case h_3 => simp at hs

theorem passTrans_of_take {o : Option (Drain K)} (hd : p.pc = .draining d)
    (hs : w.take d = some o) : PassTrans pollMode w p .take
      { w with pass := some (o.elim p.miss fun d => p.withDrain d) } := by
  simp only [World.take] at hs
  split at hs
  case h_1 page hpc =>
    obtain rfl := Option.some.inj hs
    split_ifs
    · exact .take hd hpc
    · exact .miss
  case h_2 page hpc =>
    obtain rfl := Option.some.inj hs
    simp only [Option.elim_some]
    split_ifs
    · exact .takeCatchUp hd hpc
    · exact .refuseCatchUp hd
  case h_3 => simp at hs

/-- Every step of a pass is one of its transitions. -/
theorem passTrans_of_passStep {l : Label K} (hs : w.passStep pollMode p l = some w') :
    PassTrans pollMode w p l w' := by
  cases l with
  | table =>
    simp only [World.passStep] at hs
    split at hs
    case h_1 t ts hpc ht =>
      obtain rfl := Option.some.inj hs
      split_ifs
      · exact .table hpc ht
      · exact .lost hpc
    · simp at hs
  | openTable =>
    simp only [World.passStep] at hs
    split at hs
    case h_1 t hpc =>
      split_ifs at hs
      · exact Option.some.inj hs ▸ .openTable hpc
      · exact Option.some.inj hs ▸ .notOpened _
    · simp at hs
  | giveUp =>
    simp only [World.passStep] at hs
    split at hs
    · simp at hs
    · exact Option.some.inj hs ▸ .miss
    · split at hs
      · simp at hs
      · exact Option.some.inj hs ▸ .miss
  | serve watermark withHeights schemaOk =>
    simp only [World.passStep] at hs
    split at hs
    case h_1 d hd =>
      obtain ⟨d', hserve, rfl⟩ := Option.map_eq_some_iff.mp hs
      exact passTrans_of_serve hd hserve _
    · simp at hs
  | take =>
    simp only [World.passStep] at hs
    split at hs
    case h_1 d hd =>
      obtain ⟨o, htake, rfl⟩ := Option.map_eq_some_iff.mp hs
      exact passTrans_of_take hd htake
    · simp at hs
  | row o =>
    simp only [World.passStep] at hs
    split at hs
    case h_1 d hd => exact passTrans_of_pageRow hd hs
    · simp at hs
  | pageEnd =>
    simp only [World.passStep] at hs
    split at hs
    case h_1 d hd => exact passTrans_of_pageEnd hd hs
    · simp at hs
  | skipCatchUp =>
    simp only [World.passStep] at hs
    split at hs
    case h_1 d hd =>
      split at hs
      · obtain rfl := Option.some.inj hs
        exact .goOn hd w.chain (.inl rfl) (.inl rfl)
      · simp at hs
    · simp at hs
  | close =>
    simp only [World.passStep] at hs
    split at hs
    case h_1 d hd => exact passTrans_of_closeDrain hd hs
    · simp at hs
  | certify =>
    simp only [World.passStep] at hs
    split at hs
    case h_1 d hd =>
      split at hs
      case h_1 hpc =>
        obtain rfl := Option.some.inj hs
        split_ifs with hon
        · exact .certify hd hpc hon
        · exact .miss
      · simp at hs
    · simp at hs
  | passEnd uncaughtUp =>
    simp only [World.passStep] at hs
    split at hs
    case h_1 hpc ht => exact Option.some.inj hs ▸ .passEnd hpc ht
    · simp at hs
  | _ => simp [World.passStep] at hs

end HubDbSync
