import XChainExplorer.Hub.DrainCursor

/-! # The drain cursor steps over no hole

    Whatever fails, is bounded out, held or refused, every row the hub served and still holds at or
    below the stored position was handled. A row that failed can be stepped over only after the
    hub itself withdrew it or wrote it again. -/

namespace HubDbSync.Cursor

open Prices (RepageFloor)

variable {K : Type*} {cfg : Config} {s t : State K} {d : TableDrain} {phase : Phase}
  {row : ServedRow} {ahead : List ServedRow}

def State.Accounted (s : State K) (row : ServedRow) : Prop := ∃ fate, (row, fate) ∈ s.fates

/-! ### What a state keeps -/

/-- A drain that can still move the position, with the rows `ahead` of it. -/
structure Reading (cfg : Config) (s : State K) (d : TableDrain) (ahead : List ServedRow) : Prop where
  position : s.position cfg ≤ d.lastId
  ascending : ahead.Pairwise (·.id < ·.id)
  above : ∀ y ∈ ahead, s.position cfg < y.id ∧ y.id < s.nextId
  accounted : ∀ x ∈ s.served, x ∈ s.hub → (x.id ≤ d.lastId ∨ ∃ y ∈ ahead, x.id ≤ y.id) →
    x ∈ ahead ∨ s.Accounted x
  stands : ∀ x ∈ s.hub, d.lastId < x.id → ∀ y ∈ ahead, x.id ≤ y.id →
    ∃ z ∈ ahead, z.id = x.id ∧ z.block_timestamp = x.block_timestamp

/-- What a complete drain left unapplied below its lowest applied row is bounded out. -/
structure Declined (s : State K) (d : TableDrain) : Prop where
  lastId_lt : d.lastId < s.nextId
  min_le : ∀ m ∈ d.minAppliedWireId, m ≤ d.lastId
  below : ∀ x ∈ s.hub, x.id ≤ d.lastId → (∀ m ∈ d.minAppliedWireId, x.id < m) → 0 < d.priceHorizon →
    d.priceRowBoundOut x = true

def Phase.isOpening : Phase → Bool
  | .opening | .resolving _ => true
  | _ => false

structure PhaseInv (cfg : Config) (s : State K) (d : TableDrain) (phase : Phase) : Prop where
  stopped : d.applyErrors ≠ 0 → phase = .flushing false [] [] ∨ phase = .closing
  reading : d.applyErrors = 0 → phase ≠ .closing → Reading cfg s d phase.ahead
  landed : ∀ pending todo, phase = .flushing true pending todo →
    ∀ x ∈ pending, d.priceRowBoundOut x = false → s.Accounted x
  since : ∀ since, phase = .catchingUp since none → s.position cfg ≤ since ∧ since ≤ d.lastId
  opening : phase.isOpening = true →
    (d.fullTable = true → d.lastId = 0) ∧ d.floorStart = false ∧ d.minAppliedWireId = none
  declined : phase.isOpening = false → d.complete = true → Declined s d

/-- The hub's table is in id order and no write of it repeats. -/
structure HubOk (s : State K) : Prop where
  nextId_pos : 0 < s.nextId
  ascending : s.hub.Pairwise (·.id < ·.id)
  ids : ∀ x ∈ s.hub, 0 < x.id ∧ x.id < s.nextId
  version : ∀ x ∈ s.hub, x.version < s.writes
  servedVersion : ∀ x ∈ s.served, x.version < s.writes

/-- The rows below a recorded start were all below its floor. -/
def Marked (s : State K) (mark : RepageFloor) : Prop :=
  mark.wireId ≤ s.nextId ∧
    ∀ x ∈ s.hub, x.id < mark.wireId → 0 < x.block_timestamp ∧ x.block_timestamp < mark.floorTs

structure Inv (cfg : Config) (s : State K) : Prop where
  hub : HubOk s
  passed : ∀ x ∈ s.served, x ∈ s.hub → x.id ≤ s.position cfg → s.Accounted x
  marked : ∀ mark ∈ s.priceRepageFloor, Marked s mark
  drain : ∀ d phase, s.drain = some (d, phase) → PhaseInv cfg s d phase

/-! ### What goes on beside the drain -/

/-- `t` follows `s` with no row served and the position no higher. -/
structure Later (cfg : Config) (s t : State K) : Prop where
  served : t.served = s.served
  fates : ∀ p ∈ s.fates, p ∈ t.fates
  position : t.position cfg ≤ s.position cfg
  rows : ∀ x ∈ t.hub, x ∈ s.served → x ∈ s.hub
  ids : ∀ x ∈ t.hub, s.nextId ≤ x.id ∨
    ∃ r ∈ s.hub, r.id = x.id ∧ r.block_timestamp = x.block_timestamp
  nextId : s.nextId ≤ t.nextId

theorem Later.of_hub (hserved : t.served = s.served) (hfates : ∀ p ∈ s.fates, p ∈ t.fates)
    (hpos : t.position cfg ≤ s.position cfg) (hhub : t.hub = s.hub) (hnext : t.nextId = s.nextId) :
    Later cfg s t where
  served := hserved
  fates := hfates
  position := hpos
  rows _ hx _ := hhub ▸ hx
  ids x hx := .inr ⟨x, hhub ▸ hx, rfl, rfl⟩
  nextId := hnext.ge

theorem Later.accounted (h : Later cfg s t) (hx : s.Accounted row) : t.Accounted row := by
  obtain ⟨fate, hf⟩ := hx
  exact ⟨fate, h.fates _ hf⟩

theorem Reading.later (h : Later cfg s t) (hr : Reading cfg s d ahead) : Reading cfg t d ahead where
  position := h.position.trans hr.position
  ascending := hr.ascending
  above y hy := ⟨h.position.trans_lt (hr.above y hy).1, (hr.above y hy).2.trans_le h.nextId⟩
  accounted x hx hhub hle := by
    rw [h.served] at hx
    exact (hr.accounted x hx (h.rows x hhub hx) hle).imp_right h.accounted
  stands x hx hlast y hy hle := by
    rcases h.ids x hx with hnew | ⟨r, hr', hid, hts⟩
    · have hlt := (hr.above y hy).2
      omega
    · rw [← hid, ← hts]
      exact hr.stands r hr' (by omega) y hy (by omega)

theorem priceRowBoundOut_congr {x y : ServedRow} (h : x.block_timestamp = y.block_timestamp) :
    d.priceRowBoundOut x = d.priceRowBoundOut y := by
  rw [TableDrain.priceRowBoundOut, TableDrain.priceRowBoundOut, h]

theorem Declined.later (h : Later cfg s t) (hd : Declined s d) : Declined t d where
  lastId_lt := hd.lastId_lt.trans_le h.nextId
  min_le := hd.min_le
  below x hx hle hmin hpos := by
    rcases h.ids x hx with hnew | ⟨r, hr, hid, hts⟩
    · have := hd.lastId_lt
      omega
    · rw [← priceRowBoundOut_congr hts]
      exact hd.below r hr (by omega) (by rwa [hid]) hpos

theorem PhaseInv.later (h : Later cfg s t) (hp : PhaseInv cfg s d phase) : PhaseInv cfg t d phase where
  stopped := hp.stopped
  reading h0 hc := (hp.reading h0 hc).later h
  landed pending todo he x hx hb := h.accounted (hp.landed pending todo he x hx hb)
  since n he := ⟨h.position.trans (hp.since n he).1, (hp.since n he).2⟩
  opening := hp.opening
  declined ho hc := (hp.declined ho hc).later h

theorem Marked.later {mark : RepageFloor} (h : Later cfg s t) (hm : Marked s mark) : Marked t mark := by
  refine ⟨hm.1.trans h.nextId, fun x hx hlt => ?_⟩
  rcases h.ids x hx with hnew | ⟨r, hr, hid, hts⟩
  · have := hm.1
    omega
  · rw [← hts]
    exact hm.2 r hr (by omega)

/-- A step beside the drain keeps all of it. -/
theorem Inv.later (hi : Inv cfg s) (h : Later cfg s t) (hub : HubOk t) (hdrain : t.drain = s.drain)
    (hmark : ∀ mark ∈ t.priceRepageFloor, mark ∈ s.priceRepageFloor) : Inv cfg t where
  hub := hub
  passed x hx hhub hle := by
    rw [h.served] at hx
    exact h.accounted (hi.passed x hx (h.rows x hhub hx) (hle.trans h.position))
  marked mark hm := (hi.marked mark (hmark mark hm)).later h
  drain d phase hd := (hi.drain d phase (hdrain ▸ hd)).later h

theorem HubOk.congr (h : HubOk s) (hhub : t.hub = s.hub) (hserved : t.served = s.served)
    (hnext : t.nextId = s.nextId) (hwrites : t.writes = s.writes) : HubOk t where
  nextId_pos := hnext ▸ h.nextId_pos
  ascending := hhub ▸ h.ascending
  ids := by rw [hhub, hnext]; exact h.ids
  version := by rw [hhub, hwrites]; exact h.version
  servedVersion := by rw [hserved, hwrites]; exact h.servedVersion

/-! ### The hub's steps -/

theorem Inv.hubStep {l : Label K} (hi : Inv cfg s) (hs : s.hubStep l = some t) : Inv cfg t := by
  have hok := hi.hub
  -- a row the hub just wrote has a version nothing served can have
  have fresh : ∀ x ∈ s.served, x.version ≠ s.writes := fun x hx => (hok.servedVersion x hx).ne
  cases l with
  | publish gap columns block_timestamp =>
    cases hs
    refine hi.later ⟨rfl, fun _ => id, le_rfl, fun x hx hserved => ?_, fun x hx => ?_, ?_⟩
      ⟨?_, ?_, fun x hx => ?_, fun x hx => ?_, fun x hx => ?_⟩ rfl fun _ => id
    · rcases List.mem_append.mp hx with hx | hx
      · exact hx
      · rw [List.mem_singleton] at hx
        exact absurd (by rw [hx]) (fresh x hserved)
    · rcases List.mem_append.mp hx with hx | hx
      · exact .inr ⟨x, hx, rfl, rfl⟩
      · rw [List.mem_singleton] at hx
        exact .inl (by rw [hx]; exact Nat.le_add_right _ _)
    · exact Nat.le_succ_of_le (Nat.le_add_right _ _)
    · exact Nat.succ_pos _
    · refine List.pairwise_append.mpr ⟨hok.ascending, List.pairwise_singleton _ _, fun x hx y hy => ?_⟩
      rw [List.mem_singleton] at hy
      rw [hy]
      exact (hok.ids x hx).2.trans_le (Nat.le_add_right _ _)
    · have hpos := hok.nextId_pos
      rcases List.mem_append.mp hx with hx | hx
      · have := hok.ids x hx
        refine ⟨this.1, ?_⟩
        change x.id < s.nextId + gap + 1
        omega
      · rw [List.mem_singleton] at hx
        rw [hx]
        change 0 < s.nextId + gap ∧ s.nextId + gap < s.nextId + gap + 1
        omega
    · rcases List.mem_append.mp hx with hx | hx
      · exact (hok.version x hx).trans (Nat.lt_succ_self _)
      · rw [List.mem_singleton] at hx
        rw [hx]
        exact Nat.lt_succ_self _
    · exact (hok.servedVersion x hx).trans (Nat.lt_succ_self _)
  | rewrite id columns =>
    cases hs
    have hmem : ∀ x ∈ s.hub.map fun r => if r.id = id then { r with columns, version := s.writes } else r,
        (x ∈ s.hub ∨ x.version = s.writes) ∧
          ∃ r ∈ s.hub, r.id = x.id ∧ r.block_timestamp = x.block_timestamp := by
      intro x hx
      obtain ⟨r, hr, rfl⟩ := List.mem_map.mp hx
      split_ifs
      · exact ⟨.inr rfl, r, hr, rfl, rfl⟩
      · exact ⟨.inl hr, r, hr, rfl, rfl⟩
    refine hi.later ⟨rfl, fun _ h => h, le_rfl, fun x hx hserved => ?_,
      fun x hx => .inr (hmem x hx).2, le_rfl⟩
      ⟨hok.nextId_pos, ?_, fun x hx => ?_, fun x hx => ?_, fun x hx => ?_⟩ rfl fun _ h => h
    · exact (hmem x hx).1.resolve_right (fresh x hserved)
    · refine List.pairwise_map.mpr (hok.ascending.imp fun {x y} hxy => ?_)
      split_ifs <;> exact hxy
    · obtain ⟨r, hr, hid, -⟩ := (hmem x hx).2
      exact hid ▸ hok.ids r hr
    · rcases (hmem x hx).1 with hx | hx
      · exact (hok.version x hx).trans (Nat.lt_succ_self _)
      · rw [hx]
        exact Nat.lt_succ_self _
    · exact (hok.servedVersion x hx).trans (Nat.lt_succ_self _)
  | withdraw id =>
    cases hs
    have hmem : ∀ x ∈ s.hub.filter fun r => r.id ≠ id, x ∈ s.hub := fun x hx => (List.mem_filter.mp hx).1
    refine hi.later ⟨rfl, fun _ h => h, le_rfl, fun x hx _ => hmem x hx,
      fun x hx => .inr ⟨x, hmem x hx, rfl, rfl⟩, le_rfl⟩
      ⟨hok.nextId_pos, hok.ascending.filter _, fun x hx => hok.ids x (hmem x hx),
        fun x hx => hok.version x (hmem x hx), hok.servedVersion⟩ rfl fun _ h => h
  | _ => cases hs

/-! ### The connection's steps -/

theorem markRepageOwed_drainPositions (sync : Sync K) (tables : List MirrorTable) :
    (sync.markRepageOwed tables).drainPositions = sync.drainPositions := by
  induction tables generalizing sync with
  | nil => rfl
  | cons T tables ih => exact ih (sync.markOwed T)

theorem adoptReadyFrame_drainPositions (sync : Sync K) (instanceId : Option ℕ) (caughtUp : Bool)
    (maxIds : Option (MirrorTable → Option ℕ)) (heights : Option (Heights K)) (T : MirrorTable) :
    (sync.adoptReadyFrame instanceId caughtUp maxIds heights).drainPositions T ≤
      sync.drainPositions T := by
  rw [Sync.adoptReadyFrame]
  simp only [markRepageOwed_drainPositions]
  split_ifs <;> first | exact Nat.zero_le _ | exact le_rfl

theorem Inv.socketStep {l : Label K} (hi : Inv cfg s) (hs : s.socketStep cfg l = some t) : Inv cfg t := by
  -- none of them touches the hub, the drain or the record
  have frame : ∀ t : State K, t.served = s.served → t.fates = s.fates → t.hub = s.hub →
      t.nextId = s.nextId → t.writes = s.writes → t.drain = s.drain →
      t.position cfg ≤ s.position cfg → (∀ mark ∈ t.priceRepageFloor, mark ∈ s.priceRepageFloor) →
      Inv cfg t := fun t hserved hfates hhub hnext hwrites hdrain hpos hmark =>
    hi.later (.of_hub hserved (hfates ▸ fun _ => id) hpos hhub hnext)
      (hi.hub.congr hhub hserved hnext hwrites) hdrain hmark
  cases l with
  | ready instanceId caughtUp maxIds heights =>
    cases hs
    refine frame _ rfl rfl rfl rfl rfl rfl (adoptReadyFrame_drainPositions _ _ _ _ _ _) ?_
    intro mark hm
    simp only at hm
    split_ifs at hm
    · cases hm
    · exact hm
  | close resync => cases hs; exact frame _ rfl rfl rfl rfl rfl rfl le_rfl fun _ => id
  | resync =>
    cases hs
    refine frame _ rfl rfl rfl rfl rfl rfl ?_ fun _ hm => by cases hm
    rw [State.position, Sync.forgetPositionsForResync, markRepageOwed_drainPositions]
    exact Nat.zero_le _
  | moveHub => cases hs; exact frame _ rfl rfl rfl rfl rfl rfl (Nat.zero_le _) fun _ => id
  | selectorChange => cases hs; exact frame _ rfl rfl rfl rfl rfl rfl le_rfl fun _ => id
  | refuseSchema =>
    cases hs
    refine frame _ rfl rfl rfl rfl rfl rfl ?_ fun _ hm => by cases hm
    rw [State.position, Sync.refuseSchema, markRepageOwed_drainPositions]
    exact le_rfl
  | owe =>
    cases hs
    refine frame _ rfl rfl rfl rfl rfl rfl ?_ fun _ => id
    rw [State.position, markRepageOwed_drainPositions]
    exact le_rfl
  | notePriceMirrorFloor => cases hs; exact frame _ rfl rfl rfl rfl rfl rfl le_rfl fun _ => id
  | _ => cases hs

/-! ### The rows of a page -/

/-- A page read from where nothing is left out puts its rows ahead of the drain. -/
theorem Reading.serve {since : ℕ} (hok : HubOk s) (hr : Reading cfg s d [])
    (hlo : s.position cfg ≤ since) (hhi : since ≤ d.lastId) :
    Reading cfg { s with served := s.served ++ Page.fetch ServedRow.id s.hub since PAGE_LIMIT } d
      (Page.fetch ServedRow.id s.hub since PAGE_LIMIT) where
  position := hr.position
  ascending := Page.fetch_pairwise hok.ascending
  above y hy := by
    obtain ⟨hhub, hlt⟩ := Page.mem_of_mem_fetch hy
    exact ⟨hlo.trans_lt hlt, (hok.ids y hhub).2⟩
  accounted x hx hhub hle := by
    rcases List.mem_append.mp hx with hx | hx
    · by_cases hlast : x.id ≤ d.lastId
      · exact .inr ((hr.accounted x hx hhub (.inl hlast)).resolve_left (List.not_mem_nil))
      · obtain ⟨y, hy, hxy⟩ := hle.resolve_left hlast
        refine .inl ((Page.mem_fetch hok.ascending).mpr ⟨hhub, by omega, ?_⟩)
        exact hxy.trans (Page.le_reached (Page.fetch_pairwise hok.ascending) hy)
    · exact .inl hx
  stands x hhub hlast y hy hxy := by
    refine ⟨x, (Page.mem_fetch hok.ascending).mpr ⟨hhub, by omega, ?_⟩, rfl, rfl⟩
    exact hxy.trans (Page.le_reached (Page.fetch_pairwise hok.ascending) hy)

theorem position_advance (s : State K) (d : TableDrain) (row : ServedRow) :
    (s.advance cfg d row).position cfg =
      if d.lastId < row.id then row.id else s.position cfg := by
  rw [State.advance]
  split_ifs
  · exact Function.update_self _ _ _
  · rfl

/-- Only the position moves. -/
theorem advance_same (cfg : Config) (s : State K) (d : TableDrain) (row : ServedRow) :
    (s.advance cfg d row).served = s.served ∧ (s.advance cfg d row).hub = s.hub ∧
      (s.advance cfg d row).fates = s.fates ∧ (s.advance cfg d row).nextId = s.nextId ∧
      (s.advance cfg d row).writes = s.writes ∧
      (s.advance cfg d row).priceRepageFloor = s.priceRepageFloor := by
  rw [State.advance]
  split_ifs <;> exact ⟨rfl, rfl, rfl, rfl, rfl, rfl⟩

theorem Reading.handled (hr : Reading cfg s d (row :: ahead)) (hrow : s.Accounted row) :
    Reading cfg (s.advance cfg d row) (d.handled row) ahead := by
  obtain ⟨hlt, hasc⟩ := List.pairwise_cons.mp hr.ascending
  obtain ⟨hserved, hhub, hfates, hnext, -, -⟩ := advance_same cfg s d row
  refine ⟨?_, hasc, fun y hy => ?_, fun x hx hx' hle => ?_, fun x hx hlast y hy hle => ?_⟩
  · rw [position_advance]
    split_ifs
    · exact le_max_right _ _
    · exact hr.position.trans (le_max_left _ _)
  · have habove := hr.above y (List.mem_cons_of_mem _ hy)
    have := hlt y hy
    rw [position_advance, hnext]
    split_ifs <;> omega
  · rw [hserved] at hx
    rw [hhub] at hx'
    have hle' : x.id ≤ d.lastId ∨ ∃ y ∈ row :: ahead, x.id ≤ y.id := by
      rcases hle with hle | ⟨y, hy, hxy⟩
      · rcases le_max_iff.mp hle with hle | hle
        · exact .inl hle
        · exact .inr ⟨row, List.mem_cons_self, hle⟩
      · exact .inr ⟨y, List.mem_cons_of_mem _ hy, hxy⟩
    rw [State.Accounted, hfates]
    rcases hr.accounted x hx hx' hle' with hmem | hacc
    · rcases List.mem_cons.mp hmem with rfl | hmem
      · exact .inr hrow
      · exact .inl hmem
    · exact .inr hacc
  · rw [hhub] at hx
    have hlast' : d.lastId < x.id ∧ row.id < x.id := max_lt_iff.mp hlast
    obtain ⟨z, hz, hid, hts⟩ := hr.stands x hx hlast'.1 y (List.mem_cons_of_mem _ hy) hle
    rcases List.mem_cons.mp hz with rfl | hz
    · omega
    · exact ⟨z, hz, hid, hts⟩

theorem Declined.handled (hd : Declined s d) (hr : Reading cfg s d (row :: ahead)) :
    Declined (s.advance cfg d row) (d.handled row) := by
  obtain ⟨-, hhub, -, hnext, -, -⟩ := advance_same cfg s d row
  have hrow := hr.above row List.mem_cons_self
  -- the lowest applied id only falls, to the row itself where the row is applied
  have hmin : ∀ m ∈ d.minAppliedWireId, ∃ m' ∈ (d.handled row).minAppliedWireId, m' ≤ m := by
    intro m hm
    rw [TableDrain.handled]
    split_ifs
    · rw [Option.mem_def.mp hm]
      exact ⟨_, rfl, min_le_right _ _⟩
    · exact ⟨m, hm, le_rfl⟩
  refine ⟨?_, fun m hm => ?_, fun x hx hle hlow hpos => ?_⟩
  · rw [hnext]
    exact max_lt hd.lastId_lt hrow.2
  · rw [TableDrain.handled] at hm ⊢
    simp only at hm
    split_ifs at hm
    · cases h : d.minAppliedWireId with
      | none => rw [h] at hm; cases hm; exact le_max_right _ _
      | some m0 => rw [h] at hm; cases hm; exact (min_le_left _ _).trans (le_max_right _ _)
    · exact (hd.min_le m hm).trans (le_max_left _ _)
  · rw [hhub] at hx
    by_cases hlast : x.id ≤ d.lastId
    · refine hd.below x hx hlast (fun m hm => ?_) hpos
      obtain ⟨m', hm', hle'⟩ := hmin m hm
      exact (hlow m' hm').trans_le hle'
    · have hxrow : x.id ≤ row.id := (le_max_iff.mp hle).resolve_left hlast
      obtain ⟨z, hz, hid, hts⟩ := hr.stands x hx (not_le.mp hlast) row List.mem_cons_self hxrow
      obtain rfl : z = row := by
        rcases List.mem_cons.mp hz with rfl | hz
        · rfl
        · have := (List.pairwise_cons.mp hr.ascending).1 z hz
          omega
      by_contra hb
      have hb' : d.priceRowBoundOut z = false := by
        rw [priceRowBoundOut_congr hts]
        exact Bool.eq_false_iff.mpr hb
      have hm : (d.handled z).minAppliedWireId = some (d.minAppliedWireId.elim z.id (min z.id)) := by
        rw [TableDrain.handled]
        have hpos : 0 < d.priceHorizon := hpos
        exact if_pos (by rw [hb']; simpa using hpos)
      have := hlow _ hm
      have hle' : d.minAppliedWireId.elim z.id (min z.id) ≤ z.id := by
        cases d.minAppliedWireId with
        | none => exact le_rfl
        | some m => exact min_le_left _ _
      omega

/-! ### The drain's steps -/

theorem Inv.withDrain (hi : Inv cfg s) (hp : PhaseInv cfg s d phase) :
    Inv cfg (s.withDrain d phase) where
  hub := hi.hub.congr rfl rfl rfl rfl
  passed := hi.passed
  marked := hi.marked
  drain e p he := by
    cases he
    have hlater : Later cfg s (s.withDrain d phase) := .of_hub rfl (fun _ h => h) le_rfl rfl rfl
    exact hp.later hlater

theorem Inv.ended (hi : Inv cfg s) : Inv cfg s.ended where
  hub := hi.hub.congr rfl rfl rfl rfl
  passed := hi.passed
  marked := hi.marked
  drain := nofun

theorem resolveDrainCursor_le (cfg : Config) (s : State K) :
    s.sync.resolveDrainCursor cfg.table ≤ s.position cfg := by
  rw [Sync.resolveDrainCursor, State.position]
  split_ifs
  · split <;> exact Nat.zero_le _
  · split
    · split_ifs
      · exact Nat.zero_le _
      · exact le_rfl
    · exact le_rfl

theorem Inv.openTableDrain (hi : Inv cfg s) : Inv cfg (s.openTableDrain cfg) := by
  let u := s.setPosition cfg (s.sync.resolveDrainCursor cfg.table)
  have hpos : u.position cfg = s.sync.resolveDrainCursor cfg.table := Function.update_self _ _ _
  have hlater : Later cfg s u :=
    .of_hub rfl (fun _ h => h) (hpos.trans_le (resolveDrainCursor_le cfg s)) rfl rfl
  have hlow : Inv cfg u := hi.later hlater (hi.hub.congr rfl rfl rfl rfl) rfl fun _ h => h
  have hread : ∀ x ∈ u.served, x ∈ u.hub → x.id ≤ s.sync.resolveDrainCursor cfg.table → u.Accounted x :=
    fun x hx hhub hle => hlow.passed x hx hhub (hpos.symm ▸ hle)
  refine hlow.withDrain ⟨fun h => absurd rfl h, fun _ _ => ⟨hpos.le, .nil, nofun, ?_, nofun⟩, nofun, nofun,
    fun _ => ⟨fun h => of_decide_eq_true h, rfl, rfl⟩, nofun⟩
  intro x hx hhub hle
  rcases hle with hle | ⟨y, hy, -⟩
  · exact .inr (hread x hx hhub hle)
  · cases hy

/-- A drain that takes no recorded start reads from where it opened. -/
theorem declined_of_opening (hi : Inv cfg s) (hp : PhaseInv cfg s d phase) (ho : phase.isOpening = true)
    (horizon : ℕ) (hc : (s.newPriceBoundState d horizon).complete = true) :
    Declined s (s.newPriceBoundState d horizon) := by
  obtain ⟨hfull, hfloor, hmin⟩ := hp.opening ho
  have hzero : d.lastId = 0 := by
    apply hfull
    rw [TableDrain.complete] at hc
    simpa [State.newPriceBoundState, hfloor] using hc
  refine ⟨hzero ▸ hi.hub.nextId_pos, fun m hm => ?_, fun x hx hle _ _ => ?_⟩
  · have hm : m ∈ d.minAppliedWireId := hm
    rw [hmin] at hm
    cases hm
  · have hpos := (hi.hub.ids x hx).1
    have hle : x.id ≤ d.lastId := hle
    omega

/-- What lies below a recorded start is below its floor, so below that of a drain that takes it. -/
theorem Marked.declined {mark : RepageFloor} (hm : Marked s mark) {horizon : ℕ} (hpos : 0 < horizon)
    (hfloor : mark.floorTs ≤ (s.newPriceBoundState d horizon).priceFloor) {x : ServedRow}
    (hx : x ∈ s.hub) (hlt : x.id < mark.wireId) :
    (s.newPriceBoundState d horizon).priceRowBoundOut x = true := by
  obtain ⟨hts, hlt⟩ := hm.2 x hx hlt
  have hle : (s.newPriceBoundState d horizon).priceFloor ≤ horizon := by
    rw [State.newPriceBoundState, if_pos hpos]
    exact Nat.sub_le _ _
  have hhorizon : (s.newPriceBoundState d horizon).priceHorizon = horizon := rfl
  rw [TableDrain.priceRowBoundOut, hhorizon]
  simp only [Bool.and_eq_true, decide_eq_true_eq]
  omega

theorem Inv.startPaging (hi : Inv cfg s) (hp : PhaseInv cfg s d phase) (ho : phase.isOpening = true)
    (h0 : d.applyErrors = 0) (horizon : ℕ) : Inv cfg (s.startPaging cfg d horizon) := by
  rw [State.startPaging, State.choosePriceRepageStart]
  cases hstart : s.repageStart cfg (s.newPriceBoundState d horizon) with
  | none =>
    simp only
    split_ifs
    · have hread : Reading cfg s d [] := by
        have := hp.reading h0 (by rintro rfl; cases ho)
        cases phase <;> first | exact this | cases ho
      exact hi.withDrain ⟨fun h => absurd h0 h, fun _ _ => ⟨hread.position, hread.ascending, hread.above,
        hread.accounted, hread.stands⟩, nofun, nofun, nofun,
        fun _ hc => declined_of_opening hi hp ho horizon hc⟩
    · exact hi.ended
  | some mark =>
    simp only
    obtain ⟨hmark, htaken⟩ := Option.filter_eq_some_iff.mp hstart
    simp only [Bool.and_eq_true, decide_eq_true_eq] at htaken
    obtain ⟨⟨⟨-, hhorizon⟩, hfloor⟩, -⟩ := htaken
    have hhorizon : 0 < horizon := hhorizon
    have hm := hi.marked mark hmark
    have hmin := (hp.opening ho).2.2
    let u : State K := { s.setPosition cfg (mark.wireId - 1) with
      drain := none
      fates := s.fates ++ (s.served.filter fun row => decide (row.id < mark.wireId) &&
        (s.newPriceBoundState d horizon).priceRowBoundOut row).map (·, Fate.boundOut) }
    have hpos : u.position cfg = mark.wireId - 1 := Function.update_self _ _ _
    have hpassed : ∀ x ∈ u.served, x ∈ u.hub → x.id ≤ mark.wireId - 1 → u.Accounted x := by
      intro x hx hhub hle
      have hid := (hi.hub.ids x hhub).1
      refine ⟨.boundOut, List.mem_append_right _ (List.mem_map.mpr ⟨x, List.mem_filter.mpr ⟨hx, ?_⟩, rfl⟩)⟩
      rw [hm.declined hhorizon hfloor hhub (by omega), Bool.and_true]
      exact decide_eq_true (by omega)
    have hinv : Inv cfg u :=
      ⟨hi.hub.congr rfl rfl rfl rfl, fun x hx hhub hle => hpassed x hx hhub (hpos ▸ hle), hi.marked, nofun⟩
    split_ifs
    · have hdeclined : Declined u { s.newPriceBoundState d horizon with
          lastId := mark.wireId - 1, fullTable := false, floorStart := true } := by
        have hnext := hi.hub.nextId_pos
        have hwire := hm.1
        refine ⟨?_, fun m h => ?_, fun x hx hle _ _ => ?_⟩
        · change mark.wireId - 1 < s.nextId
          omega
        · have h : m ∈ d.minAppliedWireId := h
          rw [hmin] at h
          cases h
        · have hid := (hi.hub.ids x hx).1
          have hle : x.id ≤ mark.wireId - 1 := hle
          exact hm.declined hhorizon hfloor hx (by omega)
      refine hinv.withDrain ⟨fun h => absurd h0 h, fun _ _ => ⟨hpos.le, .nil, nofun, ?_, nofun⟩, nofun, nofun,
        nofun, fun _ _ => hdeclined⟩
      intro x hx hhub hle
      rcases hle with hle | ⟨y, hy, -⟩
      · exact .inr (hpassed x hx hhub hle)
      · cases hy
    · exact hinv

/-- The hub's answer puts its page ahead of the drain. -/
theorem Inv.serve {since : ℕ} {waiting answered : Phase} (hi : Inv cfg s) (hp : PhaseInv cfg s d waiting)
    (hread : Reading cfg s d []) (hlo : s.position cfg ≤ since) (hhi : since ≤ d.lastId)
    (hw : waiting.isOpening = false) (ha : answered.isOpening = false)
    (h0 : d.applyErrors = 0)
    (hahead : answered.ahead = Page.fetch ServedRow.id s.hub since PAGE_LIMIT)
    (hne : ∀ b pending todo, answered ≠ .flushing b pending todo)
    (hnone : ∀ n, answered ≠ .catchingUp n none) :
    Inv cfg ({ s with served := s.served ++ Page.fetch ServedRow.id s.hub since PAGE_LIMIT }.withDrain d
      answered) := by
  let u : State K := { s with
    drain := none, served := s.served ++ Page.fetch ServedRow.id s.hub since PAGE_LIMIT }
  have hu : Inv cfg u := by
    refine ⟨⟨hi.hub.nextId_pos, hi.hub.ascending, hi.hub.ids, hi.hub.version, fun x hx => ?_⟩,
      fun x hx hhub hle => ?_, hi.marked, nofun⟩
    · rcases List.mem_append.mp hx with hx | hx
      · exact hi.hub.servedVersion x hx
      · exact hi.hub.version x (Page.mem_of_mem_fetch hx).1
    · rcases List.mem_append.mp hx with hx | hx
      · exact hi.passed x hx hhub hle
      · have hlt := (Page.mem_of_mem_fetch hx).2
        have hle : x.id ≤ s.position cfg := hle
        omega
  have hserved := Reading.serve hi.hub hread hlo hhi
  refine hu.withDrain ⟨fun h => absurd h0 h, fun _ _ => ?_, fun pending todo h => absurd h (hne _ _ _),
    fun n h => absurd h (hnone n), fun h => ?_, fun _ hc => ?_⟩
  · rw [hahead]
    exact ⟨hserved.position, hserved.ascending, hserved.above, hserved.accounted, hserved.stands⟩
  · rw [ha] at h
    cases h
  · have hd := hp.declined hw hc
    exact ⟨hd.lastId_lt, hd.min_le, hd.below⟩

/-- A drain that goes on with the same rows ahead, or with none. -/
theorem Inv.goOn {old new : Phase} {e : TableDrain} (hi : Inv cfg s) (hp : PhaseInv cfg s d old)
    (ho : old.isOpening = false) (hn : new.isOpening = false)
    (hlast : e.lastId = d.lastId) (hmin : e.minAppliedWireId = d.minAppliedWireId)
    (hcomplete : e.complete = d.complete)
    (hhorizon : e.priceHorizon = d.priceHorizon) (hfloor : e.priceFloor = d.priceFloor)
    (hstop : e.applyErrors ≠ 0 → new = .flushing false [] [] ∨ new = .closing)
    (hread : e.applyErrors = 0 → new ≠ .closing → Reading cfg s d new.ahead)
    (hland : ∀ pending todo, new ≠ .flushing true pending todo)
    (hsince : ∀ n, new = .catchingUp n none → s.position cfg ≤ n ∧ n ≤ d.lastId) :
    Inv cfg (s.withDrain e new) := by
  refine hi.withDrain ⟨hstop, fun h0 hc => ?_, fun pending todo h => absurd h (hland pending todo),
    fun n h => hlast ▸ hsince n h, fun h => ?_, fun _ hc => ?_⟩
  · have hr := hread h0 hc
    exact ⟨hlast ▸ hr.position, hr.ascending, hr.above, hlast ▸ hr.accounted, hlast ▸ hr.stands⟩
  · rw [hn] at h
    cases h
  · have hd := hp.declined ho (hcomplete ▸ hc)
    have hb : ∀ x, e.priceRowBoundOut x = d.priceRowBoundOut x := fun x => by
      rw [TableDrain.priceRowBoundOut, TableDrain.priceRowBoundOut, hhorizon, hfloor]
    refine ⟨hlast ▸ hd.lastId_lt, hlast ▸ hmin ▸ hd.min_le, fun x hx hle hlow hpos => ?_⟩
    rw [hb]
    exact hd.below x hx (hlast ▸ hle) (hmin ▸ hlow) (hhorizon ▸ hpos)

/-- Whether the batch landed or not, its rows are still to be passed one by one. -/
theorem Inv.flushPendingRows {batched : Bool} {todo : List ServedRow} (landed : Bool) (hi : Inv cfg s)
    (hp : PhaseInv cfg s d (.flushing batched [] todo)) (h0 : d.applyErrors = 0) :
    Inv cfg (s.flushPendingRows cfg d todo landed) := by
  let pending := todo.take cfg.batchApplyRows
  let batch := pending.filter fun row => !d.priceRowBoundOut row
  let u : State K := { s with
    fates := s.fates ++ if landed && cfg.batchable batch then batch.map (·, Fate.applied) else [] }
  have hlater : Later cfg s u :=
    .of_hub rfl (fun _ h => List.mem_append_left _ h) le_rfl rfl rfl
  have hu : Inv cfg u := hi.later hlater (hi.hub.congr rfl rfl rfl rfl) rfl fun _ h => h
  have hp' := hp.later hlater
  refine hu.withDrain ⟨fun h => absurd h0 h, fun _ _ => ?_, fun p q he x hx hb => ?_, nofun, nofun,
    hp'.declined⟩
  · have hahead : (pending ++ todo.drop cfg.batchApplyRows) = todo := List.take_append_drop _ _
    have hread : Reading cfg u d todo := hp'.reading h0 (by simp)
    rwa [← hahead] at hread
  · obtain ⟨hbatched, rfl, -⟩ := Phase.flushing.inj he
    refine ⟨.applied, List.mem_append_right _ ?_⟩
    rw [if_pos hbatched]
    exact List.mem_map.mpr ⟨x, List.mem_filter.mpr ⟨hx, by simp [hb]⟩, rfl⟩

/-- A row on record is passed. -/
theorem Inv.advance {old next : Phase} (hi : Inv cfg s) (hp : PhaseInv cfg s d old)
    (ho : old.isOpening = false) (h0 : d.applyErrors = 0) (hread : Reading cfg s d (row :: ahead))
    (hacc : s.Accounted row) (hnext : next.ahead = ahead) (hn : next.isOpening = false)
    (hrest : ∀ pending todo, next = .flushing true pending todo →
      ∀ x ∈ pending, d.priceRowBoundOut x = false → s.Accounted x)
    (hnone : ∀ n, next ≠ .catchingUp n none) :
    Inv cfg ((s.advance cfg d row).withDrain (d.handled row) next) := by
  obtain ⟨hserved, hhub, hfates, hnextId, hwrites, hfloor⟩ := advance_same cfg s d row
  have hu : Inv cfg (s.advance cfg d row).ended := by
    refine ⟨hi.hub.congr hhub hserved hnextId hwrites, fun x hx hx' hle => ?_, fun mark hm => ?_, nofun⟩
    · have hx : x ∈ s.served := hserved ▸ hx
      have hx' : x ∈ s.hub := hhub ▸ hx'
      have hle : x.id ≤ (s.advance cfg d row).position cfg := hle
      suffices s.Accounted x by rwa [State.Accounted, State.ended, hfates]
      rw [position_advance] at hle
      split_ifs at hle with hlt
      · -- whatever was served up to the row is on record, or is the row
        rcases hread.accounted x hx hx' (.inr ⟨row, List.mem_cons_self, hle⟩) with hmem | hx
        · rcases List.mem_cons.mp hmem with rfl | hmem
          · exact hacc
          · have := (List.pairwise_cons.mp hread.ascending).1 x hmem
            omega
        · exact hx
      · exact hi.passed x hx hx' hle
    · have hm := hi.marked mark (hfloor ▸ hm)
      rw [Marked, State.ended, hnextId, hhub]
      exact hm
  have hread' := hread.handled hacc
  refine hu.withDrain ⟨fun h => absurd h0 h, fun _ _ => ?_, fun p q he x hx hb => ?_,
    fun n he => absurd he (hnone n), fun h => ?_, fun _ hc => ?_⟩
  · rw [hnext]
    exact ⟨hread'.position, hread'.ascending, hread'.above, hread'.accounted, hread'.stands⟩
  · obtain ⟨fate, hf⟩ := hrest p q he x hx hb
    exact ⟨fate, hfates.symm ▸ hf⟩
  · rw [hn] at h
    cases h
  · have hd := (hp.declined ho hc).handled hread
    exact ⟨hd.lastId_lt, hd.min_le, hd.below⟩

/-- What a row became is on record. -/
theorem applyPendingRow_some {batched : Bool} {o : ApplyOutcome}
    (h : applyPendingRow s d row batched o = some t)
    (hland : batched = true → d.priceRowBoundOut row = false → s.Accounted row) :
    (∃ fates, t = { s with fates := s.fates ++ fates }) ∧ t.Accounted row := by
  rw [applyPendingRow] at h
  split_ifs at h with hb hbatched
  · cases h
    exact ⟨⟨_, rfl⟩, .boundOut, by simp⟩
  · cases h
    exact ⟨⟨[], by simp⟩, hland hbatched (by simpa using hb)⟩
  · obtain ⟨fate, -, rfl⟩ := Option.map_eq_some_iff.mp h
    exact ⟨⟨_, rfl⟩, fate, by simp⟩

/-- A row passes, or stops its page. -/
theorem Inv.passRow {old next stopped : Phase} {batched : Bool} (o : ApplyOutcome) (hi : Inv cfg s)
    (hp : PhaseInv cfg s d old) (ho : old.isOpening = false) (h0 : d.applyErrors = 0)
    (hread : Reading cfg s d (row :: ahead))
    (hland : batched = true → d.priceRowBoundOut row = false → s.Accounted row)
    (hnext : next.ahead = ahead) (hn : next.isOpening = false)
    (hrest : ∀ pending todo, next = .flushing true pending todo →
      ∀ x ∈ pending, d.priceRowBoundOut x = false → s.Accounted x)
    (hnone : ∀ n, next ≠ .catchingUp n none)
    (hstop : stopped = .flushing false [] [] ∨ stopped = .closing) :
    Inv cfg (s.row cfg d row batched o next stopped) := by
  rw [State.row]
  cases happly : applyPendingRow s d row batched o with
  | none =>
    have hlater : Later cfg s { s with failed := s.failed ++ [row] } :=
      .of_hub rfl (fun _ h => h) le_rfl rfl rfl
    have hfail : Inv cfg { s with failed := s.failed ++ [row] } :=
      hi.later hlater (hi.hub.congr rfl rfl rfl rfl) rfl fun _ h => h
    refine hfail.goOn (hp.later hlater) ho ?_ rfl rfl rfl rfl rfl (fun _ => hstop)
      (fun h => absurd h (Nat.succ_ne_zero _)) ?_ ?_
    · rcases hstop with rfl | rfl <;> rfl
    · rcases hstop with rfl | rfl <;> nofun
    · rcases hstop with rfl | rfl <;> nofun
  | some u =>
    obtain ⟨⟨fates, rfl⟩, hacc⟩ := applyPendingRow_some happly hland
    have hlater : Later cfg s { s with fates := s.fates ++ fates } :=
      .of_hub rfl (fun _ h => List.mem_append_left _ h) le_rfl rfl rfl
    have hi : Inv cfg { s with fates := s.fates ++ fates } :=
      hi.later hlater (hi.hub.congr rfl rfl rfl rfl) rfl fun _ h => h
    exact hi.advance (hp.later hlater) ho h0 (hread.later hlater) hacc hnext hn
      (fun p q he x hx hb => hlater.accounted (hrest p q he x hx hb)) hnone

theorem Inv.catchUpToReadyCeiling {old : Phase} (hi : Inv cfg s) (hp : PhaseInv cfg s d old)
    (ho : old.isOpening = false) (hread : d.applyErrors = 0 → Reading cfg s d []) :
    Inv cfg (s.catchUpToReadyCeiling cfg d) := by
  have hclose : Inv cfg (s.withDrain d .closing) :=
    hi.goOn hp ho rfl rfl rfl rfl rfl rfl (fun _ => .inr rfl) (fun _ h => absurd rfl h) nofun nofun
  rw [State.catchUpToReadyCeiling]
  split_ifs
  · exact hi.ended
  · split
    · split_ifs with hgap
      · refine hi.goOn hp ho rfl rfl rfl rfl rfl rfl (fun h => absurd hgap.2 h) (fun h _ => hread h) nofun ?_
        intro n hn
        cases hn
        exact ⟨le_rfl, (hread hgap.2).position⟩
      · exact hclose
    · exact hclose

theorem Inv.pageEnd {batched : Bool} (hi : Inv cfg s) (hp : PhaseInv cfg s d (.flushing batched [] [])) :
    Inv cfg (s.pageEnd cfg d) := by
  have hread : d.applyErrors = 0 → Reading cfg s d [] := fun h0 => hp.reading h0 (by simp)
  rw [State.pageEnd]
  split_ifs with hend
  · exact hi.catchUpToReadyCeiling hp rfl hread
  · have h0 : d.applyErrors = 0 := by
      rw [not_or, not_not] at hend
      exact hend.1
    exact hi.goOn hp rfl rfl rfl rfl rfl rfl rfl (fun h => absurd h0 h) (fun h _ => hread h) nofun nofun
  · exact hi.ended

/-- The recorded start is the lowest row the drain applied, and all below it was bounded out. -/
theorem Inv.certify (hi : Inv cfg s) (hp : PhaseInv cfg s d .closing) :
    Inv cfg ((s.settleRepageOwed cfg d).notePriceRepageFloor cfg d).ended := by
  have hsettle : Inv cfg (s.settleRepageOwed cfg d) := by
    rw [State.settleRepageOwed]
    split_ifs
    · exact hi.later (.of_hub rfl (fun _ h => h) le_rfl rfl rfl) (hi.hub.congr rfl rfl rfl rfl) rfl
        fun _ h => h
    · exact hi
  have hsame : (s.settleRepageOwed cfg d).hub = s.hub ∧ (s.settleRepageOwed cfg d).nextId = s.nextId := by
    rw [State.settleRepageOwed]
    split_ifs <;> exact ⟨rfl, rfl⟩
  rw [State.notePriceRepageFloor]
  split_ifs with hprice hbound
  · refine ⟨hsettle.hub.congr rfl rfl rfl rfl, hsettle.passed, fun mark hm => ?_, nofun⟩
    obtain ⟨wireId, hmin, rfl⟩ := Option.map_eq_some_iff.mp hm
    have hd := hp.declined rfl (by simp only [Bool.and_eq_true] at hprice; exact hprice.2)
    have hle := hd.min_le wireId hmin
    have hlt := hd.lastId_lt
    refine ⟨?_, fun x hx hxlt => ?_⟩
    · change wireId ≤ (s.settleRepageOwed cfg d).nextId
      omega
    · have hx : x ∈ s.hub := hsame.1 ▸ hx
      have hxlt : x.id < wireId := hxlt
      have hb := hd.below x hx (by omega) (fun m hm => by rw [hmin] at hm; cases hm; exact hxlt) hbound
      rw [TableDrain.priceRowBoundOut] at hb
      simp only [Bool.and_eq_true, decide_eq_true_eq] at hb
      exact ⟨hb.1.1.2, hb.2⟩
  · exact ⟨hsettle.hub.congr rfl rfl rfl rfl, hsettle.passed, fun _ hm => (nomatch hm), nofun⟩
  · exact hsettle.ended

theorem Inv.drainStep {l : Label K} (hi : Inv cfg s) (hdrain : s.drain = some (d, phase))
    (hs : s.drainStep cfg d phase l = some t) : Inv cfg t := by
  have hp := hi.drain d phase hdrain
  -- a drain with rows ahead, or a page to come, has not failed
  have h0 : (phase ≠ .flushing false [] [] ∧ phase ≠ .closing) → d.applyErrors = 0 := by
    intro h
    by_contra hne
    rcases hp.stopped hne with he | he
    · exact h.1 he
    · exact h.2 he
  cases l with
  | askHorizon =>
    simp only [State.drainStep] at hs
    split at hs
    · cases hs
      exact hi.withDrain ⟨fun h => absurd (h0 (by simp)) h, fun h _ => hp.reading h (by simp), nofun, nofun,
        fun _ => hp.opening rfl, nofun⟩
    · cases hs
  | horizon answer =>
    simp only [State.drainStep] at hs
    split at hs
    · cases hs
      exact hi.startPaging hp rfl (h0 (by simp)) _
    · cases hs
  | serve =>
    simp only [State.drainStep] at hs
    split at hs
    · cases hs
      have hread := hp.reading (h0 (by simp)) (by simp)
      exact hi.serve hp hread hread.position le_rfl rfl rfl (h0 (by simp)) rfl nofun nofun
    · cases hs
      have hread := hp.reading (h0 (by simp)) (by simp)
      obtain ⟨hlo, hhi⟩ := hp.since _ rfl
      exact hi.serve hp hread hlo hhi rfl rfl (h0 (by simp)) rfl nofun nofun
    · cases hs
  | take ok =>
    simp only [State.drainStep] at hs
    split at hs
    · cases hs
      split_ifs
      · exact hi.goOn hp rfl rfl rfl rfl rfl rfl rfl (fun h => absurd (h0 (by simp)) h)
          (fun h _ => hp.reading h (by simp)) nofun nofun
      · exact hi.ended
    · cases hs
      split_ifs
      · exact hi.goOn hp rfl rfl rfl rfl rfl rfl rfl (fun h => absurd (h0 (by simp)) h)
          (fun h _ => hp.reading h (by simp)) nofun nofun
      · exact hi.goOn hp rfl rfl rfl rfl rfl rfl rfl (fun _ => .inr rfl) (fun _ h => absurd rfl h) nofun nofun
    · cases hs
  | chunk landed =>
    simp only [State.drainStep] at hs
    split at hs
    · cases hs
      exact hi.flushPendingRows landed hp (h0 (by simp))
    · cases hs
  | row o =>
    simp only [State.drainStep] at hs
    split at hs
    case h_1 batched row pending todo =>
      cases hs
      refine hi.passRow o hp rfl (h0 (by simp)) (hp.reading (h0 (by simp)) (by simp)) (fun hb => ?_) rfl rfl
        (fun p q he x hx => ?_) nofun (.inl rfl)
      · exact hp.landed (row :: pending) todo (by rw [hb]) row List.mem_cons_self
      · obtain ⟨hb, hpend, -⟩ := Phase.flushing.inj he
        exact hp.landed (row :: pending) todo (by rw [hb]) x (List.mem_cons_of_mem _ (hpend ▸ hx))
    case h_2 row todo =>
      cases hs
      exact hi.passRow o hp rfl (h0 (by simp)) (hp.reading (h0 (by simp)) (by simp)) nofun rfl rfl nofun nofun
        (.inr rfl)
    case h_3 => cases hs
  | pageEnd =>
    simp only [State.drainStep] at hs
    split at hs
    · cases hs
      exact hi.pageEnd hp
    · cases hs
      split_ifs
      · exact hi.goOn hp rfl rfl rfl rfl rfl rfl rfl (fun _ => .inr rfl) (fun _ h => absurd rfl h) nofun nofun
      · exact hi.ended
    · cases hs
  | catchUpLost =>
    simp only [State.drainStep] at hs
    split at hs
    · cases hs
      exact hi.goOn hp rfl rfl rfl rfl rfl rfl rfl (fun _ => .inr rfl) (fun _ h => absurd rfl h) nofun nofun
    · cases hs
  | refuseBound =>
    simp only [State.drainStep] at hs
    split at hs
    · split_ifs at hs
      cases hs
      exact ⟨hi.hub.congr rfl rfl rfl rfl, hi.passed, nofun, nofun⟩
    · cases hs
  | certify =>
    simp only [State.drainStep] at hs
    split at hs
    · split_ifs at hs
      cases hs
      exact hi.certify hp
    · cases hs
  | giveUp => cases hs; exact hi.ended
  | _ => cases hs

theorem Inv.step {l : Label K} (hi : Inv cfg s) (hs : s.step cfg l = some t) : Inv cfg t := by
  cases l with
  | publish | rewrite | withdraw =>
    simp only [State.step] at hs
    exact hi.hubStep hs
  | ready | close | resync | moveHub | selectorChange | refuseSchema | owe | notePriceMirrorFloor =>
    simp only [State.step] at hs
    exact hi.socketStep hs
  | openTable =>
    simp only [State.step] at hs
    split at hs
    · cases hs
      exact hi.openTableDrain
    · cases hs
  | _ =>
    obtain ⟨⟨d, phase⟩, hdrain, hs⟩ := Option.bind_eq_some_iff.mp hs
    exact hi.drainStep hdrain hs

/-! ### The claim -/

/-- A client that has read nothing yet of a table in id order. -/
structure State.Fresh (s : State K) : Prop where
  nextId_pos : 0 < s.nextId
  ascending : s.hub.Pairwise (·.id < ·.id)
  ids : ∀ x ∈ s.hub, 0 < x.id ∧ x.id < s.nextId
  version : ∀ x ∈ s.hub, x.version < s.writes
  served : s.served = []
  priceRepageFloor : s.priceRepageFloor = none
  drain : s.drain = none

theorem State.Fresh.inv (h : s.Fresh) : Inv cfg s where
  hub := ⟨h.nextId_pos, h.ascending, h.ids, h.version, by rw [h.served]; exact nofun⟩
  passed := by rw [h.served]; exact nofun
  marked := by rw [h.priceRepageFloor]; exact nofun
  drain := by rw [h.drain]; exact nofun

theorem startPaging_failed (cfg : Config) (s : State K) (d : TableDrain) (horizon : ℕ) :
    (s.startPaging cfg d horizon).failed = s.failed := by
  rw [State.startPaging, State.choosePriceRepageStart]
  cases s.repageStart cfg (s.newPriceBoundState d horizon) with
  | none => simp only; split_ifs <;> rfl
  | some mark => simp only; split_ifs <;> rfl

theorem pageEnd_failed (cfg : Config) (s : State K) (d : TableDrain) :
    (s.pageEnd cfg d).failed = s.failed := by
  rw [State.pageEnd, State.catchUpToReadyCeiling]
  split_ifs <;> first | rfl | (split <;> first | rfl | (split_ifs <;> rfl))

theorem certify_failed (cfg : Config) (s : State K) (d : TableDrain) :
    ((s.settleRepageOwed cfg d).notePriceRepageFloor cfg d).failed = s.failed := by
  rw [State.notePriceRepageFloor, State.settleRepageOwed]
  split_ifs <;> rfl

/-- A row that throws leaves the position where it was. -/
theorem row_failed (cfg : Config) (s : State K) (d : TableDrain) (row : ServedRow) (batched : Bool)
    (o : ApplyOutcome) (next stopped : Phase) :
    (s.row cfg d row batched o next stopped).failed = s.failed ∨
      (s.row cfg d row batched o next stopped).failed = s.failed ++ [row] ∧
        (s.row cfg d row batched o next stopped).position cfg = s.position cfg := by
  rw [State.row]
  cases happly : applyPendingRow s d row batched o with
  | none => exact .inr ⟨rfl, rfl⟩
  | some u =>
    have hsame : u.failed = s.failed := by
      rw [applyPendingRow] at happly
      split_ifs at happly
      · cases happly; rfl
      · cases happly; rfl
      · obtain ⟨fate, -, rfl⟩ := Option.map_eq_some_iff.mp happly
        rfl
    refine .inl ?_
    rw [← hsame]
    change (u.advance cfg d row).failed = u.failed
    rw [State.advance]
    split_ifs <;> rfl

/-- Only a row ahead of the drain is ever put down as failed. -/
theorem step_failed {l : Label K} (hs : s.step cfg l = some t) : t.failed = s.failed ∨
    ∃ d phase row, s.drain = some (d, phase) ∧ row ∈ phase.ahead ∧ t.failed = s.failed ++ [row] ∧
      t.position cfg = s.position cfg := by
  cases l with
  | publish | rewrite | withdraw =>
    simp only [State.step, State.hubStep] at hs
    cases hs
    exact .inl rfl
  | ready | close | resync | moveHub | selectorChange | refuseSchema | owe | notePriceMirrorFloor =>
    simp only [State.step, State.socketStep] at hs
    cases hs
    exact .inl rfl
  | openTable =>
    simp only [State.step] at hs
    split at hs <;> cases hs
    exact .inl rfl
  | row o =>
    obtain ⟨⟨d, phase⟩, hdrain, hs⟩ := Option.bind_eq_some_iff.mp hs
    simp only [State.drainStep] at hs
    split at hs <;> cases hs
    · exact (row_failed cfg s d _ _ o _ _).imp_right fun h =>
        ⟨d, _, _, hdrain, List.mem_cons_self, h⟩
    · exact (row_failed cfg s d _ _ o _ _).imp_right fun h =>
        ⟨d, _, _, hdrain, List.mem_cons_self, h⟩
  | horizon answer =>
    obtain ⟨⟨d, phase⟩, hdrain, hs⟩ := Option.bind_eq_some_iff.mp hs
    simp only [State.drainStep] at hs
    split at hs <;> cases hs
    exact .inl (startPaging_failed cfg s d _)
  | pageEnd =>
    obtain ⟨⟨d, phase⟩, hdrain, hs⟩ := Option.bind_eq_some_iff.mp hs
    simp only [State.drainStep] at hs
    split at hs <;> cases hs
    · exact .inl (pageEnd_failed cfg s d)
    · split_ifs <;> exact .inl rfl
  | certify =>
    obtain ⟨⟨d, phase⟩, hdrain, hs⟩ := Option.bind_eq_some_iff.mp hs
    simp only [State.drainStep] at hs
    split at hs
    · split_ifs at hs
      cases hs
      exact .inl (certify_failed cfg s d)
    · cases hs
  | refuseBound =>
    obtain ⟨⟨d, phase⟩, hdrain, hs⟩ := Option.bind_eq_some_iff.mp hs
    simp only [State.drainStep] at hs
    split at hs
    · split_ifs at hs
      cases hs
      exact .inl rfl
    · cases hs
  | take ok =>
    obtain ⟨⟨d, phase⟩, hdrain, hs⟩ := Option.bind_eq_some_iff.mp hs
    simp only [State.drainStep] at hs
    split at hs <;> cases hs
    · split_ifs <;> exact .inl rfl
    · split_ifs <;> exact .inl rfl
  | askHorizon | serve | chunk | catchUpLost | giveUp =>
    obtain ⟨⟨d, phase⟩, hdrain, hs⟩ := Option.bind_eq_some_iff.mp hs
    simp only [State.drainStep] at hs
    first | (split at hs <;> cases hs <;> exact .inl rfl) | (cases hs; exact .inl rfl)

theorem Inv.failed_above {l : Label K} (hi : Inv cfg s) (hs : s.step cfg l = some t)
    (hf : t.failed = s.failed ++ [row]) : t.position cfg < row.id := by
  rcases step_failed hs with hsame | ⟨d, phase, x, hdrain, hx, hfx, hpos⟩
  · rw [hsame] at hf
    have := congrArg List.length hf
    simp at this
  · obtain rfl : x = row := by
      rw [hf] at hfx
      simpa using hfx.symm
    have hp := hi.drain d phase hdrain
    have hreading : Reading cfg s d phase.ahead := by
      refine hp.reading ?_ ?_
      · by_contra hne
        rcases hp.stopped hne with rfl | rfl <;> cases hx
      · rintro rfl
        cases hx
    rw [hpos]
    exact (hreading.above x hx).1

/-- From a fresh start, whatever fails, is bounded out, held or refused, and however the price rows are
    batched: every row the hub served and still holds at or below the stored position was applied,
    bounded out, held or refused, and a row that fails leaves the position below it. -/
theorem drain_cursor_passes_no_hole {ls : List (Label K)} (h : s.Fresh)
    (hr : Runs.run (State.step cfg) s ls = some t) :
    (∀ row ∈ t.served, row ∈ t.hub → row.id ≤ t.position cfg → t.Accounted row) ∧
      ∀ l u row, t.step cfg l = some u → u.failed = t.failed ++ [row] → u.position cfg < row.id := by
  have hi : Inv cfg t := Runs.run_inv' (fun _ _ _ hi hs => hi.step hs) h.inv hr
  exact ⟨hi.passed, fun l u row hs hf => hi.failed_above hs hf⟩

/-- The matches, which are read from the start each time. -/
def matchTable : Config := { table := .cross_chain_matches, batchApplyRows := 2, two_le_batchApplyRows := le_rfl }

/-- A first row that cannot be applied, taken back by the hub before the retry. -/
def withdrawnRun : List (Label Unit) :=
  [.publish 0 [] 0, .openTable, .askHorizon, .horizon none, .serve, .take true, .chunk false, .row .thrown,
    .giveUp, .withdraw 1, .publish 0 [] 0, .openTable, .askHorizon, .horizon none, .serve, .take true,
    .chunk false, .row .landed]

theorem drain_cursor_passes_no_hole_withdrawn :
    ∃ t : State Unit, Runs.run (State.step matchTable) {} withdrawnRun = some t ∧
      t.position matchTable = 2 ∧
      ∀ row ∈ t.served, row ∈ t.hub → row.id ≤ t.position matchTable → t.Accounted row := by
  obtain ⟨t, hr, hpos⟩ : ∃ t : State Unit,
      Runs.run (State.step matchTable) {} withdrawnRun = some t ∧ t.position matchTable = 2 := ⟨_, rfl, rfl⟩
  have hfresh : State.Fresh ({} : State Unit) := ⟨Nat.one_pos, .nil, nofun, nofun, rfl, rfl, rfl⟩
  exact ⟨t, hr, hpos, (drain_cursor_passes_no_hole hfresh hr).1⟩

/-- The row the hub took back was served, lies below the position, and was never handled. -/
theorem not_every_served_row_accounted :
    ¬ ∀ (cfg : Config) (ls : List (Label Unit)) (t : State Unit),
      Runs.run (State.step cfg) {} ls = some t →
        ∀ row ∈ t.served, row.id ≤ t.position cfg → t.Accounted row := by
  intro h
  obtain ⟨fate, hf⟩ := h matchTable withdrawnRun _ rfl ⟨1, [], 0, 0⟩ (by decide) (by decide)
  cases fate <;> revert hf <;> decide

end HubDbSync.Cursor
