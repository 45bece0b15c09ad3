import XChainExplorer.Hub.GenerationFence
import XChainExplorer.Lib.Page
import XChainExplorer.Lib.Runs
import XChainExplorer.Lib.UniqueTable

/-! # Retracted oracle prices

    The hub deletes an oracle price it retracts, so a mirror that missed the retraction is never
    told again. A complete drain of `oracle_prices` notes the keys its pages serve and the highest
    local id it started from; once it is through, the local rows up to that id at a key no page
    served are deleted. A live publication updates the row at its key in place, and the row keeps
    its id. -/

namespace HubDbSync.Oracle

/-- `UNIQUE (source_chain, action_index)`. -/
abbrev PriceKey := String × ℕ

/-- The key of a price. -/
def oraclePriceKey (row : MirrorRow) : PriceKey := (row .source_chain, row .action_index)

/-- A row of the prices. -/
abbrev PriceRow := UniqueRow PriceKey MirrorRow

/-- The prices by their keys. -/
abbrev PriceTable := UniqueTable PriceKey MirrorRow

/-- The rows of a page. -/
def PAGE_LIMIT : ℕ := 10000

/-- The most keys that a drain keeps. -/
def ORACLE_PRICE_KEY_CAP : ℕ := 500000

/-- Ids in one `DELETE`. -/
def REMOVAL_CHUNK : ℕ := 500

/-- The accounting of one drain from id 0. -/
structure PriceDrain where
  oraclePreDrainMaxId : ℕ
  lastId : ℕ := 0
  pending : List PriceRow := []
  servedOracleKeys : List PriceKey := []
  oracleKeysComplete : Bool := true
  shortPage : Bool := false
  caughtUp : Bool := false

/-- No drain, one that reads its pages, or one that removes the ids it found. -/
inductive Pass where
  | idle
  | draining (drain : PriceDrain)
  | removing (stale : List ℕ)

/-- The hub with every version it published and every retraction it sent, and the mirror. Nothing
    reads `delivered`, the versions the mirror was given by a page or a live event. -/
structure State where
  hub : PriceTable
  versions : List MirrorRow
  retractions : List (String × RetractionRange)
  mirror : PriceTable
  delivered : List MirrorRow
  pass : Pass

/-- A step of the hub, of the live feed or of the drain. -/
inductive Label where
  | publish (row : MirrorRow)
  | retract (chain : String) (range : RetractionRange)
  | live (version : ℕ)
  | liveRetraction (retraction : ℕ)
  | openDrain (readable : Bool)
  | page
  | row
  | catchUp
  | reconcile
  | remove
  | abort

/-! ### The hub -/

/-- A publication is of a higher generation than every version of its key so far, and above the fence
    of every retraction that was sent. -/
def Newer (s : State) (row : MirrorRow) : Prop :=
  (∀ v ∈ s.versions, oraclePriceKey v = oraclePriceKey row →
    v .push_generation < row .push_generation) ∧
  ∀ e ∈ s.retractions, retracts .oracle_prices e.1 e.2 row = false

instance (s : State) (row : MirrorRow) : Decidable (Newer s row) :=
  inferInstanceAs (Decidable (_ ∧ _))

/-! ### The drain -/

/-- `SELECT MAX(id)`, and 0 where there is none. -/
def localMaxId (mirror : PriceTable) : ℕ := (mirror.rows.map (·.id)).foldl max 0

/-- The upsert of one row. -/
def applyPrice (cols : List Column) (mirror : PriceTable) (row : MirrorRow) : PriceTable :=
  mirror.upsert (oraclePriceKey row) row fun old => upgradeRow .oracle_prices cols old row

/-- The next page into the drain. -/
def readPage (hub : PriceTable) (drain : PriceDrain) : PriceDrain :=
  let rows := Page.fetch UniqueRow.id hub.rows drain.lastId PAGE_LIMIT
  { drain with
    pending := rows
    shortPage := drain.shortPage || decide (rows.length < PAGE_LIMIT) }

/-- Behind a row that was applied. A key over the cap is not kept, and from then on the set proves
    nothing. -/
def recordServedRow (drain : PriceDrain) (row : PriceRow) (pending : List PriceRow) : PriceDrain :=
  let full := decide (ORACLE_PRICE_KEY_CAP ≤ drain.servedOracleKeys.length)
  { drain with
    pending
    lastId := row.id
    servedOracleKeys :=
      if full then drain.servedOracleKeys else drain.servedOracleKeys.insert row.key
    oracleKeysComplete := drain.oracleKeysComplete && !full }

/-- A row the drain started from whose key it was not served. -/
def PriceDrain.judgesStale (drain : PriceDrain) (x : PriceRow) : Bool :=
  x.id ≤ drain.oraclePreDrainMaxId && x.key ∉ drain.servedOracleKeys

/-- The ids to remove, where the pass may run: there was a local row to judge, no key was left out, and
    the two sides derive the same keys. -/
def reconcileRetractedOracleRows (mirror : PriceTable) (drain : PriceDrain) : List ℕ :=
  let matched := mirror.rows.filter fun x => x.key ∈ drain.servedOracleKeys
  if drain.oraclePreDrainMaxId = 0 || !drain.oracleKeysComplete then []
  else if !drain.servedOracleKeys.isEmpty && !mirror.rows.isEmpty && matched.isEmpty then []
  else (mirror.rows.filter drain.judgesStale).map (·.id)

/-- A step of the world, if it can be taken. -/
def step (cols : List Column) (s : State) : Label → Option State
  | .publish row =>
    if Newer s row then
      some { s with
        hub := s.hub.upsert (oraclePriceKey row) row fun _ => row
        versions := s.versions ++ [row] }
    else none
  | .retract chain range =>
    some { s with
      hub := s.hub.delete fun x => retracts .oracle_prices chain range x.value
      retractions := s.retractions ++ [(chain, range)] }
  | .live version =>
    s.versions[version]?.map fun row =>
      { s with mirror := applyPrice cols s.mirror row, delivered := row :: s.delivered }
  | .liveRetraction retraction =>
    s.retractions[retraction]?.map fun e =>
      { s with mirror := s.mirror.delete fun x => retracts .oracle_prices e.1 e.2 x.value }
  | .openDrain readable => match s.pass with
    | .idle =>
      let oraclePreDrainMaxId := if readable then localMaxId s.mirror else 0
      some { s with pass := .draining { oraclePreDrainMaxId } }
    | _ => none
  | .page => match s.pass with
    | .draining drain =>
      if drain.pending.isEmpty && !drain.shortPage then
        some { s with pass := .draining (readPage s.hub drain) }
      else none
    | _ => none
  | .row => match s.pass with
    | .draining drain => match drain.pending with
      | x :: pending =>
        some { s with
          mirror := applyPrice cols s.mirror x.value
          delivered := x.value :: s.delivered
          pass := .draining (recordServedRow drain x pending) }
      | [] => none
    | _ => none
  -- one page more, where the hub had named a higher id than the walk came to
  | .catchUp => match s.pass with
    | .draining drain =>
      if drain.pending.isEmpty && drain.shortPage && !drain.caughtUp then
        some { s with pass := .draining { readPage s.hub drain with caughtUp := true } }
      else none
    | _ => none
  | .reconcile => match s.pass with
    | .draining drain =>
      if drain.pending.isEmpty && drain.shortPage then
        some { s with pass := .removing (reconcileRetractedOracleRows s.mirror drain) }
      else none
    | _ => none
  | .remove => match s.pass with
    | .removing stale =>
      if stale.isEmpty then some { s with pass := .idle }
      else
        some { s with
          mirror := s.mirror.delete fun x => x.id ∈ stale.take REMOVAL_CHUNK
          pass := .removing (stale.drop REMOVAL_CHUNK) }
    | _ => none
  -- a page, a row or a statement that fails ends the drain
  | .abort => match s.pass with
    | .idle => none
    | _ => some { s with pass := .idle }

/-- The rows the pass is going to remove, once the last page is in. -/
def pendingRemoval (s : State) : List PriceRow :=
  match s.pass with
  | .idle => []
  | .draining drain =>
    if drain.shortPage && drain.oracleKeysComplete then
      s.mirror.rows.filter fun x => drain.judgesStale x && x.key ∉ drain.pending.map (·.key)
    else []
  | .removing stale => s.mirror.rows.filter fun x => x.id ∈ stale

/-- No live publication of a row the hub holds comes in at a key the pass is going to remove. -/
def NotShutOut (s : State) : Label → Prop
  | .live version => ∀ row ∈ s.versions[version]?,
    (∃ h ∈ s.hub.rows, h.key = oraclePriceKey row ∧
      h.value .push_generation = row .push_generation) →
    ∀ x ∈ pendingRemoval s, x.key ≠ oraclePriceKey row
  | _ => True

instance (s : State) (label : Label) : Decidable (NotShutOut s label) :=
  match label with
  | .live version => inferInstanceAs (Decidable (∀ row ∈ s.versions[version]?,
      (∃ h ∈ s.hub.rows, h.key = oraclePriceKey row ∧
        h.value .push_generation = row .push_generation) →
      ∀ x ∈ pendingRemoval s, x.key ≠ oraclePriceKey row))
  | .publish _ | .retract _ _ | .liveRetraction _ | .openDrain _ | .page | .row | .catchUp
  | .reconcile | .remove | .abort => inferInstanceAs (Decidable True)

/-! ### What a run keeps -/

/-- What a drain has read of the hub. -/
structure DrainInv (s : State) (drain : PriceDrain) : Prop where
  mark : drain.oraclePreDrainMaxId < s.mirror.nextId
  pending : ∀ p ∈ drain.pending, drain.lastId < p.id ∧ p.key = oraclePriceKey p.value ∧
    p.value ∈ s.versions
  ascending : drain.pending.Pairwise (·.id < ·.id)
  reached : Page.reached UniqueRow.id drain.lastId drain.pending < s.hub.nextId
  covered : drain.oracleKeysComplete = true → ∀ h ∈ s.hub,
    h.id ≤ Page.reached UniqueRow.id drain.lastId drain.pending →
      h.key ∈ drain.servedOracleKeys ∨ h.key ∈ drain.pending.map (·.key)

/-- What holds of a pass under way. -/
def PassInv (s : State) : Prop :=
  match s.pass with
  | .idle => True
  | .draining drain => DrainInv s drain
  | .removing stale => ∀ i ∈ stale, i < s.mirror.nextId

/-- Every row of the hub that was delivered stands in the mirror, at its generation or a later one,
    and no pass is going to remove it. -/
structure Inv (s : State) : Prop where
  hub : ∀ h ∈ s.hub, h.key = oraclePriceKey h.value ∧ h.value ∈ s.versions
  fences : ∀ h ∈ s.hub, ∀ e ∈ s.retractions, retracts .oracle_prices e.1 e.2 h.value = false
  mirror : ∀ x ∈ s.mirror, x.key = oraclePriceKey x.value
  delivered : ∀ v ∈ s.delivered, v ∈ s.versions
  held : ∀ h ∈ s.hub, h.value ∈ s.delivered → ∃ x ∈ s.mirror, x.key = h.key ∧
    h.value .push_generation ≤ x.value .push_generation
  spared : ∀ h ∈ s.hub, h.value ∈ s.delivered → ∀ x ∈ pendingRemoval s, x.key ≠ h.key
  pass : PassInv s

/-! ### The mirror -/

section mirror
variable {cols : List Column} {mirror : PriceTable} {row : MirrorRow}

theorem localMaxId_lt (mirror : PriceTable) : localMaxId mirror < mirror.nextId := by
  unfold localMaxId
  have hlt : ∀ (l : List ℕ) (a : ℕ), a < mirror.nextId → (∀ i ∈ l, i < mirror.nextId) →
      l.foldl max a < mirror.nextId := by
    intro l
    induction l with
    | nil => exact fun a ha _ => ha
    | cons i l ih =>
      intro a ha hl
      obtain ⟨hi, hl⟩ := List.forall_mem_cons.mp hl
      exact ih _ (max_lt ha hi) hl
  refine hlt _ 0 mirror.nextId_pos fun i hi => ?_
  obtain ⟨x, hx, rfl⟩ := List.mem_map.mp hi
  exact mirror.ids_lt x hx

/-- A delivery keeps the key of the row at its key. -/
theorem oraclePriceKey_upgradeRow (hcols : Column.push_generation ∈ cols) (values row : MirrorRow) :
    oraclePriceKey (upgradeRow .oracle_prices cols row values) = oraclePriceKey row := by
  unfold oraclePriceKey
  rw [upgradeRow_oracle hcols, upgradeRow_oracle hcols, if_neg, if_neg]
  · simp [updatableColumns]
  · simp [updatableColumns]

theorem key_applyPrice (hcols : Column.push_generation ∈ cols)
    (hkeys : ∀ x ∈ mirror, x.key = oraclePriceKey x.value) (row : MirrorRow) :
    ∀ x ∈ applyPrice cols mirror row, x.key = oraclePriceKey x.value := by
  intro x hx
  rcases UniqueTable.mem_upsert.mp hx with ⟨hx, -⟩ | ⟨y, hy, -, rfl⟩ | ⟨-, rfl⟩
  · exact hkeys x hx
  · exact (hkeys y hy).trans (oraclePriceKey_upgradeRow hcols row y.value).symm
  · rfl

/-- A delivery leaves a row at its key, of its generation or a higher one. -/
theorem applyPrice_holds (hcols : Column.push_generation ∈ cols) (mirror : PriceTable)
    (row : MirrorRow) : ∃ x ∈ applyPrice cols mirror row, x.key = oraclePriceKey row ∧
      row .push_generation ≤ x.value .push_generation := by
  obtain ⟨x, hx, hk, hv⟩ := UniqueTable.exists_mem_upsert mirror (oraclePriceKey row) row
    fun old => upgradeRow .oracle_prices cols old row
  refine ⟨x, hx, hk, ?_⟩
  rcases hv with hv | ⟨y, -, -, hv⟩
  · rw [hv]
  · rw [hv, push_generation_oracle hcols]
    exact le_max_right _ _

/-- No delivery lowers the generation at a key. -/
theorem applyPrice_keeps (hcols : Column.push_generation ∈ cols) (row : MirrorRow) {x : PriceRow}
    (hx : x ∈ mirror) : ∃ y ∈ applyPrice cols mirror row, y.key = x.key ∧
      x.value .push_generation ≤ y.value .push_generation := by
  by_cases hk : x.key = oraclePriceKey row
  · refine ⟨_, UniqueTable.mem_upsert.mpr (.inr (.inl ⟨x, hx, hk, rfl⟩)), rfl, ?_⟩
    simp only
    rw [push_generation_oracle hcols]
    exact le_max_left _ _
  · exact ⟨x, UniqueTable.mem_upsert.mpr (.inl ⟨hx, hk⟩), rfl, le_rfl⟩

/-- A retraction that takes a row takes every older version of its key. -/
theorem retracts_of_le {chain : String} {range : RetractionRange} {old new : MirrorRow}
    (hkey : oraclePriceKey old = oraclePriceKey new)
    (hle : old .push_generation ≤ new .push_generation)
    (h : retracts .oracle_prices chain range new = true) :
    retracts .oracle_prices chain range old = true := by
  obtain ⟨hchain, hindex⟩ := Prod.mk.injEq _ _ _ _ ▸ hkey
  simp only [retracts, retractByColumn, RETRACTION_COLUMNS, RETRACTION_CHAIN_COLUMNS,
    Option.any_some, Bool.and_eq_true, RetractionRange.covers] at h ⊢
  obtain ⟨hsame, hin, hfence⟩ := h
  refine ⟨decide_eq_true (hchain.trans (of_decide_eq_true hsame)), hindex ▸ hin, ?_⟩
  cases hf : range.fence with
  | none => rfl
  | some gen =>
    rw [hf] at hfence
    have hgen : ((new .push_generation : ℤ) : ℚ) ≤ gen := by simpa using hfence
    have hcast : ((old .push_generation : ℤ) : ℚ) ≤ (new .push_generation : ℤ) := by exact_mod_cast hle
    simpa using hcast.trans hgen

end mirror

/-! ### Each step -/

section steps
variable {s t : State} {drain : PriceDrain}

theorem DrainInv.of_later (h : DrainInv s drain) (hhub : UniqueTable.Later s.hub t.hub)
    (hmirror : s.mirror.nextId ≤ t.mirror.nextId) (hversions : ∀ v ∈ s.versions, v ∈ t.versions) :
    DrainInv t drain where
  mark := h.mark.trans_le hmirror
  pending p hp := ⟨(h.pending p hp).1, (h.pending p hp).2.1, hversions _ (h.pending p hp).2.2⟩
  ascending := h.ascending
  reached := h.reached.trans_le hhub.nextId
  covered hall x hx hle := by
    rcases hhub.rows x hx with ⟨y, hy, hid, hk⟩ | hnew
    · rw [← hk]
      exact h.covered hall y hy (hid ▸ hle)
    · exact absurd (hle.trans_lt h.reached) hnew.not_gt

theorem PassInv.of_later (h : PassInv s) (hp : t.pass = s.pass)
    (hhub : UniqueTable.Later s.hub t.hub) (hmirror : s.mirror.nextId ≤ t.mirror.nextId)
    (hversions : ∀ v ∈ s.versions, v ∈ t.versions) : PassInv t := by
  unfold PassInv at h ⊢
  rw [hp]
  cases hpass : s.pass with
  | idle => trivial
  | draining drain =>
    rw [hpass] at h
    exact DrainInv.of_later h hhub hmirror hversions
  | removing stale =>
    rw [hpass] at h
    exact fun i hi => (h i hi).trans_le hmirror

theorem judgesStale_congr {x y : PriceRow} (hid : x.id = y.id) (hk : x.key = y.key) :
    drain.judgesStale x = drain.judgesStale y := by
  rw [PriceDrain.judgesStale, PriceDrain.judgesStale, hid, hk]

theorem mem_pendingRemoval_draining {x : PriceRow} (hp : s.pass = .draining drain) :
    x ∈ pendingRemoval s ↔ drain.shortPage = true ∧ drain.oracleKeysComplete = true ∧ x ∈ s.mirror ∧
      drain.judgesStale x = true ∧ x.key ∉ drain.pending.map (·.key) := by
  unfold pendingRemoval
  rw [hp]
  simp only
  split_ifs with hready
  · rw [List.mem_filter, Bool.and_eq_true, decide_eq_true_eq, UniqueTable.mem_def]
    simp only [Bool.and_eq_true] at hready
    simp [hready]
  · simp only [List.not_mem_nil, false_iff]
    rintro ⟨hshort, hall, -⟩
    exact hready (by simp [hshort, hall])

theorem mem_pendingRemoval_removing {x : PriceRow} {stale : List ℕ} (hp : s.pass = .removing stale) :
    x ∈ pendingRemoval s ↔ x ∈ s.mirror ∧ x.id ∈ stale := by
  unfold pendingRemoval
  rw [hp]
  simp [UniqueTable.mem_def]

/-- A row of a later mirror that is to be removed was to be removed before. -/
theorem pendingRemoval_of_later (h : PassInv s) (hp : t.pass = s.pass)
    (hmirror : UniqueTable.Later s.mirror t.mirror) {x : PriceRow} (hx : x ∈ pendingRemoval t) :
    ∃ y ∈ pendingRemoval s, y.key = x.key := by
  unfold PassInv at h
  cases hpass : s.pass with
  | idle =>
    unfold pendingRemoval at hx
    rw [hp, hpass] at hx
    cases hx
  | draining drain =>
    rw [hpass] at h
    obtain ⟨hshort, hall, hx, hstale, hpending⟩ :=
      (mem_pendingRemoval_draining (hp.trans hpass)).mp hx
    rcases hmirror.rows x hx with ⟨y, hy, hid, hk⟩ | hnew
    · refine ⟨y, (mem_pendingRemoval_draining hpass).mpr ⟨hshort, hall, hy, ?_, hk ▸ hpending⟩, hk⟩
      rwa [judgesStale_congr hid hk]
    · have hle : x.id ≤ drain.oraclePreDrainMaxId := by
        simp only [PriceDrain.judgesStale, Bool.and_eq_true, decide_eq_true_eq] at hstale
        exact hstale.1
      exact absurd (hle.trans_lt h.mark) hnew.not_gt
  | removing stale =>
    rw [hpass] at h
    obtain ⟨hx, hstale⟩ := (mem_pendingRemoval_removing (hp.trans hpass)).mp hx
    rcases hmirror.rows x hx with ⟨y, hy, hid, hk⟩ | hnew
    · exact ⟨y, (mem_pendingRemoval_removing hpass).mpr ⟨hy, hid ▸ hstale⟩, hk⟩
    · exact absurd (h _ hstale) hnew.not_gt

theorem Inv.publish {row : MirrorRow} (h : Inv s) (hnew : Newer s row) :
    Inv { s with
      hub := s.hub.upsert (oraclePriceKey row) row fun _ => row
      versions := s.versions ++ [row] } := by
  have hmem : ∀ x ∈ s.hub.upsert (oraclePriceKey row) row fun _ => row,
      x ∈ s.hub ∨ x.key = oraclePriceKey row ∧ x.value = row := by
    intro x hx
    rcases UniqueTable.mem_upsert.mp hx with ⟨hx, -⟩ | ⟨y, -, hk, rfl⟩ | ⟨-, rfl⟩
    · exact .inl hx
    · exact .inr ⟨hk, rfl⟩
    · exact .inr ⟨rfl, rfl⟩
  have hundelivered : row ∉ s.delivered := fun hrow =>
    lt_irrefl _ (hnew.1 row (h.delivered row hrow) rfl)
  have hold : ∀ x ∈ s.hub.upsert (oraclePriceKey row) row fun _ => row,
      x.value ∈ s.delivered → x ∈ s.hub := by
    intro x hx hdelivered
    rcases hmem x hx with hx | ⟨-, hv⟩
    · exact hx
    · exact absurd (hv ▸ hdelivered) hundelivered
  exact
    { hub := by
        intro x hx
        rcases hmem x hx with hx | ⟨hk, hv⟩
        · exact ⟨(h.hub x hx).1, List.mem_append_left _ (h.hub x hx).2⟩
        · rw [hv]
          exact ⟨hk, by simp⟩
      fences := by
        intro x hx e he
        rcases hmem x hx with hx | ⟨-, hv⟩
        · exact h.fences x hx e he
        · rw [hv]
          exact hnew.2 e he
      mirror := h.mirror
      delivered := fun v hv => List.mem_append_left _ (h.delivered v hv)
      held := fun x hx hdelivered => h.held x (hold x hx hdelivered) hdelivered
      spared := fun x hx hdelivered => h.spared x (hold x hx hdelivered) hdelivered
      pass := by
        have hlater := UniqueTable.later_upsert s.hub (oraclePriceKey row) row fun _ => row
        exact h.pass.of_later rfl hlater le_rfl fun v hv => List.mem_append_left _ hv }

theorem Inv.retract (h : Inv s) (chain : String) (range : RetractionRange) :
    Inv { s with
      hub := s.hub.delete fun x => retracts .oracle_prices chain range x.value
      retractions := s.retractions ++ [(chain, range)] } := by
  have hkept : ∀ x ∈ s.hub.delete fun x => retracts .oracle_prices chain range x.value, x ∈ s.hub :=
    fun x hx => (UniqueTable.mem_delete.mp hx).1
  exact
    { hub := fun x hx => h.hub x (hkept x hx)
      fences := by
        intro x hx e he
        rcases List.mem_append.mp he with he | he
        · exact h.fences x (hkept x hx) e he
        · obtain rfl := List.mem_singleton.mp he
          exact (UniqueTable.mem_delete.mp hx).2
      mirror := h.mirror
      delivered := h.delivered
      held := fun x hx => h.held x (hkept x hx)
      spared := fun x hx => h.spared x (hkept x hx)
      pass := h.pass.of_later rfl (UniqueTable.later_delete _ _) le_rfl fun _ hv => hv }

theorem later_refl (table : PriceTable) : UniqueTable.Later table table :=
  ⟨le_rfl, fun x hx => .inl ⟨x, hx, rfl, rfl⟩⟩

/-- A delivery of a version of the hub, to a key that is not about to be removed. -/
theorem Inv.deliver {cols : List Column} (hcols : Column.push_generation ∈ cols) {row : MirrorRow}
    (h : Inv s) (hrow : row ∈ s.versions) {pass : Pass}
    (ht : t = { s with
      mirror := applyPrice cols s.mirror row
      delivered := row :: s.delivered
      pass := pass })
    (hspared : ∀ x ∈ s.hub, x.value ∈ row :: s.delivered → ∀ y ∈ pendingRemoval t, y.key ≠ x.key)
    (hpass : PassInv t) : Inv t := by
  subst ht
  refine ⟨h.hub, h.fences, key_applyPrice hcols h.mirror row,
    List.forall_mem_cons.mpr ⟨hrow, h.delivered⟩, ?_, hspared, hpass⟩
  · intro x hx hdelivered
    rcases List.mem_cons.mp hdelivered with hv | hdelivered
    · obtain ⟨y, hy, hk, hle⟩ := applyPrice_holds hcols s.mirror row
      exact ⟨y, hy, by rw [hk, (h.hub x hx).1, hv], hv ▸ hle⟩
    · obtain ⟨y, hy, hk, hle⟩ := h.held x hx hdelivered
      obtain ⟨z, hz, hzk, hzle⟩ := applyPrice_keeps hcols row hy
      exact ⟨z, hz, hzk.trans hk, hle.trans hzle⟩

theorem Inv.live {cols : List Column} (hcols : Column.push_generation ∈ cols) {version : ℕ}
    {row : MirrorRow} (h : Inv s) (hrow : s.versions[version]? = some row)
    (hc : NotShutOut s (.live version)) :
    Inv { s with mirror := applyPrice cols s.mirror row, delivered := row :: s.delivered } := by
  have hlater : UniqueTable.Later s.mirror (applyPrice cols s.mirror row) :=
    UniqueTable.later_upsert _ _ _ _
  refine h.deliver hcols (List.mem_of_getElem? hrow) rfl (fun x hx hdelivered y hy => ?_)
    (h.pass.of_later rfl (later_refl _) hlater.nextId fun _ hv => hv)
  obtain ⟨z, hz, hk⟩ := pendingRemoval_of_later (t := { s with
    mirror := applyPrice cols s.mirror row, delivered := row :: s.delivered }) h.pass rfl hlater hy
  rw [← hk]
  rcases List.mem_cons.mp hdelivered with hv | hdelivered
  · have hkey : x.key = oraclePriceKey row := hv ▸ (h.hub x hx).1
    rw [hkey]
    exact hc row hrow ⟨x, hx, hkey, by rw [hv]⟩ z hz
  · exact h.spared x hx hdelivered z hz

theorem Inv.liveRetraction (h : Inv s) {e : String × RetractionRange} (he : e ∈ s.retractions) :
    Inv { s with mirror := s.mirror.delete fun x => retracts .oracle_prices e.1 e.2 x.value } where
  hub := h.hub
  fences := h.fences
  mirror x hx := h.mirror x (UniqueTable.mem_delete.mp hx).1
  delivered := h.delivered
  held x hx hdelivered := by
    obtain ⟨y, hy, hk, hle⟩ := h.held x hx hdelivered
    refine ⟨y, UniqueTable.mem_delete.mpr ⟨hy, ?_⟩, hk, hle⟩
    -- a retraction that takes the row takes the older one the hub still holds
    by_contra hdoomed
    have hkey : oraclePriceKey x.value = oraclePriceKey y.value := by
      rw [← (h.hub x hx).1, ← h.mirror y hy, hk]
    have htaken := retracts_of_le hkey hle (by simpa using hdoomed)
    rw [h.fences x hx e he] at htaken
    cases htaken
  spared x hx hdelivered y hy := by
    obtain ⟨z, hz, hk⟩ := pendingRemoval_of_later (t := { s with
      mirror := s.mirror.delete fun x => retracts .oracle_prices e.1 e.2 x.value })
      h.pass rfl (UniqueTable.later_delete _ _) hy
    rw [← hk]
    exact h.spared x hx hdelivered z hz
  pass := h.pass.of_later rfl (later_refl _) le_rfl fun _ hv => hv

/-- A step of the pass alone. -/
theorem Inv.of_pass (h : Inv s) {pass : Pass} (hpass : PassInv { s with pass := pass })
    (hspared : ∀ x ∈ s.hub, x.value ∈ s.delivered →
      ∀ y ∈ pendingRemoval { s with pass := pass }, y.key ≠ x.key) : Inv { s with pass := pass } :=
  ⟨h.hub, h.fences, h.mirror, h.delivered, h.held, hspared, hpass⟩

theorem Inv.openDrain (h : Inv s) (readable : Bool) :
    Inv { s with
      pass := .draining
        { oraclePreDrainMaxId := if readable then localMaxId s.mirror else 0 } } := by
  refine h.of_pass ?_ fun x _ _ y hy => ?_
  · refine ⟨?_, by simp, List.Pairwise.nil, s.hub.nextId_pos, fun _ x hx hle => ?_⟩
    · split_ifs
      · exact localMaxId_lt s.mirror
      · exact s.mirror.nextId_pos
    · exact absurd (s.hub.ids_pos x hx) (by simpa using hle)
  · obtain ⟨hshort, -⟩ := (mem_pendingRemoval_draining rfl).mp hy
    cases hshort

/-- Every row the hub held when a page that came back short was read is among the ones served, so one
    delivered by then is at no key that is going to be removed. -/
theorem Inv.readPage (h : Inv s) (hp : s.pass = .draining drain) (hnil : drain.pending = [])
    (caughtUp : Bool) :
    Inv { s with pass := .draining { readPage s.hub drain with caughtUp } } := by
  obtain ⟨rows, hrows⟩ : ∃ rows, rows =
    Page.fetch UniqueRow.id s.hub.rows drain.lastId PAGE_LIMIT := ⟨_, rfl⟩
  have hpage : Oracle.readPage s.hub drain =
      { drain with
        pending := rows
        shortPage := drain.shortPage || decide (rows.length < PAGE_LIMIT) } := by
    rw [hrows]
    rfl
  have hdrain : DrainInv s drain := by simpa [PassInv, hp] using h.pass
  have hhub : ∀ p ∈ rows, p ∈ s.hub ∧ drain.lastId < p.id := by
    rw [hrows]
    exact fun p hx => Page.mem_of_mem_fetch hx
  have hcovered : drain.oracleKeysComplete = true → ∀ x ∈ s.hub, x.id ≤ drain.lastId →
      x.key ∈ drain.servedOracleKeys := by
    intro hall x hx hle
    have hread := hdrain.covered hall x hx
    rw [hnil, Page.reached_nil] at hread
    exact (hread hle).resolve_right (by simp)
  rw [hpage]
  refine h.of_pass ⟨hdrain.mark, fun p hx => ?_, ?_, ?_, fun hall x hx hle => ?_⟩
    fun x hx hdelivered y hy hk => ?_
  · exact ⟨(hhub p hx).2, h.hub p (hhub p hx).1⟩
  · rw [hrows]
    exact Page.fetch_pairwise s.hub.ids_ascending
  · simp only
    by_cases hempty : rows = []
    · have hreached := hdrain.reached
      rw [hnil] at hreached
      rwa [hempty]
    · obtain ⟨p, hx, hid⟩ := Page.reached_mem UniqueRow.id drain.lastId hempty
      rw [← hid]
      exact s.hub.ids_lt p (hhub p hx).1
  · by_cases hlo : drain.lastId < x.id
    · refine .inr (List.mem_map.mpr ⟨x, ?_, rfl⟩)
      rw [hrows] at hle ⊢
      exact (Page.mem_fetch s.hub.ids_ascending).mpr ⟨hx, hlo, hle⟩
    · exact .inl (hcovered hall x hx (not_lt.mp hlo))
  · obtain ⟨hshort, hall, hy, hstale, hpending⟩ := (mem_pendingRemoval_draining rfl).mp hy
    have hunserved : y.key ∉ drain.servedOracleKeys := by
      simp only [PriceDrain.judgesStale, Bool.and_eq_true, decide_eq_true_eq] at hstale
      exact hstale.2
    by_cases hbefore : drain.shortPage = true
    · have hy : y ∈ pendingRemoval s :=
        (mem_pendingRemoval_draining hp).mpr ⟨hbefore, hall, hy, hstale, by simp [hnil]⟩
      exact h.spared x hx hdelivered y hy hk
    · have hnow : rows.length < PAGE_LIMIT := by simpa [hbefore] using hshort
      by_cases hlo : drain.lastId < x.id
      · have hx : x ∈ rows := by
          rw [hrows] at hnow ⊢
          exact (Page.mem_fetch_of_short hnow).mpr ⟨hx, hlo⟩
        exact hpending (hk ▸ List.mem_map.mpr ⟨x, hx, rfl⟩)
      · exact hunserved (hk ▸ hcovered hall x hx (not_lt.mp hlo))

theorem mem_recordServedRow {row : PriceRow} {pending : List PriceRow} {k : PriceKey}
    (hall : (recordServedRow drain row pending).oracleKeysComplete = true) :
    drain.oracleKeysComplete = true ∧
      (k ∈ (recordServedRow drain row pending).servedOracleKeys ↔
        k = row.key ∨ k ∈ drain.servedOracleKeys) := by
  simp only [recordServedRow, Bool.and_eq_true, Bool.not_eq_true'] at hall ⊢
  refine ⟨hall.1, ?_⟩
  rw [hall.2]
  simp

theorem Inv.row {cols : List Column} (hcols : Column.push_generation ∈ cols) (h : Inv s)
    (hp : s.pass = .draining drain) {x : PriceRow} {pending : List PriceRow}
    (hpending : drain.pending = x :: pending) :
    Inv { s with
      mirror := applyPrice cols s.mirror x.value
      delivered := x.value :: s.delivered
      pass := .draining (recordServedRow drain x pending) } := by
  have hdrain : DrainInv s drain := by simpa [PassInv, hp] using h.pass
  obtain ⟨-, hkey, hversion⟩ := hdrain.pending x (by simp [hpending])
  have hlater : UniqueTable.Later s.mirror (applyPrice cols s.mirror x.value) :=
    UniqueTable.later_upsert _ _ _ _
  have hasc := hdrain.ascending
  rw [hpending] at hasc
  obtain ⟨hfirst, hasc⟩ := List.pairwise_cons.mp hasc
  have hsplit : Page.reached UniqueRow.id drain.lastId drain.pending =
      Page.reached UniqueRow.id x.id pending := by
    rw [hpending]
    exact Page.reached_append [x] pending
  refine h.deliver hcols hversion rfl (fun y hy hdelivered z hz hk => ?_) ⟨?_, ?_, hasc, ?_, ?_⟩
  · obtain ⟨hshort, hall, hz, hstale, hleft⟩ := (mem_pendingRemoval_draining rfl).mp hz
    obtain ⟨hbefore, hserved⟩ := mem_recordServedRow (k := z.key) hall
    simp only [PriceDrain.judgesStale, Bool.and_eq_true, decide_eq_true_eq, hserved,
      not_or] at hstale
    obtain ⟨hle, hne, hunserved⟩ := hstale
    rcases List.mem_cons.mp hdelivered with hv | hdelivered
    · exact hne (by rw [hk, (h.hub y hy).1, hv, hkey])
    · -- what is still to be removed was to be removed before
      rcases hlater.rows z hz with ⟨w, hw, hid, hwk⟩ | hnew
      · refine h.spared y hy hdelivered w ?_ (hwk.trans hk)
        refine (mem_pendingRemoval_draining hp).mpr ⟨hshort, hbefore, hw, ?_, ?_⟩
        · simp only [PriceDrain.judgesStale, Bool.and_eq_true, decide_eq_true_eq]
          exact ⟨hid ▸ hle, hwk ▸ hunserved⟩
        · rw [hpending, List.map_cons, List.mem_cons, not_or, hwk]
          exact ⟨hne, hleft⟩
      · exact absurd (hle.trans_lt hdrain.mark) hnew.not_gt
  · exact hdrain.mark.trans_le hlater.nextId
  · exact fun p hpp =>
      ⟨hfirst p hpp, (hdrain.pending p (by rw [hpending]; exact List.mem_cons_of_mem _ hpp)).2⟩
  · have hreached := hdrain.reached
    rwa [hsplit] at hreached
  · intro hall y hy hle
    obtain ⟨hbefore, hserved⟩ := mem_recordServedRow (k := y.key) hall
    have hread := hdrain.covered hbefore y hy (by rw [hsplit]; exact hle)
    rw [hpending, List.map_cons, List.mem_cons] at hread
    rw [hserved]
    rcases hread with hread | hread | hread
    · exact .inl (.inr hread)
    · exact .inl (.inl hread)
    · exact .inr hread

/-- The ids found stand for the rows that were going to be removed. -/
theorem Inv.reconcile (h : Inv s) (hp : s.pass = .draining drain) (hnil : drain.pending = [])
    (hshort : drain.shortPage = true) :
    Inv { s with pass := .removing (reconcileRetractedOracleRows s.mirror drain) } := by
  have hfound : ∀ i ∈ reconcileRetractedOracleRows s.mirror drain,
      ∃ x ∈ pendingRemoval s, x.id = i := by
    intro i hi
    unfold reconcileRetractedOracleRows at hi
    simp only at hi
    split_ifs at hi with hskip hrefused
    · cases hi
    · cases hi
    · obtain ⟨x, hx, rfl⟩ := List.mem_map.mp hi
      obtain ⟨hx, hstale⟩ := List.mem_filter.mp hx
      have hall : drain.oracleKeysComplete = true := by
        simp only [Bool.or_eq_true, not_or, Bool.not_eq_true, Bool.not_eq_false'] at hskip
        exact hskip.2
      refine ⟨x, ?_, rfl⟩
      exact (mem_pendingRemoval_draining hp).mpr ⟨hshort, hall, hx, hstale, by simp [hnil]⟩
  have hmirror : ∀ x ∈ pendingRemoval s, x ∈ s.mirror := fun x hx =>
    ((mem_pendingRemoval_draining hp).mp hx).2.2.1
  refine h.of_pass (fun i hi => ?_) fun x hx hdelivered y hy => ?_
  · obtain ⟨x, hx, rfl⟩ := hfound i hi
    exact s.mirror.ids_lt x (hmirror x hx)
  · obtain ⟨hy, hstale⟩ := (mem_pendingRemoval_removing rfl).mp hy
    obtain ⟨z, hz, hid⟩ := hfound y.id hstale
    obtain rfl := UniqueTable.eq_of_id_eq (hmirror z hz) hy hid
    exact h.spared x hx hdelivered z hz

theorem Inv.remove (h : Inv s) {stale : List ℕ} (hp : s.pass = .removing stale) :
    Inv { s with
      mirror := s.mirror.delete fun x => x.id ∈ stale.take REMOVAL_CHUNK
      pass := .removing (stale.drop REMOVAL_CHUNK) } where
  hub := h.hub
  fences := h.fences
  mirror x hx := h.mirror x (UniqueTable.mem_delete.mp hx).1
  delivered := h.delivered
  held x hx hdelivered := by
    obtain ⟨y, hy, hk, hle⟩ := h.held x hx hdelivered
    refine ⟨y, UniqueTable.mem_delete.mpr ⟨hy, ?_⟩, hk, hle⟩
    by_contra hchunk
    have hstale : y.id ∈ stale := List.mem_of_mem_take (by simpa using hchunk)
    exact h.spared x hx hdelivered y ((mem_pendingRemoval_removing hp).mpr ⟨hy, hstale⟩) hk
  spared x hx hdelivered y hy := by
    obtain ⟨hy, hstale⟩ := (mem_pendingRemoval_removing rfl).mp hy
    refine h.spared x hx hdelivered y ((mem_pendingRemoval_removing hp).mpr ?_)
    exact ⟨(UniqueTable.mem_delete.mp hy).1, List.mem_of_mem_drop hstale⟩
  pass := by
    have hold : ∀ i ∈ stale, i < s.mirror.nextId := by simpa [PassInv, hp] using h.pass
    exact fun i hi => hold i (List.mem_of_mem_drop hi)

theorem Inv.idle (h : Inv s) : Inv { s with pass := .idle } :=
  h.of_pass trivial fun _ _ _ _ hy => absurd hy List.not_mem_nil

theorem Inv.step {cols : List Column} (hcols : Column.push_generation ∈ cols) {label : Label}
    (h : Inv s) (hc : NotShutOut s label) (hs : step cols s label = some t) : Inv t := by
  cases label with
  | publish row =>
    simp only [Oracle.step] at hs
    split_ifs at hs with hnew
    cases hs
    exact h.publish hnew
  | retract chain range =>
    cases hs
    exact h.retract chain range
  | live version =>
    obtain ⟨row, hrow, rfl⟩ := Option.map_eq_some_iff.mp hs
    exact h.live hcols hrow hc
  | liveRetraction retraction =>
    obtain ⟨e, he, rfl⟩ := Option.map_eq_some_iff.mp hs
    exact h.liveRetraction (List.mem_of_getElem? he)
  | openDrain readable =>
    simp only [Oracle.step] at hs
    split at hs
    · cases hs
      exact h.openDrain readable
    · cases hs
  | page =>
    simp only [Oracle.step] at hs
    split at hs
    case h_1 drain hp =>
      split_ifs at hs with hready
      cases hs
      have hnil : drain.pending = [] := by simpa using (Bool.and_eq_true_iff.mp hready).1
      exact h.readPage hp hnil drain.caughtUp
    · cases hs
  | row =>
    simp only [Oracle.step] at hs
    split at hs
    case h_1 drain hp =>
      split at hs
      case h_1 x pending hpending =>
        cases hs
        exact h.row hcols hp hpending
      · cases hs
    · cases hs
  | catchUp =>
    simp only [Oracle.step] at hs
    split at hs
    case h_1 drain hp =>
      split_ifs at hs with hready
      cases hs
      have hnil : drain.pending = [] := by
        simpa using (Bool.and_eq_true_iff.mp (Bool.and_eq_true_iff.mp hready).1).1
      exact h.readPage hp hnil true
    · cases hs
  | reconcile =>
    simp only [Oracle.step] at hs
    split at hs
    case h_1 drain hp =>
      split_ifs at hs with hready
      cases hs
      obtain ⟨hnil, hshort⟩ := Bool.and_eq_true_iff.mp hready
      exact h.reconcile hp (by simpa using hnil) hshort
    · cases hs
  | remove =>
    simp only [Oracle.step] at hs
    split at hs
    case h_1 stale hp =>
      split_ifs at hs
      · cases hs
        exact h.idle
      · cases hs
        exact h.remove hp
    · cases hs
  | abort =>
    simp only [Oracle.step] at hs
    split at hs
    · cases hs
    · cases hs
      exact h.idle

end steps

/-! ### What the hub holds -/

/-- A hub and any mirror, with no drain under way and nothing delivered yet. -/
structure Opened (s : State) : Prop where
  hub : ∀ h ∈ s.hub, h.key = oraclePriceKey h.value ∧ h.value ∈ s.versions
  fences : ∀ h ∈ s.hub, ∀ e ∈ s.retractions, retracts .oracle_prices e.1 e.2 h.value = false
  mirror : ∀ x ∈ s.mirror, x.key = oraclePriceKey x.value
  delivered : s.delivered = []
  pass : s.pass = .idle

theorem Opened.inv {s : State} (h : Opened s) : Inv s where
  hub := h.hub
  fences := h.fences
  mirror := h.mirror
  delivered := by simp [h.delivered]
  held := by simp [h.delivered]
  spared := by simp [h.delivered]
  pass := by
    unfold PassInv
    rw [h.pass]
    trivial

/-- In a run in which no live publication of a row the hub holds is shut out by the pass, every row
    of the hub that was delivered has its key in the mirror. -/
theorem delivered_prices_held {cols : List Column} (hcols : Column.push_generation ∈ cols)
    {s t : State} {labels : List Label} (hs : Opened s)
    (hm : Runs.Meets (step cols) NotShutOut s labels)
    (hr : Runs.run (step cols) s labels = some t) :
    ∀ h ∈ t.hub, h.value ∈ t.delivered → t.mirror.Occupied h.key := by
  have hinv : Inv t := Runs.run_inv (fun _ _ _ => Inv.step hcols) hs.inv hm hr
  intro h hh hdelivered
  obtain ⟨x, hx, hk, -⟩ := hinv.held h hh hdelivered
  exact ⟨x, hx, hk⟩

/-- A hub of one price, and a mirror that has it. -/
def onePrice : State where
  hub := UniqueTable.empty.insertIgnore ("", 0) (oraclePrice 1)
  versions := [oraclePrice 1]
  retractions := []
  mirror := UniqueTable.empty.insertIgnore ("", 0) (oraclePrice 1)
  delivered := []
  pass := .idle

theorem onePrice_opened : Opened onePrice := by
  have hone : ∀ x ∈ (UniqueTable.empty.insertIgnore ("", 0) (oraclePrice 1) : PriceTable),
      x.key = oraclePriceKey x.value ∧ x.value = oraclePrice 1 := by
    intro x hx
    rcases UniqueTable.mem_insertIgnore.mp hx with hx | ⟨-, rfl⟩
    · exact absurd hx List.not_mem_nil
    · exact ⟨rfl, rfl⟩
  refine ⟨fun x hx => ?_, fun x _ e he => absurd he List.not_mem_nil, fun x hx => (hone x hx).1,
    rfl, rfl⟩
  exact ⟨(hone x hx).1, List.mem_singleton.mpr (hone x hx).2⟩

/-- The mirror misses the retraction. -/
def missedRetraction : List Label := [.retract "" ⟨0, none, some 1⟩, .openDrain true]

theorem delivered_prices_held_before_page : ∃ t, Runs.run (step [.push_generation]) onePrice
    (missedRetraction ++ [.publish (oraclePrice 2), .live 1, .page, .row, .reconcile, .remove]) =
      some t ∧ ∃ h ∈ t.hub, h.value ∈ t.delivered ∧ t.mirror.Occupied h.key := by
  obtain ⟨t, hr, hhub, hdelivered⟩ : ∃ t, Runs.run (step [.push_generation]) onePrice
      (missedRetraction ++ [.publish (oraclePrice 2), .live 1, .page, .row, .reconcile, .remove]) =
        some t ∧ t.hub.rows = [⟨2, ("", 0), oraclePrice 2⟩] ∧
        t.delivered = [oraclePrice 2, oraclePrice 2] := ⟨_, rfl, rfl, rfl⟩
  have hh : (⟨2, ("", 0), oraclePrice 2⟩ : PriceRow) ∈ t.hub := by
    rw [UniqueTable.mem_def, hhub]
    exact List.mem_singleton_self _
  have hgiven : oraclePrice 2 ∈ t.delivered := by simp [hdelivered]
  exact ⟨t, hr, _, hh, hgiven,
    delivered_prices_held (by decide) onePrice_opened (by decide +kernel) hr _ hh hgiven⟩

/-- The publication comes in behind the page, and the row it updated in place is removed. -/
theorem not_delivered_prices_held :
    ¬ ∀ (cols : List Column) (s t : State) (labels : List Label), Column.push_generation ∈ cols →
      Opened s → Runs.run (step cols) s labels = some t →
      ∀ h ∈ t.hub, h.value ∈ t.delivered → t.mirror.Occupied h.key := by
  intro hclaim
  obtain ⟨t, hr, hhub, hdelivered, hmirror⟩ : ∃ t, Runs.run (step [.push_generation]) onePrice
      (missedRetraction ++ [.page, .publish (oraclePrice 2), .live 1, .reconcile, .remove]) =
        some t ∧ t.hub.rows = [⟨2, ("", 0), oraclePrice 2⟩] ∧ t.delivered = [oraclePrice 2] ∧
        t.mirror.rows = [] := ⟨_, rfl, rfl, rfl, rfl⟩
  have hheld := hclaim _ _ _ _ (by decide) onePrice_opened hr ⟨2, ("", 0), oraclePrice 2⟩
    (by rw [UniqueTable.mem_def, hhub]; exact List.mem_singleton_self _)
    (by rw [hdelivered]; exact List.mem_singleton_self _)
  obtain ⟨x, hx, -⟩ := hheld
  rw [UniqueTable.mem_def, hmirror] at hx
  cases hx

end HubDbSync.Oracle
