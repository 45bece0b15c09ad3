import XChainExplorer.Lib.JsonTree
import XChainExplorer.Lib.Runs
import Mathlib.Data.List.AList
import Mathlib.Logic.Function.Basic
import Mathlib.Order.Basic

/-! # The connector's poll of the hub configuration

    `getAllConfig` and what it calls, one poll at a time, over several hubs. A hub stamps a row with the
    second it applied it in, never deletes one, reads its watermark before its rows, and counts the second
    of the cursor in or not by its build. Hubs write, restart from a snapshot and answer in any order; a
    request may be tried at any endpoint. What the poll returns is the table the answering hub held. -/

namespace HubConfig
open JsonTree Runs

/-! ### The connector -/

/-- The keys that would reach an object's prototype. -/
def PROTOTYPE_KEYS : List String := ["__proto__", "constructor", "prototype"]

/-- A key that may be merged. -/
def safeConfigKey (key : String) : Bool := !PROTOTYPE_KEYS.contains key

/-- Coin, network and module over the params. -/
def mergeConfigDelta (base delta : Fields) : Fields := overlay safeConfigKey 3 base (.obj delta)

/-- The bodies of an answer, in the order the code tells them apart. -/
inductive Reply where
  | degraded
  | errorEnvelope
  | wrapped (configs : Fields) (seq : ℕ) (watermark : Option ℕ)
  | bare (configs : Fields)

/-- The hub has no answer to give. -/
def Reply.isDegraded : Reply → Bool
  | .degraded => true
  | _ => false

/-- A reply that holds a tree. -/
def Reply.isUsableConfigResult : Reply → Bool
  | .degraded | .errorEnvelope => false
  | _ => true

/-- What the connector keeps between its polls: the merged tree, and the watermark, sequence and
    endpoint it came from. -/
structure Connector where
  lastGoodIdx : ℕ := 0
  configs : Option Fields := none
  lastWatermark : ℕ := 0
  lastSeq : ℕ := 0
  watermarkEndpointIdx : Option ℕ := none

/-- The hub is behind what was seen of it: a restore. A watermark of 0 does not count. -/
def Connector.hubConfigRegressed (c : Connector) : Reply → Bool
  | .wrapped _ seq (some watermark) =>
    (0 < watermark && watermark < c.lastWatermark) || (0 < c.lastSeq && seq < c.lastSeq)
  | _ => false

/-- The reply over what is kept: a delta is merged, a full tree replaces. -/
def Connector.applyConfigResult (c : Connector) : Reply → Connector
  | .wrapped payload seq (some watermark) =>
    let configs := match c.configs with
      | some base => if 0 < c.lastWatermark then mergeConfigDelta base payload else payload
      | none => payload
    { c with lastSeq := seq, lastWatermark := watermark, configs := some configs }
  | .wrapped payload seq none => { c with lastSeq := seq, lastWatermark := 0, configs := some payload }
  | .bare payload => { c with lastSeq := 0, lastWatermark := 0, configs := some payload }
  | _ => c

/-- Which request of a poll is under way. -/
inductive Phase where
  | first
  | failover
  | regression
  deriving DecidableEq

/-- What the code holds across an await. -/
structure Poll where
  phase : Phase
  cursorEndpoint : Option ℕ
  sentCursor : ℕ
  cursor : ℕ

/-- The poll asks again from 0, or returns. -/
inductive Next where
  | ask (phase : Phase)
  | done (configs : Option Fields)

/-- The cursor dropped, so that the next request asks for everything. -/
def Connector.forget (c : Connector) : Connector := { c with lastWatermark := 0, configs := none }

/-- The end of a poll with a reply that counts. -/
def Connector.finish (c : Connector) (r : Reply) : Connector × Next :=
  let c' := c.applyConfigResult r
  ({ c' with watermarkEndpointIdx := some c'.lastGoodIdx }, .done c'.configs)

/-- What a reply to the last request of a poll leads to. -/
def Connector.settle (c : Connector) (r : Reply) : Connector × Next :=
  if !r.isUsableConfigResult then (c, .done none)
  else if 0 < c.lastWatermark && c.configs.isSome && c.hubConfigRegressed r then (c.forget, .ask .regression)
  else c.finish r

/-- The code after a request's await; no reply where every endpoint failed. -/
def Connector.receive (c : Connector) (p : Poll) : Option Reply → Connector × Next
  | none => (c, .done none)
  | some r => match p.phase with
    | .first =>
      if 0 < p.sentCursor && decide (some c.lastGoodIdx ≠ p.cursorEndpoint) && !r.isDegraded then
        (c.forget, .ask .failover)
      else c.settle r
    | .failover => c.settle r
    | .regression => if !r.isUsableConfigResult then (c, .done none) else c.finish r

/-- The first request of a poll, from one second before the watermark. -/
def Connector.getAllConfig (c : Connector) : Poll :=
  ⟨.first, c.watermarkEndpointIdx, c.lastWatermark, if 0 < c.lastWatermark then c.lastWatermark - 1 else 0⟩

/-! ### The hubs -/

/-- The path of a value in the tree. -/
structure Key where
  coin : String
  network : String
  module : String
  param : String
  deriving DecidableEq

/-- It as a list of keys. -/
def Key.path (k : Key) : List String := [k.coin, k.network, k.module, k.param]

/-- A value and the second of its last write. -/
structure Stamped where
  value : String
  updatedAt : ℕ
  deriving DecidableEq

/-- A row of the hub's table. -/
abbrev Row := Σ _ : Key, Stamped

/-- The configs table: one row for each key. -/
abbrev Table := AList fun _ : Key => Stamped

/-- The tree of one row. -/
def rowTree (r : Row) : Json :=
  .obj [(r.1.coin, .obj [(r.1.network, .obj [(r.1.module, .obj [(r.1.param, .leaf r.2.value)])])])]

/-- The tree of a table: its rows laid over one another. -/
def treeOf : List Row → Fields
  | [] => []
  | r :: rows => overlay (fun _ => true) 3 (treeOf rows) (rowTree r)

/-- `epoch` counts restores; nothing reads it. -/
structure Hub where
  rows : Table := ∅
  clock : ℕ := 0
  seq : ℕ := 0
  epoch : ℕ := 0

/-- The newest stamp of the table, 0 for an empty one. -/
def Hub.watermark (h : Hub) : ℕ := (h.rows.entries.map (·.2.updatedAt)).foldr max 0

/-- A write stamps the row with the hub's clock. -/
def Hub.write (h : Hub) (k : Key) (value : String) : Hub :=
  { h with rows := h.rows.insert k ⟨value, h.clock⟩, seq := h.seq + 1 }

/-- How a build answers: with a watermark, the cursor's second counted in or not; or with the full tree. -/
inductive Build where
  | inclusive
  | exclusive
  | unmarked
  | bare

/-- The answer of a hub to a cursor, by what the hub runs. -/
def answerOf (rows : Table) (cursor seq watermark : ℕ) : Build → Reply
  | .inclusive => .wrapped (treeOf (rows.entries.filter (cursor ≤ ·.2.updatedAt))) seq (some watermark)
  | .exclusive =>
    .wrapped (treeOf (rows.entries.filter fun r => cursor = 0 || cursor < r.2.updatedAt)) seq (some watermark)
  | .unmarked => .wrapped (treeOf rows.entries) seq none
  | .bare => .bare (treeOf rows.entries)

/-! ### Polls among writes, restores and failovers -/

/-- A request at a hub: it has read its watermark; or its rows too, and the answer is on its way. -/
inductive Request where
  | idle
  | read (hub watermark seq : ℕ)
  | answered (hub : ℕ) (reply : Reply) (rows : Table) (epoch : ℕ)

/-- `cursorEpoch` and `served` (the last tree returned, and the rows its hub held as it read them) are read
    by nothing. -/
structure World where
  hubs : ℕ → Hub
  connector : Connector := {}
  poll : Option Poll := none
  request : Request := .idle
  cursorEpoch : ℕ := 0
  served : Option (Fields × Table) := none

/-- A step of the world: the hubs' own, the connector's, or a message between them. -/
inductive Label where
  | write (hub : ℕ) (key : Key) (value : String)
  | tick (hub seconds : ℕ)
  | commit (hub : ℕ)
  | restore (hub : ℕ) (rows : Table) (seq : ℕ)
  | getAllConfig
  /-- A request reaches a hub, the first one or after others failed. -/
  | readWatermark (hub : ℕ)
  | readRows (build : Build)
  | deliver
  /-- An unhealthy answer, with a hub where it came as a result. -/
  | degraded (hub : Option ℕ)
  | errorEnvelope (hub : ℕ)
  | unreachable

/-- One hub replaced. -/
def World.setHub (w : World) (i : ℕ) (h : Hub) : World := { w with hubs := Function.update w.hubs i h }

/-- The connector takes a reply, or the lack of one. -/
def World.receive (w : World) (p : Poll) (reply : Option Reply) (rows : Table) (epoch : ℕ) : World :=
  match w.connector.receive p reply with
  | (c, .ask phase) => { w with connector := c, poll := some { p with phase := phase, cursor := 0 }, request := .idle }
  | (c, .done (some tree)) =>
    { w with connector := c, poll := none, request := .idle, cursorEpoch := epoch, served := some (tree, rows) }
  | (c, .done none) => { w with connector := c, poll := none, request := .idle }

/-- The endpoint that answered is asked first from then on. -/
def World.answeredBy (w : World) (i : ℕ) : World := { w with connector := { w.connector with lastGoodIdx := i } }

/-- A step of the world, if it can be taken. -/
def step (w : World) : Label → Option World
  | .write i k value => some (w.setHub i ((w.hubs i).write k value))
  | .tick i seconds => some (w.setHub i { w.hubs i with clock := (w.hubs i).clock + seconds })
  | .commit i => some (w.setHub i { w.hubs i with seq := (w.hubs i).seq + 1 })
  | .restore i rows seq =>
    if ∀ r ∈ rows.entries, r.2.updatedAt ≤ (w.hubs i).clock then
      some (w.setHub i { w.hubs i with rows := rows, seq := seq, epoch := (w.hubs i).epoch + 1 })
    else none
  | .getAllConfig => match w.poll with
    | none => some { w with poll := some w.connector.getAllConfig, request := .idle }
    | some _ => none
  | .readWatermark i => w.poll.map fun _ => { w with request := .read i (w.hubs i).watermark (w.hubs i).seq }
  | .readRows build => match w.poll, w.request with
    | some p, .read i watermark seq => some { w with
        request := .answered i (answerOf (w.hubs i).rows p.cursor seq watermark build) (w.hubs i).rows (w.hubs i).epoch }
    | _, _ => none
  | .deliver => match w.poll, w.request with
    | some p, .answered i reply rows epoch => some ((w.answeredBy i).receive p (some reply) rows epoch)
    | _, _ => none
  | .degraded i => w.poll.map fun p => (match i with
      | some i => w.answeredBy i
      | none => w).receive p (some .degraded) ∅ 0
  | .errorEnvelope i => w.poll.map fun p => (w.answeredBy i).receive p (some .errorEnvelope) ∅ 0
  | .unreachable => w.poll.map fun p => w.receive p none ∅ 0

/-- A hub that was restored since the cursor was taken shows it by a lower sequence or watermark, which is
    what the code can see of it. -/
def restoreShows (w : World) (e : Label) : Bool :=
  match e, w.request with
  | .deliver, .answered i (.wrapped configs seq (some watermark)) _ epoch =>
    decide (w.connector.watermarkEndpointIdx ≠ some i) || decide (w.connector.lastWatermark = 0) ||
      decide (epoch = w.cursorEpoch) || w.connector.hubConfigRegressed (.wrapped configs seq (some watermark))
  | _, _ => true

/-! ### What trees and tables have in common -/

/-- No key of the path is refused. -/
def Key.Safe (k : Key) : Prop := ∀ key ∈ k.path, safeConfigKey key = true

instance (k : Key) : Decidable k.Safe := inferInstanceAs (Decidable (∀ key ∈ k.path, _))

/-- The value that a tree shows at a key. -/
def shown (tree : Fields) (k : Key) : Option Json := value (.obj tree) k.path

/-- The value that a table holds at a key. -/
def held (rows : Table) (k : Key) : Option Json := (rows.lookup k).map (.leaf ·.value)

/-- The tree is the table. -/
def Shows (tree : Fields) (rows : Table) : Prop := ∀ k : Key, k.Safe → shown tree k = held rows k

/-- The tree is the table but for rows stamped at or after the bound. -/
def AgreesBelow (bound : ℕ) (tree : Fields) (rows : Table) : Prop :=
  ∀ k : Key, k.Safe → shown tree k = held rows k ∨ ∃ s, rows.lookup k = some s ∧ bound ≤ s.updatedAt

/-- The tree has the table's rows, some of those stamped before the bound left out. -/
def CarriesFrom (bound : ℕ) (tree : Fields) (rows : Table) : Prop :=
  ∀ k : Key, shown tree k = held rows k ∨
    shown tree k = none ∧ ∃ s, rows.lookup k = some s ∧ s.updatedAt < bound

/-- A table's later self: rows that changed are stamped at or after the bound. -/
def GrownSince (bound : ℕ) (rows later : Table) : Prop :=
  ∀ k : Key, later.lookup k = rows.lookup k ∨ ∃ s, later.lookup k = some s ∧ bound ≤ s.updatedAt

variable {tree base delta : Fields} {rows later : Table} {bound bound' cursor : ℕ} {k : Key}

theorem value_rowTree (r : Row) (k : Key) :
    value (rowTree r) k.path = if r.1 = k then some (.leaf r.2.value) else none := by
  obtain ⟨⟨c, n, m, p⟩, s⟩ := r
  obtain ⟨c', n', m', p'⟩ := k
  rw [rowTree, Key.path]
  simp only [value_single, Key.mk.injEq, ← ite_and]
  rfl

theorem shown_treeOf (rows : List Row) (k : Key) :
    shown (treeOf rows) k = (rows.dlookup k).map (.leaf ·.value) := by
  induction rows with
  | nil => rfl
  | cons r rows ih =>
    obtain ⟨k', s⟩ := r
    have hover : value (.obj (overlay (fun _ => true) 3 (treeOf rows) (rowTree ⟨k', s⟩))) k.path =
        (value (rowTree ⟨k', s⟩) k.path).or (value (.obj (treeOf rows)) k.path) :=
      value_overlay (fun _ _ => rfl) rfl _ _
    rw [shown, treeOf, hover, value_rowTree]
    by_cases h : k' = k
    · subst h
      rw [if_pos rfl, List.dlookup_cons_eq]
      rfl
    · rw [if_neg h, List.dlookup_cons_ne _ _ (Ne.symm h), Option.none_or]
      exact ih

theorem shown_treeOf_filter (rows : Table) (p : Row → Bool) (k : Key) :
    shown (treeOf (rows.entries.filter p)) k =
      ((rows.lookup k).filter fun s => p ⟨k, s⟩).map (.leaf ·.value) := by
  have hnodup : (rows.entries.filter p).NodupKeys := rows.nodupKeys.sublist List.filter_sublist
  rw [shown_treeOf]
  congr 1
  ext s
  rw [← Option.mem_def, ← Option.mem_def, List.mem_dlookup_iff hnodup, List.mem_filter, ← AList.mem_lookup_iff]
  simp [Option.mem_def, Option.filter_eq_some_iff]

theorem carries_filter {p : Row → Bool} (hp : ∀ r : Row, p r = false → r.2.updatedAt < bound) :
    CarriesFrom bound (treeOf (rows.entries.filter p)) rows := by
  intro k
  rw [shown_treeOf_filter, held]
  cases hk : rows.lookup k with
  | none => exact Or.inl rfl
  | some s =>
    cases hs : p ⟨k, s⟩ with
    | true => exact Or.inl (by simp [hs])
    | false => exact Or.inr ⟨by simp [hs], s, rfl, hp _ hs⟩

theorem CarriesFrom.shows (h : CarriesFrom 0 tree rows) : Shows tree rows := by
  intro k _
  rcases h k with hk | ⟨-, s, -, hs⟩
  · exact hk
  · exact absurd hs (Nat.not_lt_zero _)

theorem shows_treeOf (rows : Table) : Shows (treeOf rows.entries) rows := fun k _ => shown_treeOf _ k

/-- A cursor one second behind the bound loses no row stamped at or after it, with either build. -/
theorem answerOf_marked {seq watermark seq' watermark' : ℕ} {build : Build}
    (h : answerOf rows (bound - 1) seq watermark build = .wrapped tree seq' (some watermark')) :
    CarriesFrom bound tree rows ∧ watermark' = watermark := by
  cases build with
  | inclusive =>
    injection h with ht _ hw
    refine ⟨ht ▸ carries_filter fun r hr => ?_, (Option.some.inj hw).symm⟩
    have := of_decide_eq_false hr
    omega
  | exclusive =>
    injection h with ht _ hw
    refine ⟨ht ▸ carries_filter fun r hr => ?_, (Option.some.inj hw).symm⟩
    simp only [Bool.or_eq_false_iff, decide_eq_false_iff_not] at hr
    omega
  | unmarked => injection h with _ _ hw; cases hw
  | bare => cases h

/-- Folding in what was asked for since the bound makes a tree that agreed below it the table. -/
theorem shows_merge (hdelta : CarriesFrom bound delta rows) (hbase : AgreesBelow bound base rows) :
    Shows (mergeConfigDelta base delta) rows := by
  intro k hk
  have hover : shown (mergeConfigDelta base delta) k = (shown delta k).or (shown base k) :=
    value_overlay hk rfl base (.obj delta)
  rw [hover]
  rcases hdelta k with hshown | ⟨hnone, s, hs, hlt⟩
  · rw [hshown, held]
    rcases hbase k hk with hsame | ⟨s, hs, -⟩
    · rw [hsame, held, Option.or_self]
    · rw [hs]
      rfl
  · rw [hnone, Option.none_or]
    refine (hbase k hk).resolve_right ?_
    rintro ⟨s', hs', hle⟩
    obtain rfl := Option.some.inj (hs.symm.trans hs')
    omega

theorem GrownSince.refl (bound : ℕ) (rows : Table) : GrownSince bound rows rows := fun _ => Or.inl rfl

theorem GrownSince.mono (h : GrownSince bound' rows later) (hle : bound ≤ bound') : GrownSince bound rows later :=
  fun k => (h k).imp_right fun ⟨s, hs, hb⟩ => ⟨s, hs, Nat.le_trans hle hb⟩

theorem GrownSince.trans {last : Table} (h : GrownSince bound rows later) (hlater : GrownSince bound later last) :
    GrownSince bound rows last := by
  intro k
  rcases hlater k with hsame | hs
  · rw [hsame]
    exact h k
  · exact Or.inr hs

theorem Shows.agrees (h : Shows tree rows) (hgrown : GrownSince bound rows later) : AgreesBelow bound tree later := by
  intro k hk
  rcases hgrown k with hsame | hs
  · rw [held, hsame]
    exact Or.inl (h k hk)
  · exact Or.inr hs

theorem AgreesBelow.grown (h : AgreesBelow bound tree rows) (hgrown : GrownSince bound rows later) :
    AgreesBelow bound tree later := by
  intro k hk
  rcases hgrown k with hsame | hs
  · rw [held, hsame]
    exact h k hk
  · exact Or.inr hs

/-! ### What a step does -/

variable {w w' : World} {e : Label} {c : Connector} {p : Poll} {r : Option Reply} {reply : Reply} {i epoch : ℕ}

/-- The poll asks again in full, gives up, or takes the answer: that of the cursor's endpoint where it sent
    a cursor, with nothing lower than before. -/
theorem receive_cases (c : Connector) (p : Poll) (r : Option Reply) :
    (∃ phase, phase ≠ .first ∧ c.receive p r = (c.forget, .ask phase)) ∨ c.receive p r = (c, .done none) ∨
      ∃ reply, r = some reply ∧ reply.isUsableConfigResult = true ∧ c.receive p r = c.finish reply ∧
        (p.phase = .first → 0 < p.sentCursor → p.cursorEndpoint = some c.lastGoodIdx) ∧
        (p.phase = .first → 0 < c.lastWatermark → c.configs.isSome → c.hubConfigRegressed reply = false) := by
  cases r with
  | none => exact Or.inr (Or.inl rfl)
  | some reply =>
    have hsettle : c.settle reply = (c, .done none) ∨ c.settle reply = (c.forget, .ask .regression) ∨
        reply.isUsableConfigResult = true ∧ c.settle reply = c.finish reply ∧
          (0 < c.lastWatermark → c.configs.isSome → c.hubConfigRegressed reply = false) := by
      rw [Connector.settle]
      split_ifs with hu hr
      · exact Or.inl rfl
      · exact Or.inr (Or.inl rfl)
      · refine Or.inr (Or.inr ⟨by simpa using hu, rfl, fun hw hc => ?_⟩)
        simpa [hw, hc] using hr
    rw [Connector.receive]
    cases hp : p.phase with
    | first =>
      dsimp only
      split_ifs with hcond
      · exact Or.inl ⟨.failover, by decide, rfl⟩
      rcases hsettle with h | h | ⟨hu, h, hseen⟩
      · exact Or.inr (Or.inl h)
      · exact Or.inl ⟨.regression, by decide, h⟩
      · refine Or.inr (Or.inr ⟨reply, rfl, hu, h, fun _ hsent => ?_, fun _ => hseen⟩)
        have hd : reply.isDegraded = false := by cases reply <;> first | rfl | cases hu
        simp only [hsent, hd, decide_true, Bool.true_and, Bool.not_false, Bool.and_true, decide_eq_true_eq,
          not_not] at hcond
        exact hcond.symm
    | failover =>
      dsimp only
      rcases hsettle with h | h | ⟨hu, h, -⟩
      · exact Or.inr (Or.inl h)
      · exact Or.inl ⟨.regression, by decide, h⟩
      · exact Or.inr (Or.inr ⟨reply, rfl, hu, h, nofun, nofun⟩)
    | regression =>
      dsimp only
      split_ifs with hu
      · exact Or.inr (Or.inl rfl)
      · exact Or.inr (Or.inr ⟨reply, rfl, by simpa using hu, rfl, nofun, nofun⟩)

/-- A hub's later self: no clock runs back, and what changed without a restore is stamped. -/
structure Hub.Later (h h' : Hub) : Prop where
  clock : h.clock ≤ h'.clock
  epoch : h.epoch ≤ h'.epoch
  stamped : ∀ r ∈ h'.rows.entries, r.2.updatedAt ≤ h'.clock
  grown : h'.epoch = h.epoch → GrownSince h.clock h.rows h'.rows

variable {h h' : Hub}

theorem later_refl (hstamped : ∀ r ∈ h.rows.entries, r.2.updatedAt ≤ h.clock) : h.Later h :=
  ⟨le_rfl, le_rfl, hstamped, fun _ => GrownSince.refl _ _⟩

theorem later_write (hstamped : ∀ r ∈ h.rows.entries, r.2.updatedAt ≤ h.clock) (k : Key) (v : String) :
    h.Later (h.write k v) where
  clock := le_rfl
  epoch := le_rfl
  stamped r hr := by
    rw [Hub.write, AList.entries_insert, List.mem_cons] at hr
    rcases hr with rfl | hr
    · exact le_rfl
    · exact hstamped r ((List.kerase_sublist _ _).subset hr)
  grown _ k' := by
    rcases eq_or_ne k' k with rfl | hne
    · exact Or.inr ⟨_, AList.lookup_insert _, le_rfl⟩
    · exact Or.inl (AList.lookup_insert_ne hne)

theorem watermark_le (hstamped : ∀ r ∈ h.rows.entries, r.2.updatedAt ≤ h.clock) : h.watermark ≤ h.clock := by
  rw [Hub.watermark]
  generalize h.rows.entries = rows at hstamped
  induction rows with
  | nil => exact Nat.zero_le _
  | cons r rows ih =>
    rw [List.forall_mem_cons] at hstamped
    exact max_le hstamped.1 (ih hstamped.2)

/-- An answer on its way: what it carries of the rows its hub held as it read them, what the hub can have
    written since, and how the connector's tree fits those rows. -/
structure Answer (c : Connector) (h : Hub) (cursorEpoch i : ℕ) (reply : Reply) (rows : Table) (epoch : ℕ) : Prop where
  carries : match reply with
    | .wrapped tree _ (some _) => CarriesFrom c.lastWatermark tree rows
    | .wrapped tree _ none | .bare tree => Shows tree rows
    | _ => True
  marked : ∀ {tree seq watermark}, reply = .wrapped tree seq (some watermark) →
    watermark ≤ h.clock ∧ (h.epoch = epoch → GrownSince watermark rows h.rows)
  epoch_le : epoch ≤ h.epoch
  cursor : 0 < c.lastWatermark → c.watermarkEndpointIdx = some i → epoch = cursorEpoch →
    ∀ base, c.configs = some base → AgreesBelow c.lastWatermark base rows

theorem Answer.grow {cursorEpoch : ℕ} (ha : Answer c h cursorEpoch i reply rows epoch) (hl : h.Later h') :
    Answer c h' cursorEpoch i reply rows epoch where
  carries := ha.carries
  marked hreply := by
    obtain ⟨hle, hgrown⟩ := ha.marked hreply
    refine ⟨hle.trans hl.clock, fun hepoch => ?_⟩
    have hsame : h'.epoch = h.epoch := le_antisymm (hepoch.trans_le ha.epoch_le) hl.epoch
    exact (hgrown (hsame.symm.trans hepoch)).trans ((hl.grown hsame).mono hle)
  epoch_le := ha.epoch_le.trans hl.epoch
  cursor := ha.cursor

/-- What a usable answer leaves: its hub's rows, and a cursor no later write is stamped before. -/
theorem finish_spec {cursorEpoch : ℕ} (ha : Answer c h cursorEpoch c.lastGoodIdx reply rows epoch)
    (husable : reply.isUsableConfigResult = true) (hcached : 0 < c.lastWatermark → c.configs.isSome)
    (hfits : ∀ {tree seq watermark}, reply = .wrapped tree seq (some watermark) → 0 < c.lastWatermark →
      c.watermarkEndpointIdx = some c.lastGoodIdx ∧ epoch = cursorEpoch) :
    ∃ c' tree, c.finish reply = (c', .done (some tree)) ∧ Shows tree rows ∧ c'.configs = some tree ∧
      c'.watermarkEndpointIdx = some c.lastGoodIdx ∧ (0 < c'.lastWatermark → c'.lastWatermark ≤ h.clock ∧
        (h.epoch = epoch → GrownSince c'.lastWatermark rows h.rows)) := by
  match reply with
  | .degraded | .errorEnvelope => cases husable
  | .bare tree => exact ⟨_, tree, rfl, ha.carries, rfl, rfl, fun h => absurd h (Nat.lt_irrefl 0)⟩
  | .wrapped tree seq none => exact ⟨_, tree, rfl, ha.carries, rfl, rfl, fun h => absurd h (Nat.lt_irrefl 0)⟩
  | .wrapped tree seq (some watermark) =>
    have hcarries : CarriesFrom c.lastWatermark tree rows := ha.carries
    have hmarked := ha.marked rfl
    refine ⟨_, _, rfl, ?_, rfl, rfl, fun _ => hmarked⟩
    rcases Nat.eq_zero_or_pos c.lastWatermark with hzero | hpos
    · -- the request asked for everything
      rw [hzero] at hcarries
      cases c.configs with
      | none => exact hcarries.shows
      | some base => rw [hzero]; exact hcarries.shows
    · obtain ⟨base, hbase⟩ := Option.isSome_iff_exists.mp (hcached hpos)
      obtain ⟨hidx, hepoch⟩ := hfits rfl hpos
      rw [hbase]
      dsimp only
      rw [if_pos hpos]
      exact shows_merge hcarries (ha.cursor hpos hidx hepoch base hbase)

/-! ### What holds along a run -/

/-- What holds of every reachable world. -/
structure Inv (w : World) : Prop where
  stamped : ∀ i, ∀ r ∈ (w.hubs i).rows.entries, r.2.updatedAt ≤ (w.hubs i).clock
  /-- The tree is the table of the cursor's hub but for rows the cursor will ask for. -/
  cursor : 0 < w.connector.lastWatermark → ∃ i base, w.connector.watermarkEndpointIdx = some i ∧
    w.connector.configs = some base ∧ w.connector.lastWatermark ≤ (w.hubs i).clock ∧
    w.cursorEpoch ≤ (w.hubs i).epoch ∧ ((w.hubs i).epoch = w.cursorEpoch →
      AgreesBelow w.connector.lastWatermark base (w.hubs i).rows)
  poll : ∀ p, w.poll = some p → p.cursor = w.connector.lastWatermark - 1 ∧
    (p.phase = .first → p.sentCursor = w.connector.lastWatermark ∧
      p.cursorEndpoint = w.connector.watermarkEndpointIdx) ∧
    (p.phase ≠ .first → w.connector.lastWatermark = 0)
  read : ∀ {i watermark seq}, w.request = .read i watermark seq → watermark ≤ (w.hubs i).clock
  answered : ∀ {i reply rows epoch}, w.request = .answered i reply rows epoch →
    Answer w.connector (w.hubs i) w.cursorEpoch i reply rows epoch
  served : ∀ {tree rows}, w.served = some (tree, rows) → Shows tree rows

namespace Inv

theorem init {hubs : ℕ → Hub} (hstamped : ∀ i, ∀ r ∈ (hubs i).rows.entries, r.2.updatedAt ≤ (hubs i).clock) :
    Inv { hubs := hubs } where
  stamped := hstamped
  cursor h := absurd h (Nat.lt_irrefl 0)
  poll p h := by cases h
  read h := by cases h
  answered h := by cases h
  served h := by cases h

/-- A hub goes its own way. -/
theorem setHub (hw : Inv w) (hl : (w.hubs i).Later h') : Inv (w.setHub i h') := by
  have hlater : ∀ j, (w.hubs j).Later ((w.setHub i h').hubs j) := by
    intro j
    change (w.hubs j).Later (Function.update w.hubs i h' j)
    rcases eq_or_ne j i with rfl | hne
    · rw [Function.update_self]
      exact hl
    · rw [Function.update_of_ne hne]
      exact later_refl (hw.stamped j)
  refine ⟨fun j => (hlater j).stamped, fun hpos => ?_, hw.poll,
    fun hr => (hw.read hr).trans (hlater _).clock, fun hr => (hw.answered hr).grow (hlater _), hw.served⟩
  obtain ⟨j, base, hj, hbase, hle, hepoch, hagrees⟩ := hw.cursor hpos
  refine ⟨j, base, hj, hbase, hle.trans (hlater j).clock, hepoch.trans (hlater j).epoch, fun hnow => ?_⟩
  have hback : (w.hubs j).epoch ≤ w.cursorEpoch := (hlater j).epoch.trans_eq hnow
  have hsame : (w.hubs j).epoch = w.cursorEpoch := le_antisymm hback hepoch
  have hgrown := ((hlater j).grown (hnow.trans hsame.symm)).mono hle
  exact (hagrees hsame).grown hgrown

/-- The code after an await, where what it takes in was on its way. -/
theorem receive (hw : Inv w) (hp : w.poll = some p)
    (hr : ∀ reply, r = some reply → reply.isUsableConfigResult = true →
      Answer w.connector (w.hubs w.connector.lastGoodIdx) w.cursorEpoch w.connector.lastGoodIdx reply rows epoch ∧
      (∀ {tree seq watermark}, reply = .wrapped tree seq (some watermark) → 0 < w.connector.lastWatermark →
        w.connector.watermarkEndpointIdx = some w.connector.lastGoodIdx →
        epoch = w.cursorEpoch ∨ w.connector.hubConfigRegressed reply = true)) :
    Inv (w.receive p r rows epoch) := by
  obtain ⟨-, hfirst, hagain⟩ := hw.poll p hp
  rcases receive_cases w.connector p r with ⟨phase, hphase, heq⟩ | heq | ⟨reply, rfl, husable, heq, hidx, hseen⟩
  · rw [World.receive, heq]
    refine ⟨hw.stamped, fun h => absurd h (Nat.lt_irrefl 0), ?_, nofun, nofun, hw.served⟩
    rintro q ⟨⟩
    exact ⟨rfl, fun h => absurd h hphase, fun _ => rfl⟩
  · rw [World.receive, heq]
    exact ⟨hw.stamped, hw.cursor, nofun, nofun, nofun, hw.served⟩
  · obtain ⟨hanswer, hshows⟩ := hr reply rfl husable
    have hcached : 0 < w.connector.lastWatermark → w.connector.configs.isSome := by
      intro hpos
      obtain ⟨-, base, -, hbase, -⟩ := hw.cursor hpos
      rw [hbase]
      rfl
    have hfits : ∀ {tree seq watermark}, reply = .wrapped tree seq (some watermark) →
        0 < w.connector.lastWatermark →
          w.connector.watermarkEndpointIdx = some w.connector.lastGoodIdx ∧ epoch = w.cursorEpoch := by
      intro tree seq watermark hmarked hpos
      have hphase : p.phase = .first := by
        by_contra hno
        exact absurd (hagain hno) hpos.ne'
      obtain ⟨hsent, hendpoint⟩ := hfirst hphase
      have hsame := hendpoint.symm.trans (hidx hphase (hsent ▸ hpos))
      refine ⟨hsame, (hshows hmarked hpos hsame).resolve_right ?_⟩
      rw [hseen hphase hpos (hcached hpos)]
      decide
    obtain ⟨c', tree, hfinish, hshown, hconfigs, hendpoint, hmark⟩ := finish_spec hanswer husable hcached hfits
    rw [World.receive, heq, hfinish]
    refine ⟨hw.stamped, fun hpos => ?_, nofun, nofun, nofun, ?_⟩
    · obtain ⟨hle, hgrown⟩ := hmark hpos
      exact ⟨_, tree, hendpoint, hconfigs, hle, hanswer.epoch_le, fun hnow => hshown.agrees (hgrown hnow)⟩
    · rintro tree' rows' ⟨⟩
      exact hshown

theorem answeredBy (hw : Inv w) (i : ℕ) : Inv (w.answeredBy i) :=
  ⟨hw.stamped, hw.cursor, hw.poll, hw.read, fun hr =>
    ⟨(hw.answered hr).carries, (hw.answered hr).marked, (hw.answered hr).epoch_le, (hw.answered hr).cursor⟩, hw.served⟩

/-- The rows are read after the watermark, and from one second behind the cursor. -/
theorem readRows {watermark seq : ℕ} {build : Build} (hw : Inv w) (hp : w.poll = some p)
    (hread : w.request = .read i watermark seq) :
    Answer w.connector (w.hubs i) w.cursorEpoch i (answerOf (w.hubs i).rows p.cursor seq watermark build)
      (w.hubs i).rows (w.hubs i).epoch where
  carries := by
    rw [(hw.poll p hp).1]
    have hmarked : ∀ (build : Build) {tree : Fields},
        answerOf (w.hubs i).rows (w.connector.lastWatermark - 1) seq watermark build =
          .wrapped tree seq (some watermark) → CarriesFrom w.connector.lastWatermark tree (w.hubs i).rows :=
      fun _ _ h => (answerOf_marked h).1
    cases build with
    | inclusive => exact hmarked .inclusive rfl
    | exclusive => exact hmarked .exclusive rfl
    | unmarked => exact shows_treeOf _
    | bare => exact shows_treeOf _
  marked hreply := by
    rw [(hw.poll p hp).1] at hreply
    obtain ⟨-, rfl⟩ := answerOf_marked hreply
    exact ⟨hw.read hread, fun _ => GrownSince.refl _ _⟩
  epoch_le := le_rfl
  cursor hpos hidx hepoch base hbase := by
    obtain ⟨j, base', hj, hbase', -, -, hagrees⟩ := hw.cursor hpos
    obtain rfl := Option.some.inj (hj.symm.trans hidx)
    obtain rfl := Option.some.inj (hbase'.symm.trans hbase)
    exact hagrees hepoch

theorem step (hw : Inv w) (hshows : restoreShows w e = true) (hs : step w e = some w') : Inv w' := by
  cases e with
  | write i k v =>
    obtain rfl := Option.some.inj hs
    exact hw.setHub (later_write (hw.stamped i) k v)
  | tick i seconds =>
    obtain rfl := Option.some.inj hs
    refine hw.setHub ⟨Nat.le_add_right _ _, le_rfl, fun r hr => ?_, fun _ => GrownSince.refl _ _⟩
    exact (hw.stamped i r hr).trans (Nat.le_add_right _ _)
  | commit i =>
    obtain rfl := Option.some.inj hs
    exact hw.setHub ⟨le_rfl, le_rfl, hw.stamped i, fun _ => GrownSince.refl _ _⟩
  | restore i rows seq =>
    rw [HubConfig.step] at hs
    split_ifs at hs with hold
    obtain rfl := Option.some.inj hs
    exact hw.setHub ⟨le_rfl, Nat.le_succ _, hold, fun h => absurd h (Nat.succ_ne_self _)⟩
  | getAllConfig =>
    rw [HubConfig.step] at hs
    split at hs
    · obtain rfl := Option.some.inj hs
      refine ⟨hw.stamped, hw.cursor, ?_, nofun, nofun, hw.served⟩
      rintro q ⟨⟩
      refine ⟨?_, fun _ => ⟨rfl, rfl⟩, fun h => absurd rfl h⟩
      dsimp only [Connector.getAllConfig]
      split_ifs with hpos
      · rfl
      · omega
    · cases hs
  | readWatermark i =>
    obtain ⟨p, hp, rfl⟩ := Option.map_eq_some_iff.mp hs
    refine ⟨hw.stamped, hw.cursor, hw.poll, ?_, nofun, hw.served⟩
    rintro j watermark seq ⟨⟩
    exact watermark_le (hw.stamped _)
  | readRows build =>
    rw [HubConfig.step] at hs
    split at hs
    · rename_i p i watermark seq hp hread
      obtain rfl := Option.some.inj hs
      refine ⟨hw.stamped, hw.cursor, hw.poll, nofun, ?_, hw.served⟩
      rintro j reply rows epoch ⟨⟩
      exact hw.readRows hp hread
    · cases hs
  | deliver =>
    rw [HubConfig.step] at hs
    split at hs
    · rename_i p i reply rows epoch hp hanswered
      obtain rfl := Option.some.inj hs
      refine (hw.answeredBy i).receive hp ?_
      rintro reply' ⟨⟩ -
      refine ⟨(hw.answeredBy i).answered hanswered, ?_⟩
      rintro tree seq watermark rfl hpos hidx
      simp only [restoreShows, hanswered, Bool.or_eq_true, decide_eq_true_eq] at hshows
      rcases hshows with ((hno | hzero) | hepoch) | hregressed
      · exact absurd hidx hno
      · exact absurd hzero hpos.ne'
      · exact Or.inl hepoch
      · exact Or.inr hregressed
    · cases hs
  | degraded i =>
    obtain ⟨p, hp, rfl⟩ := Option.map_eq_some_iff.mp hs
    cases i with
    | none => exact hw.receive hp (by rintro reply ⟨⟩ ⟨⟩)
    | some i => exact (hw.answeredBy i).receive hp (by rintro reply ⟨⟩ ⟨⟩)
  | errorEnvelope i =>
    obtain ⟨p, hp, rfl⟩ := Option.map_eq_some_iff.mp hs
    exact (hw.answeredBy i).receive hp (by rintro reply ⟨⟩ ⟨⟩)
  | unreachable =>
    obtain ⟨p, hp, rfl⟩ := Option.map_eq_some_iff.mp hs
    exact hw.receive hp nofun

end Inv

/-- Whatever is written, restored and asked in whatever order: the tree a poll returns is, on every path of
    safe keys, the table its hub held as it read its rows. -/
theorem served_shows {hubs : ℕ → Hub} {es : List Label} {tree : Fields} {rows : Table}
    (hstamped : ∀ i, ∀ r ∈ (hubs i).rows.entries, r.2.updatedAt ≤ (hubs i).clock)
    (hshows : Meets step (fun w e => restoreShows w e = true) { hubs := hubs } es)
    (hr : run step { hubs := hubs } es = some w) (hs : w.served = some (tree, rows)) : Shows tree rows := by
  have hinv : Inv w := run_inv (fun _ _ _ hw hc hstep => hw.step hc hstep) (Inv.init hstamped) hshows hr
  exact hinv.served hs

/-- A key. -/
def port : Key := ⟨"BTC", "mainnet", "explorer", "db_port"⟩

/-- A row written again in the second of the watermark, for a hub that does not count that second in; then
    the other hub answers. -/
def portRun : List Label :=
  [.write 0 port "3306", .getAllConfig, .readWatermark 0, .readRows .inclusive, .deliver, .write 0 port "3307",
    .getAllConfig, .readWatermark 0, .readRows .exclusive, .deliver]

/-- A poll that starts on one hub and ends on another. -/
def failoverRun : List Label :=
  [.write 1 port "3308", .getAllConfig, .readWatermark 1, .readRows .inclusive, .deliver, .readWatermark 1,
    .readRows .inclusive, .deliver]

/-- The text of a leaf. -/
def leafText : Json → Option String
  | .leaf text => some text
  | .obj _ => none

/-- The port in the tree the last poll returned. -/
def servedPort (es : List Label) : Option (Option String) :=
  (run step { hubs := fun _ => { clock := 100 } } es).bind fun w =>
    w.served.map fun s => (shown s.1 port).bind leafText

theorem served_shows_failover : ∃ w tree rows,
    run step { hubs := fun _ => { clock := 100 } } (portRun ++ failoverRun) = some w ∧
      w.served = some (tree, rows) ∧ (shown tree port).bind leafText = some "3308" ∧ Shows tree rows := by
  have hlast : servedPort (portRun ++ failoverRun) = some (some "3308") := by decide
  obtain ⟨w, hw, hserved⟩ := Option.bind_eq_some_iff.mp hlast
  obtain ⟨⟨tree, rows⟩, hs, hport⟩ := Option.map_eq_some_iff.mp hserved
  exact ⟨w, tree, rows, hw, hs, hport, served_shows (fun _ _ hr => absurd hr List.not_mem_nil) (by decide) hw hs⟩

example : servedPort portRun = some (some "3307") := by decide

end HubConfig
