import XChainExplorer.Lib.Runs
import XChainExplorer.Lib.UniqueTable
import Mathlib.Data.List.Basic
import Mathlib.Order.Nat

/-! # Clearing the capability snapshots a hub does not hold

    A complete page of `capability_snapshots` from zero, with live rows, holds and refusals among its steps,
    and the pass after it. The hub appends and never deletes. A row lands by `INSERT IGNORE` under a local
    id, so one whose key is taken leaves the old row and its id in place. -/

namespace CapabilitySnapshots
open Runs

/-- A row as the hub serves it. -/
structure SnapshotRow where
  id : ℕ
  snapshot_block : ℕ
  capability : String
  signing_pubkey : String
  source : Option String
  deriving DecidableEq

/-- The columns of `uq_cap_snap`, letter case folded. -/
structure Key where
  snapshot_block : ℕ
  capability : String
  signing_pubkey : String
  source : String
  deriving DecidableEq

/-- The mirror's rows, by their key. -/
abbrev Mirror := UniqueTable Key SnapshotRow

/-- The rows of a page. -/
def PAGE_LIMIT : ℕ := 10000

/-- The most keys that a drain keeps. -/
def CAPABILITY_SNAPSHOT_KEY_CAP : ℕ := 500000

/-- What became of an applied row: stored, withheld (refused or held), or an error. -/
inductive Outcome where
  | landed
  | withheld
  | failed
  deriving DecidableEq

/-- Between pages; in a page, which is the last one where it is short; after it; and between the chunks of
    the deletes. -/
inductive Stage where
  | paging
  | page (pending : List SnapshotRow) (short : Bool)
  | drained
  | deleting (stale : List ℕ)
  deriving DecidableEq

/-- `served` are the rows behind the key set; nothing reads them. -/
structure Drain where
  snapshotPreDrainMaxId : ℕ
  lastId : ℕ := 0
  servedSnapshotKeys : List Key := []
  snapshotKeysComplete : Bool := true
  maxServedSnapshotBlock : ℕ := 0
  served : List SnapshotRow := []
  stage : Stage := .paging
  deriving DecidableEq

/-- How a pass ended: whether a local row matched a served key, and whether a read or a delete failed. -/
structure Ended where
  drain : Drain
  matched : Bool
  failed : Bool
  deriving DecidableEq

/-- A deleted row's key, with the hub's table and the drain at that moment. -/
structure Removal where
  key : Key
  hub : List SnapshotRow
  drain : Drain

/-- Nothing reads `ended` and `removed`. -/
structure World where
  hub : List SnapshotRow
  mirror : Mirror
  drain : Option Drain := none
  ended : Option Ended := none
  removed : List Removal := []

section

variable (lower : String → String)

/-- The key of a row, as the database compares it. -/
def capabilitySnapshotKey (row : SnapshotRow) : Key :=
  ⟨row.snapshot_block, lower row.capability, lower row.signing_pubkey, lower (row.source.getD "")⟩

/-- `applyRow`, by `INSERT IGNORE`. -/
def applyRow (mirror : Mirror) (row : SnapshotRow) : Outcome → Mirror
  | .landed => mirror.insertIgnore (capabilitySnapshotKey lower row) row
  | _ => mirror

/-- A served row into the drain's account. Past the cap its key is not kept. -/
def Drain.recordServedRow (drain : Drain) (row : SnapshotRow) : Drain :=
  let full := CAPABILITY_SNAPSHOT_KEY_CAP ≤ drain.servedSnapshotKeys.length
  { drain with
    maxServedSnapshotBlock := max drain.maxServedSnapshotBlock row.snapshot_block
    snapshotKeysComplete := drain.snapshotKeysComplete && !decide full
    servedSnapshotKeys := if full then drain.servedSnapshotKeys else
      drain.servedSnapshotKeys.insert (capabilitySnapshotKey lower row)
    served := row :: drain.served }

/-- `MAX(id)`, 0 for an empty table. -/
def localMaxId (mirror : Mirror) : ℕ := (mirror.rows.map (·.id)).foldr max 0

/-- The page past an id. -/
def snapshotPage (hub : List SnapshotRow) (since_id : ℕ) : List SnapshotRow :=
  (hub.filter (since_id < ·.id)).take PAGE_LIMIT

/-- The mirror's rows whose keys were served. -/
def matchedRows (mirror : Mirror) (drain : Drain) : List (UniqueRow Key SnapshotRow) :=
  mirror.rows.filter (·.key ∈ drain.servedSnapshotKeys)

/-- None where the pass must not run. -/
def staleForeignSnapshotIds (mirror : Mirror) (drain : Drain) : Option (List ℕ) :=
  if !drain.snapshotKeysComplete then
    some ((mirror.rows.filter fun x =>
      x.id ≤ drain.snapshotPreDrainMaxId && drain.maxServedSnapshotBlock < x.key.snapshot_block).map (·.id))
  else if drain.servedSnapshotKeys ≠ [] && mirror.rows ≠ [] && matchedRows mirror drain = [] then none
  else some ((mirror.rows.filter fun x =>
    x.id ≤ drain.snapshotPreDrainMaxId && decide (x.key ∉ drain.servedSnapshotKeys)).map (·.id))

/-- The end of a drain. -/
def Drain.close (drain : Drain) (mirror : Mirror) (failed : Bool) : Ended :=
  ⟨drain, matchedRows mirror drain ≠ [], failed⟩

/-- A step of the hub, of the stream or of the drain. -/
inductive Label where
  | write (row : SnapshotRow)
  /-- A page from zero opens; the read of the highest local id may fail, which answers 0. -/
  | openTableDrain (read : Bool)
  | fetch
  | applyPendingRow (outcome : Outcome)
  /-- A row of the hub arrives on the stream, or is tried again after a hold. -/
  | live (row : SnapshotRow) (outcome : Outcome)
  | reconcile (read : Bool)
  | delete (ok : Bool)
  deriving DecidableEq

/-- The drain after a row of its page. -/
def Drain.after (drain : Drain) (pending : List SnapshotRow) (short : Bool) : Drain :=
  { drain with stage := match pending, short with
      | [], true => .drained
      | [], false => .paging
      | pending, short => .page pending short }

/-- `applyPendingRow`, for a row that was handled. -/
def Drain.handled (drain : Drain) (row : SnapshotRow) : Drain :=
  { drain.recordServedRow lower row with lastId := max drain.lastId row.id }

/-- The pass is over. -/
def World.finish (w : World) (drain : Drain) (failed : Bool) : World :=
  { w with drain := none, ended := some (drain.close w.mirror failed) }

/-- `reconcileForeignCapabilitySnapshots`, up to its first delete. -/
def World.reconcile (w : World) (drain : Drain) (read : Bool) : World :=
  if drain.snapshotPreDrainMaxId = 0 then w.finish drain false
  else if !read then w.finish drain true
  else match staleForeignSnapshotIds w.mirror drain with
    | none | some [] => w.finish drain false
    | some stale => { w with drain := some { drain with stage := .deleting stale } }

/-- What a delete takes away. -/
def World.removals (w : World) (drain : Drain) (chunk : List ℕ) : List Removal :=
  (w.mirror.rows.filter fun x => x.id ∈ chunk).map fun x => ⟨x.key, w.hub, drain⟩

/-- One chunk of the deletes. -/
def World.deleteChunk (w : World) (drain : Drain) (stale : List ℕ) : World :=
  let chunk := stale.take 500
  let w' : World := { w with
    mirror := w.mirror.delete fun x => x.id ∈ chunk
    removed := w.removed ++ w.removals drain chunk }
  match stale.drop 500 with
  | [] => w'.finish drain false
  | rest => { w' with drain := some { drain with stage := .deleting rest } }

/-- A step of the world, if it can be taken. -/
def step (w : World) : Label → Option World
  | .write row =>
    if 0 < row.id ∧ ∀ r ∈ w.hub, r.id < row.id ∧ capabilitySnapshotKey lower r ≠ capabilitySnapshotKey lower row then
      some { w with hub := w.hub ++ [row] }
    else none
  | .openTableDrain read => match w.drain with
    | none => some { w with drain := some { snapshotPreDrainMaxId := if read then localMaxId w.mirror else 0 } }
    | some _ => none
  | .fetch => match w.drain with
    | some drain => if drain.stage = .paging then
        let page := snapshotPage w.hub drain.lastId
        some { w with drain := some (drain.after page (page.length < PAGE_LIMIT)) }
      else none
    | none => none
  | .applyPendingRow outcome => match w.drain with
    | some drain => match drain.stage with
      | .page (row :: pending) short => match outcome with
        | .failed => some { w with drain := none }
        | _ => some { w with
            mirror := applyRow lower w.mirror row outcome
            drain := some ((drain.handled lower row).after pending short) }
      | _ => none
    | none => none
  | .live row outcome =>
    if row ∈ w.hub then some { w with mirror := applyRow lower w.mirror row outcome } else none
  | .reconcile read => match w.drain with
    | some drain => if drain.stage = .drained then some (w.reconcile drain read) else none
    | none => none
  | .delete ok => match w.drain with
    | some drain => match drain.stage with
      | .deleting stale => some (if ok then w.deleteChunk drain stale else w.finish drain true)
      | _ => none
    | none => none

/-! ### What the pass promises -/

/-- No row the hub holds is deleted; after a pass that could judge and did not fail, every local row from
    before its drain has a key the hub served; and without the key set, what is deleted lies above every
    served boundary. -/
structure Exact (w : World) : Prop where
  kept : ∀ d ∈ w.removed, ∀ r ∈ d.hub, capabilitySnapshotKey lower r ≠ d.key
  cleared : ∀ e, w.ended = some e → e.drain.snapshotKeysComplete = true → e.matched = true → e.failed = false →
    ∀ x ∈ w.mirror, x.id ≤ e.drain.snapshotPreDrainMaxId →
      ∃ r ∈ e.drain.served, capabilitySnapshotKey lower r = x.key
  above : ∀ d ∈ w.removed, d.drain.snapshotKeysComplete = false →
    ∀ r ∈ d.drain.served, r.snapshot_block < d.key.snapshot_block

/-- The hub has no further page. -/
def Drain.pastLastPage (drain : Drain) : Bool :=
  match drain.stage with
  | .paging | .page _ false => false
  | .page _ true | .drained | .deleting _ => true

/-- Once the last page is read, the hub writes no key that a local row from before the drain has. -/
def spares (w : World) : Label → Bool
  | .write row => match w.drain with
    | some drain => !drain.pastLastPage || w.mirror.rows.all fun x =>
        decide (x.id ≤ drain.snapshotPreDrainMaxId → x.key ≠ capabilitySnapshotKey lower row)
    | none => true
  | _ => true

/-! ### The drain against the hub's table -/

variable {lower} {hub : List SnapshotRow} {mirror mirror' : Mirror} {d : Drain} {w w' : World} {e : Label}
  {row : SnapshotRow} {mark : ℕ}

/-- No local row from before the drain has the row's key. -/
def Late (mirror : Mirror) (mark : ℕ) (k : Key) : Prop := ∀ x ∈ mirror, x.id ≤ mark → x.key ≠ k

/-- What the pass takes a key for that the hub does not hold. -/
def Drain.Foreign (d : Drain) (k : Key) : Prop :=
  if d.snapshotKeysComplete then k ∉ d.servedSnapshotKeys else d.maxServedSnapshotBlock < k.snapshot_block

/-- Where a row of the hub is that the drain has not handled. -/
def Drain.Awaits (lower : String → String) (d : Drain) (mirror : Mirror) (r : SnapshotRow) : Stage → Prop
  | .paging => d.lastId < r.id
  | .page pending false => r ∈ pending ∨ d.lastId < r.id ∧ ∀ q ∈ pending, q.id < r.id
  | .page pending true => r ∈ pending ∨ Late mirror d.snapshotPreDrainMaxId (capabilitySnapshotKey lower r)
  | .drained | .deleting _ => Late mirror d.snapshotPreDrainMaxId (capabilitySnapshotKey lower r)

/-- What holds of a drain under way. -/
structure DrainInv (lower : String → String) (hub : List SnapshotRow) (mirror : Mirror) (d : Drain) : Prop where
  mark_lt : d.snapshotPreDrainMaxId < mirror.nextId
  blocks : ∀ r ∈ d.served, r.snapshot_block ≤ d.maxServedSnapshotBlock
  served_of_key : ∀ k ∈ d.servedSnapshotKeys, ∃ r ∈ d.served, capabilitySnapshotKey lower r = k
  key_of_served : d.snapshotKeysComplete = true → ∀ r ∈ d.served, capabilitySnapshotKey lower r ∈ d.servedSnapshotKeys
  lastId : d.lastId = 0 ∨ ∃ r ∈ hub, r.id = d.lastId
  pending : ∀ pending short, d.stage = .page pending short → ∀ q ∈ pending, q ∈ hub
  holds : ∀ r ∈ hub, r ∈ d.served ∨ d.Awaits lower mirror r d.stage
  stale : ∀ stale, d.stage = .deleting stale → (∀ i ∈ stale, i ≤ d.snapshotPreDrainMaxId) ∧
    (∀ x ∈ mirror, x.id ∈ stale → d.Foreign x.key) ∧ (d.snapshotKeysComplete = true → ∀ x ∈ mirror, x.id ≤ d.snapshotPreDrainMaxId →
      x.id ∈ stale ∨ x.key ∈ d.servedSnapshotKeys)

/-- A table's later self, of which a row from before the mark is an old one. -/
structure Shrunk (mark : ℕ) (mirror mirror' : Mirror) : Prop where
  nextId : mirror.nextId ≤ mirror'.nextId
  old : ∀ x ∈ mirror', x.id ≤ mark → x ∈ mirror

theorem shrunk_insertIgnore (h : mark < mirror.nextId) (k : Key) (v : SnapshotRow) :
    Shrunk mark mirror (mirror.insertIgnore k v) where
  nextId := UniqueTable.nextId_le_insertIgnore
  old x hx hle := by
    rcases UniqueTable.mem_insertIgnore.mp hx with hx | ⟨-, rfl⟩
    · exact hx
    · exact absurd hle (Nat.not_le.mpr h)

theorem shrunk_applyRow (h : mark < mirror.nextId) (row : SnapshotRow) (outcome : Outcome) :
    Shrunk mark mirror (applyRow lower mirror row outcome) := by
  cases outcome with
  | landed => exact shrunk_insertIgnore h _ _
  | withheld | failed => exact ⟨le_rfl, fun _ hx _ => hx⟩

theorem shrunk_delete (mark : ℕ) (p : UniqueRow Key SnapshotRow → Bool) : Shrunk mark mirror (mirror.delete p) :=
  ⟨le_rfl, fun _ hx _ => (UniqueTable.mem_delete.mp hx).1⟩

theorem Late.shrink {k : Key} (h : Late mirror mark k) (hs : Shrunk mark mirror mirror') : Late mirror' mark k :=
  fun x hx hle => h x (hs.old x hx hle) hle

theorem DrainInv.shrink (h : DrainInv lower hub mirror d) (hs : Shrunk d.snapshotPreDrainMaxId mirror mirror') :
    DrainInv lower hub mirror' d where
  mark_lt := h.mark_lt.trans_le hs.nextId
  blocks := h.blocks
  served_of_key := h.served_of_key
  key_of_served := h.key_of_served
  lastId := h.lastId
  pending := h.pending
  holds r hr := by
    refine (h.holds r hr).imp_right fun hawaits => ?_
    match d.stage, hawaits with
    | .paging, hawaits => exact hawaits
    | .page _ false, hawaits => exact hawaits
    | .page _ true, hawaits => exact Or.imp_right (Late.shrink · hs) hawaits
    | .drained, hawaits => exact Late.shrink hawaits hs
    | .deleting _, hawaits => exact Late.shrink hawaits hs
  stale stale hstale := by
    obtain ⟨hold, hforeign, hcomplete⟩ := h.stale stale hstale
    exact ⟨hold, fun x hx hid => hforeign x (hs.old x hx (hold _ hid)) hid,
      fun hc x hx hle => hcomplete hc x (hs.old x hx hle) hle⟩

theorem localMaxId_lt (mirror : Mirror) : localMaxId mirror < mirror.nextId := by
  have hlt : ∀ i ∈ mirror.rows.map (·.id), i < mirror.nextId := by
    intro i hi
    obtain ⟨x, hx, rfl⟩ := List.mem_map.mp hi
    exact mirror.ids_lt x hx
  rw [localMaxId]
  generalize mirror.rows.map (·.id) = ids at hlt
  induction ids with
  | nil => exact mirror.nextId_pos
  | cons i ids ih =>
    obtain ⟨hi, hids⟩ := List.forall_mem_cons.mp hlt
    exact max_lt hi (ih hids)

theorem drainInv_open (hpos : ∀ r ∈ hub, 0 < r.id) (hmark : mark < mirror.nextId) :
    DrainInv lower hub mirror { snapshotPreDrainMaxId := mark } where
  mark_lt := hmark
  blocks _ h := by cases h
  served_of_key _ h := by cases h
  key_of_served _ _ h := by cases h
  lastId := Or.inl rfl
  pending _ _ h := by cases h
  holds r hr := Or.inr (hpos r hr)
  stale _ h := by cases h

/-- The hub writes, and past the last page at no key of an old local row. -/
theorem DrainInv.write (h : DrainInv lower hub mirror d) (hpos : 0 < row.id) (hnew : ∀ r ∈ hub, r.id < row.id)
    (hspares : d.pastLastPage = true → Late mirror d.snapshotPreDrainMaxId (capabilitySnapshotKey lower row)) :
    DrainInv lower (hub ++ [row]) mirror d where
  mark_lt := h.mark_lt
  blocks := h.blocks
  served_of_key := h.served_of_key
  key_of_served := h.key_of_served
  lastId := h.lastId.imp_right fun ⟨r, hr, hid⟩ => ⟨r, List.mem_append_left _ hr, hid⟩
  pending pending short hstage q hq := List.mem_append_left _ (h.pending pending short hstage q hq)
  stale := h.stale
  holds r hr := by
    rcases List.mem_append.mp hr with hr | hr
    · exact h.holds r hr
    obtain rfl := List.mem_singleton.mp hr
    have hlast : d.lastId < r.id := by
      rcases h.lastId with hzero | ⟨q, hq, hid⟩
      · exact hzero.trans_lt hpos
      · exact hid ▸ hnew q hq
    rw [Drain.pastLastPage] at hspares
    refine Or.inr ?_
    cases hstage : d.stage with
    | paging => exact hlast
    | page pending short =>
      rw [hstage] at hspares
      cases short with
      | false => exact Or.inr ⟨hlast, fun q hq => hnew q (h.pending pending false hstage q hq)⟩
      | true => exact Or.inr (hspares rfl)
    | drained => rw [hstage] at hspares; exact hspares rfl
    | deleting stale => rw [hstage] at hspares; exact hspares rfl

/-- What is left of a page decides what comes next. -/
theorem DrainInv.after {pending : List SnapshotRow} {short : Bool}
    (h : DrainInv lower hub mirror { d with stage := .page pending short }) :
    DrainInv lower hub mirror (d.after pending short) := by
  match pending, short with
  | q :: pending, short => exact h
  | [], true =>
    refine ⟨h.mark_lt, h.blocks, h.served_of_key, h.key_of_served, h.lastId, nofun, fun r hr => ?_, nofun⟩
    refine (h.holds r hr).imp_right fun hawaits => ?_
    exact hawaits.resolve_left List.not_mem_nil
  | [], false =>
    refine ⟨h.mark_lt, h.blocks, h.served_of_key, h.key_of_served, h.lastId, nofun, fun r hr => ?_, nofun⟩
    refine (h.holds r hr).imp_right fun hawaits => ?_
    exact (hawaits.resolve_left List.not_mem_nil).1

/-- A page is the next rows by id; a short one is all of them. -/
theorem DrainInv.fetch (h : DrainInv lower hub mirror d) (hasc : hub.Pairwise (·.id < ·.id)) (hstage : d.stage = .paging) :
    DrainInv lower hub mirror { d with
      stage := .page (snapshotPage hub d.lastId) ((snapshotPage hub d.lastId).length < PAGE_LIMIT) } := by
  refine ⟨h.mark_lt, h.blocks, h.served_of_key, h.key_of_served, h.lastId, ?_, fun r hr => ?_, nofun⟩
  · rintro pending short ⟨⟩ q hq
    exact List.mem_of_mem_filter (List.mem_of_mem_take hq)
  · have hr' := h.holds r hr
    rw [hstage] at hr'
    refine hr'.imp_right fun (hafter : d.lastId < r.id) => ?_
    have hmem : r ∈ hub.filter (d.lastId < ·.id) := List.mem_filter.mpr ⟨hr, decide_eq_true hafter⟩
    have hsplit : hub.filter (d.lastId < ·.id) =
        snapshotPage hub d.lastId ++ (hub.filter (d.lastId < ·.id)).drop PAGE_LIMIT :=
      (List.take_append_drop _ _).symm
    have hsorted : (hub.filter (d.lastId < ·.id)).Pairwise (·.id < ·.id) := hasc.filter _
    rw [hsplit] at hmem hsorted
    rcases List.mem_append.mp hmem with hin | hrest
    · cases hshort : decide ((snapshotPage hub d.lastId).length < PAGE_LIMIT) <;> exact Or.inl hin
    · have hfull : decide ((snapshotPage hub d.lastId).length < PAGE_LIMIT) = false := by
        rw [decide_eq_false_iff_not, Nat.not_lt, snapshotPage, List.length_take]
        refine le_min le_rfl ?_
        by_contra hlt
        rw [List.drop_eq_nil_of_le (Nat.le_of_lt (Nat.not_le.mp hlt))] at hrest
        cases hrest
      rw [hfull]
      exact Or.inr ⟨hafter, fun q hq => (List.pairwise_append.mp hsorted).2.2 q hq r hrest⟩

/-- The first row of a page is handled. -/
theorem DrainInv.handled {pending : List SnapshotRow} {short : Bool} (h : DrainInv lower hub mirror d)
    (hstage : d.stage = .page (row :: pending) short) :
    DrainInv lower hub mirror { d.handled lower row with stage := .page pending short } where
  mark_lt := h.mark_lt
  blocks r hr := by
    rcases List.mem_cons.mp hr with rfl | hr
    · exact le_max_right _ _
    · exact (h.blocks r hr).trans (le_max_left _ _)
  served_of_key k hk := by
    have hold : k ∈ d.servedSnapshotKeys ∨ k = capabilitySnapshotKey lower row := by
      dsimp only [Drain.handled, Drain.recordServedRow] at hk
      split_ifs at hk with hfull
      · exact Or.inl hk
      · exact (List.mem_insert_iff.mp hk).symm
    rcases hold with hold | rfl
    · obtain ⟨r, hr, hkey⟩ := h.served_of_key k hold
      exact ⟨r, List.mem_cons_of_mem _ hr, hkey⟩
    · exact ⟨row, List.mem_cons_self, rfl⟩
  key_of_served hcomplete r hr := by
    dsimp only [Drain.handled, Drain.recordServedRow] at hcomplete ⊢
    obtain ⟨hcomplete, hfull⟩ := Bool.and_eq_true_iff.mp hcomplete
    rw [if_neg (by simpa using hfull), List.mem_insert_iff]
    rcases List.mem_cons.mp hr with rfl | hr
    · exact Or.inl rfl
    · exact Or.inr (h.key_of_served hcomplete r hr)
  lastId := by
    have hrow : row ∈ hub := h.pending _ _ hstage row List.mem_cons_self
    dsimp only [Drain.handled]
    rcases le_total d.lastId row.id with hle | hle
    · exact Or.inr ⟨row, hrow, (max_eq_right hle).symm⟩
    · rw [max_eq_left hle]
      exact h.lastId
  pending pending' short' hpage q hq := by
    obtain ⟨rfl, rfl⟩ := Stage.page.inj hpage
    exact h.pending _ _ hstage q (List.mem_cons_of_mem _ hq)
  holds r hr := by
    have hr := h.holds r hr
    rw [hstage] at hr
    dsimp only [Drain.handled, Drain.recordServedRow]
    rcases hr with hserved | hawaits
    · exact Or.inl (List.mem_cons_of_mem _ hserved)
    cases short with
    | true =>
      rcases hawaits with hpending | hlate
      · rcases List.mem_cons.mp hpending with rfl | hpending
        · exact Or.inl List.mem_cons_self
        · exact Or.inr (Or.inl hpending)
      · exact Or.inr (Or.inr hlate)
    | false =>
      rcases hawaits with hpending | ⟨hlast, hnext⟩
      · rcases List.mem_cons.mp hpending with rfl | hpending
        · exact Or.inl List.mem_cons_self
        · exact Or.inr (Or.inl hpending)
      · exact Or.inr (Or.inr ⟨max_lt hlast (hnext row List.mem_cons_self), fun q hq =>
          hnext q (List.mem_cons_of_mem _ hq)⟩)
  stale _ h := by cases h

/-- No row the hub holds is foreign, unless its key is that of a row written late. -/
theorem DrainInv.kept (h : DrainInv lower hub mirror d) {stale : List ℕ} (hstage : d.stage = .deleting stale)
    {x : UniqueRow Key SnapshotRow} (hx : x ∈ mirror) (hid : x.id ∈ stale) :
    ∀ r ∈ hub, capabilitySnapshotKey lower r ≠ x.key := by
  intro r hr hkey
  obtain ⟨hold, hforeign, -⟩ := h.stale stale hstage
  have hforeign := hforeign x hx hid
  rw [Drain.Foreign] at hforeign
  have hr := h.holds r hr
  rw [hstage] at hr
  rcases hr with hserved | hlate
  · split_ifs at hforeign with hcomplete
    · exact hforeign (hkey ▸ h.key_of_served hcomplete r hserved)
    · have hblock : r.snapshot_block = x.key.snapshot_block := congrArg Key.snapshot_block hkey
      exact absurd (h.blocks r hserved) (Nat.not_le.mpr (hblock ▸ hforeign))
  · exact hlate x hx (hold _ hid) hkey.symm

/-- What the pass finds stale is old and foreign; and with the key set, everything old that is not served. -/
theorem stale_spec {stale : List ℕ} (hstale : staleForeignSnapshotIds mirror d = some stale) :
    (∀ i ∈ stale, i ≤ d.snapshotPreDrainMaxId) ∧ (∀ x ∈ mirror, x.id ∈ stale → d.Foreign x.key) ∧
      (d.snapshotKeysComplete = true → ∀ x ∈ mirror, x.id ≤ d.snapshotPreDrainMaxId →
        x.id ∈ stale ∨ x.key ∈ d.servedSnapshotKeys) := by
  rw [staleForeignSnapshotIds] at hstale
  have hids : ∀ {p : UniqueRow Key SnapshotRow → Bool} {i : ℕ}, i ∈ (mirror.rows.filter p).map (·.id) ↔
      ∃ x ∈ mirror, p x = true ∧ x.id = i := by
    intro p i
    simp [UniqueTable.mem_def, and_assoc]
  have hsame : ∀ {x y : UniqueRow Key SnapshotRow}, x ∈ mirror → y ∈ mirror → y.id = x.id → y = x :=
    fun hx hy hid => UniqueTable.eq_of_id_eq hy hx hid
  cases hcomplete : d.snapshotKeysComplete with
  | false =>
    rw [hcomplete, if_pos (by decide)] at hstale
    obtain rfl := Option.some.inj hstale
    refine ⟨fun i hi => ?_, fun x hx hid => ?_, nofun⟩
    · obtain ⟨x, -, hp, rfl⟩ := hids.mp hi
      exact of_decide_eq_true (Bool.and_eq_true_iff.mp hp).1
    · obtain ⟨y, hy, hp, hyx⟩ := hids.mp hid
      obtain rfl := hsame hx hy hyx
      rw [Drain.Foreign, hcomplete, if_neg Bool.false_ne_true]
      exact of_decide_eq_true (Bool.and_eq_true_iff.mp hp).2
  | true =>
    rw [hcomplete, if_neg (by decide)] at hstale
    split_ifs at hstale
    obtain rfl := Option.some.inj hstale
    refine ⟨fun i hi => ?_, fun x hx hid => ?_, fun _ x hx hle => ?_⟩
    · obtain ⟨x, -, hp, rfl⟩ := hids.mp hi
      exact of_decide_eq_true (Bool.and_eq_true_iff.mp hp).1
    · obtain ⟨y, hy, hp, hyx⟩ := hids.mp hid
      obtain rfl := hsame hx hy hyx
      rw [Drain.Foreign, hcomplete, if_pos rfl]
      exact of_decide_eq_true (Bool.and_eq_true_iff.mp hp).2
    · by_cases hkey : x.key ∈ d.servedSnapshotKeys
      · exact Or.inr hkey
      · exact Or.inl (hids.mpr ⟨x, hx, by simp [hle, hkey], rfl⟩)

/-! ### What holds along a run -/

/-- What holds of every reachable world. -/
structure Inv (lower : String → String) (w : World) : Prop where
  ascending : w.hub.Pairwise (·.id < ·.id)
  positive : ∀ r ∈ w.hub, 0 < r.id
  drain : ∀ d, w.drain = some d → DrainInv lower w.hub w.mirror d
  ended_lt : ∀ e, w.ended = some e → e.drain.snapshotPreDrainMaxId < w.mirror.nextId
  exact : Exact lower w

namespace Inv

/-- The mirror changes above every mark. -/
theorem shrink {drain : Option Drain} (h : Inv lower w)
    (hs : ∀ mark < w.mirror.nextId, Shrunk mark w.mirror mirror')
    (hdrain : ∀ d, drain = some d → DrainInv lower w.hub mirror' d) :
    Inv lower { w with mirror := mirror', drain := drain } where
  ascending := h.ascending
  positive := h.positive
  drain := hdrain
  ended_lt e he := (h.ended_lt e he).trans_le (hs _ (h.ended_lt e he)).nextId
  exact := ⟨h.exact.kept, fun e he hcomplete hmatched hfailed x hx hle =>
    h.exact.cleared e he hcomplete hmatched hfailed x ((hs _ (h.ended_lt e he)).old x hx hle) hle, h.exact.above⟩

theorem withDrain (h : Inv lower w) (hd : DrainInv lower w.hub w.mirror d) : Inv lower { w with drain := some d } :=
  ⟨h.ascending, h.positive, fun _ hdrain => Option.some.inj hdrain ▸ hd, h.ended_lt,
    ⟨h.exact.kept, h.exact.cleared, h.exact.above⟩⟩

theorem finish {failed : Bool} (h : Inv lower w) (hd : DrainInv lower w.hub w.mirror d)
    (hcleared : d.snapshotKeysComplete = true → matchedRows w.mirror d ≠ [] → failed = false →
      ∀ x ∈ w.mirror, x.id ≤ d.snapshotPreDrainMaxId → x.key ∈ d.servedSnapshotKeys) :
    Inv lower (w.finish d failed) where
  ascending := h.ascending
  positive := h.positive
  drain _ hnone := by cases hnone
  ended_lt _ he := by
    obtain rfl := Option.some.inj he
    exact hd.mark_lt
  exact := by
    refine ⟨h.exact.kept, ?_, h.exact.above⟩
    rintro e ⟨⟩ hcomplete hmatched hfailed x hx hle
    exact hd.served_of_key _ (hcleared hcomplete (of_decide_eq_true hmatched) hfailed x hx hle)

theorem reconcile {read : Bool} (h : Inv lower w) (hd : DrainInv lower w.hub w.mirror d) (hstage : d.stage = .drained) :
    Inv lower (w.reconcile d read) := by
  rw [World.reconcile]
  split_ifs with hzero hread
  · refine h.finish hd fun _ _ _ x hx hle => ?_
    exact absurd hle (Nat.not_le.mpr (hzero ▸ w.mirror.ids_pos x hx))
  · exact h.finish hd nofun
  split
  · rename_i hnone
    refine h.finish hd fun hcomplete hmatched => absurd hnone ?_
    rw [staleForeignSnapshotIds, hcomplete, if_neg (by decide), if_neg (by simp [hmatched])]
    exact Option.some_ne_none _
  · rename_i hnothing
    refine h.finish hd fun hcomplete _ _ x hx hle => ?_
    exact ((stale_spec hnothing).2.2 hcomplete x hx hle).resolve_left List.not_mem_nil
  · rename_i stale _ hstale
    refine h.withDrain ⟨hd.mark_lt, hd.blocks, hd.served_of_key, hd.key_of_served, hd.lastId, nofun, fun r hr => ?_, ?_⟩
    · have hholds := hd.holds r hr
      rw [hstage] at hholds
      exact hholds
    · rintro stale' ⟨⟩
      exact stale_spec hstale

theorem deleteChunk {stale : List ℕ} (h : Inv lower w) (hd : DrainInv lower w.hub w.mirror d)
    (hstage : d.stage = .deleting stale) : Inv lower (w.deleteChunk d stale) := by
  obtain ⟨hold, hforeign, hcovered⟩ := hd.stale stale hstage
  have hchunk : ∀ i ∈ stale.take 500, i ∈ stale := fun i hi => List.mem_of_mem_take hi
  have hremoved : ∀ m ∈ w.removals d (stale.take 500), m.hub = w.hub ∧ m.drain = d ∧
      ∃ x ∈ w.mirror, x.id ∈ stale ∧ x.key = m.key := by
    intro m hm
    obtain ⟨x, hx, rfl⟩ := List.mem_map.mp hm
    obtain ⟨hx, hid⟩ := List.mem_filter.mp hx
    exact ⟨rfl, rfl, x, hx, hchunk _ (of_decide_eq_true hid), rfl⟩
  have hexact : ∀ m ∈ w.removed ++ w.removals d (stale.take 500),
      (∀ r ∈ m.hub, capabilitySnapshotKey lower r ≠ m.key) ∧ (m.drain.snapshotKeysComplete = false →
        ∀ r ∈ m.drain.served, r.snapshot_block < m.key.snapshot_block) := by
    intro m hm
    rcases List.mem_append.mp hm with hm | hm
    · exact ⟨h.exact.kept m hm, h.exact.above m hm⟩
    obtain ⟨hhub, hdrain, x, hx, hid, hkey⟩ := hremoved m hm
    rw [hhub, hdrain, ← hkey]
    refine ⟨hd.kept hstage hx hid, fun hcomplete r hr => ?_⟩
    have habove := hforeign x hx hid
    rw [Drain.Foreign, hcomplete, if_neg Bool.false_ne_true] at habove
    exact (hd.blocks r hr).trans_lt habove
  have hshrunk : ∀ mark, Shrunk mark w.mirror (w.mirror.delete fun x => x.id ∈ stale.take 500) :=
    fun mark => shrunk_delete mark _
  have hw : Inv lower { w with
      mirror := w.mirror.delete fun x => x.id ∈ stale.take 500
      removed := w.removed ++ w.removals d (stale.take 500) } := by
    obtain ⟨hasc, hpos, -, hended, hex⟩ := h.shrink (fun mark _ => hshrunk mark)
      fun d' hd' => (h.drain d' hd').shrink (hshrunk _)
    refine ⟨hasc, hpos, fun d' hd' => (h.drain d' hd').shrink (hshrunk _), hended, fun m hm => (hexact m hm).1,
      hex.cleared, fun m hm => (hexact m hm).2⟩
  have hd' := hd.shrink (hshrunk _)
  rw [World.deleteChunk]
  split
  · rename_i hlast
    refine hw.finish hd' fun hcomplete _ _ x hx hle => ?_
    obtain ⟨hx, hkept⟩ := UniqueTable.mem_delete.mp hx
    refine (hcovered hcomplete x hx hle).resolve_left fun hid => of_decide_eq_false hkept ?_
    rwa [← List.take_append_drop 500 stale, hlast, List.append_nil] at hid
  · refine hw.withDrain ⟨hd'.mark_lt, hd'.blocks, hd'.served_of_key, hd'.key_of_served, hd'.lastId, nofun,
      fun r hr => ?_, ?_⟩
    · have hholds := hd'.holds r hr
      rw [hstage] at hholds
      exact hholds
    · rintro rest ⟨⟩
      refine ⟨fun i hi => hold i (List.mem_of_mem_drop hi), fun x hx hid =>
        hforeign x (UniqueTable.mem_delete.mp hx).1 (List.mem_of_mem_drop hid), fun hcomplete x hx hle => ?_⟩
      obtain ⟨hx, hkept⟩ := UniqueTable.mem_delete.mp hx
      refine (hcovered hcomplete x hx hle).imp_left fun hid => ?_
      rw [← List.take_append_drop 500 stale] at hid
      exact (List.mem_append.mp hid).resolve_left (of_decide_eq_false hkept)

theorem write (h : Inv lower w) (hpos : 0 < row.id) (hnew : ∀ r ∈ w.hub, r.id < row.id)
    (hspares : spares lower w (.write row) = true) : Inv lower { w with hub := w.hub ++ [row] } where
  ascending := by
    refine List.pairwise_append.mpr ⟨h.ascending, List.pairwise_singleton _ _, fun r hr q hq => ?_⟩
    exact List.mem_singleton.mp hq ▸ hnew r hr
  positive r hr := by
    rcases List.mem_append.mp hr with hr | hr
    · exact h.positive r hr
    · exact List.mem_singleton.mp hr ▸ hpos
  drain d hdrain := by
    refine (h.drain d hdrain).write hpos hnew fun hpast x hx hle => ?_
    have hdrain : w.drain = some d := hdrain
    simp only [spares, hdrain, hpast, Bool.not_true, Bool.false_or, List.all_eq_true, decide_eq_true_eq] at hspares
    exact hspares x hx hle
  ended_lt := h.ended_lt
  exact := ⟨h.exact.kept, h.exact.cleared, h.exact.above⟩

theorem step (h : Inv lower w) (hspares : spares lower w e = true) (hs : step lower w e = some w') : Inv lower w' := by
  cases e with
  | write row =>
    rw [CapabilitySnapshots.step] at hs
    split_ifs at hs with hguard
    obtain rfl := Option.some.inj hs
    exact h.write hguard.1 (fun r hr => (hguard.2 r hr).1) hspares
  | openTableDrain read =>
    rw [CapabilitySnapshots.step] at hs
    split at hs
    · obtain rfl := Option.some.inj hs
      refine h.withDrain (drainInv_open h.positive ?_)
      split_ifs
      · exact localMaxId_lt _
      · exact w.mirror.nextId_pos
    · cases hs
  | fetch =>
    rw [CapabilitySnapshots.step] at hs
    split at hs
    · rename_i d hdrain
      split_ifs at hs with hstage
      obtain rfl := Option.some.inj hs
      exact h.withDrain ((h.drain d hdrain).fetch h.ascending hstage).after
    · cases hs
  | applyPendingRow outcome =>
    rw [CapabilitySnapshots.step] at hs
    split at hs
    swap
    · cases hs
    rename_i d hdrain
    split at hs
    swap
    · cases hs
    rename_i row pending short hstage
    have hd := h.drain d hdrain
    split at hs
    · obtain rfl := Option.some.inj hs
      exact ⟨h.ascending, h.positive, nofun, h.ended_lt, ⟨h.exact.kept, h.exact.cleared, h.exact.above⟩⟩
    · obtain rfl := Option.some.inj hs
      refine h.shrink (fun mark hmark => shrunk_applyRow hmark row outcome) ?_
      rintro d' ⟨⟩
      exact ((hd.shrink (shrunk_applyRow hd.mark_lt row outcome)).handled hstage).after
  | live row outcome =>
    rw [CapabilitySnapshots.step] at hs
    split_ifs at hs
    obtain rfl := Option.some.inj hs
    exact h.shrink (fun mark hmark => shrunk_applyRow hmark row outcome) fun d hdrain =>
      (h.drain d hdrain).shrink (shrunk_applyRow (h.drain d hdrain).mark_lt row outcome)
  | reconcile read =>
    rw [CapabilitySnapshots.step] at hs
    split at hs
    · rename_i d hdrain
      split_ifs at hs with hstage
      obtain rfl := Option.some.inj hs
      exact h.reconcile (h.drain d hdrain) hstage
    · cases hs
  | delete ok =>
    rw [CapabilitySnapshots.step] at hs
    split at hs
    swap
    · cases hs
    rename_i d hdrain
    split at hs
    swap
    · cases hs
    rename_i stale hstage
    obtain rfl := Option.some.inj hs
    split_ifs with hok
    · exact h.deleteChunk (h.drain d hdrain) hstage
    · exact h.finish (h.drain d hdrain) nofun

end Inv

/-- Over any hub table and any mirror, however live rows, holds and refusals fall among the pages and the
    deletes: where the hub writes no key of an old local row past the last page, the pass is exact. -/
theorem reconciliation_exact {es : List Label} (hasc : hub.Pairwise (·.id < ·.id)) (hpos : ∀ r ∈ hub, 0 < r.id)
    (hspares : Meets (step lower) (fun w e => spares lower w e = true) { hub := hub, mirror := mirror } es)
    (hr : run (step lower) { hub := hub, mirror := mirror } es = some w) : Exact lower w := by
  have hstart : Inv lower { hub := hub, mirror := mirror } := ⟨hasc, hpos, nofun, nofun, nofun, nofun, nofun⟩
  have hinv : Inv lower w := run_inv (fun _ _ _ h hc hs => h.step hc hs) hstart hspares hr
  exact hinv.exact

end

/-! ### A key written past the last page -/

/-- A row of one key. -/
def rowAt (id snapshot_block : ℕ) : SnapshotRow := ⟨id, snapshot_block, "cross_chain", "aa", none⟩

/-- Two boundaries, of which the first comes from another hub. -/
def twoBoundaries : Mirror :=
  (UniqueTable.empty.insertIgnore (capabilitySnapshotKey id (rowAt 7 200)) (rowAt 7 200)).insertIgnore
    (capabilitySnapshotKey id (rowAt 1 100)) (rowAt 1 100)

/-- The hub reaches the boundary while its last page is applied, and says so on the stream. -/
def lateWrite : List Label :=
  [.openTableDrain true, .fetch, .write (rowAt 2 200), .live (rowAt 2 200) .landed, .applyPendingRow .landed,
    .reconcile true, .delete true]

/-- A third boundary, which no page serves. -/
def foreignBoundary : Mirror :=
  twoBoundaries.insertIgnore (capabilitySnapshotKey id (rowAt 9 150)) (rowAt 9 150)

/-- The same, but the hub is there before the page is read. -/
def earlyWrite : List Label :=
  [.openTableDrain true, .write (rowAt 2 200), .fetch, .live (rowAt 2 200) .landed, .applyPendingRow .landed,
    .applyPendingRow .withheld, .reconcile true, .delete true]

/-- The foreign row goes, and it alone. -/
theorem reconciliation_exact_early : ∃ w,
    run (step id) { hub := [rowAt 1 100], mirror := foreignBoundary } earlyWrite = some w ∧
      w.ended.map (·.matched) = some true ∧
      w.removed.map (·.key) = [capabilitySnapshotKey id (rowAt 9 150)] ∧ Exact id w := by
  have hended : (run (step id) { hub := [rowAt 1 100], mirror := foreignBoundary } earlyWrite).map
      (fun w => (w.ended.map (·.matched), w.removed.map (·.key))) =
        some (some true, [capabilitySnapshotKey id (rowAt 9 150)]) := by decide
  obtain ⟨w, hw, hfields⟩ := Option.map_eq_some_iff.mp hended
  obtain ⟨hmatched, hremoved⟩ := Prod.mk.inj hfields
  exact ⟨w, hw, hmatched, hremoved, reconciliation_exact (by decide) (by decide) (by decide) hw⟩

/-- The row of the hub's own second boundary is deleted, since it lies under its old id. -/
theorem not_reconciliation_exact : ¬ ∀ (lower : String → String) (hub : List SnapshotRow) (mirror : Mirror)
    (es : List Label) (w : World), hub.Pairwise (·.id < ·.id) → (∀ r ∈ hub, 0 < r.id) →
      run (step lower) { hub := hub, mirror := mirror } es = some w → Exact lower w := by
  intro hall
  have hlost : (run (step id) { hub := [rowAt 1 100], mirror := twoBoundaries } lateWrite).map (fun w =>
      w.removed.any fun d => d.hub.any fun r => decide (capabilitySnapshotKey id r = d.key)) = some true := by decide
  obtain ⟨w, hw, hany⟩ := Option.map_eq_some_iff.mp hlost
  obtain ⟨d, hd, hany⟩ := List.any_eq_true.mp hany
  obtain ⟨r, hr, hkey⟩ := List.any_eq_true.mp hany
  exact (hall id _ _ _ w (by decide) (by decide) hw).kept d hd r hr (of_decide_eq_true hkey)

end CapabilitySnapshots
