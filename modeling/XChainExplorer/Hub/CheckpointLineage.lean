import XChainExplorer.Lib.Page
import XChainExplorer.Lib.Runs
import XChainExplorer.Lib.UniqueTable

/-! # The lineage of the state checkpoints

    `reconcileStateCheckpoints` moves the mirror to the lineage of the serving hub: it reads the local
    rows, walks every page of the hub, replaces the rows that differ, and removes the rows it read
    whose key no page served. Live checkpoints come in by `INSERT IGNORE` between any two of its
    statements. A checkpoint is its natural key and its content; `created_at`, which the pass does
    not compare, is not part of the content. -/

namespace HubDbSync.Checkpoints

/-- The key of a checkpoint. -/
structure CheckpointKey where
  chain : String
  network : String
  checkpoint_seq : ℕ
  deriving DecidableEq

/-- A checkpoint of the hub. -/
structure HubCheckpoint (C : Type*) where
  id : ℕ
  key : CheckpointKey
  content : C
  deriving DecidableEq

variable {C : Type*}

/-- The rows of a page. -/
def CHECKPOINT_PAGE_LIMIT : ℕ := 10000

/-- The pages of a pass. -/
def CHECKPOINT_MAX_PAGES : ℕ := 1000

/-- Ids in one `DELETE`. -/
def REMOVAL_CHUNK : ℕ := 500

/-- The rows of the network the mirror is scoped to, or of every one. -/
def inScope (scope : Option String) (key : CheckpointKey) : Bool := scope.all fun n => key.network = n

/-- Where the pass stands: walking the pages after the local read, replacing the rows still to do,
    removing the ids still to go, or back with its answer. -/
inductive Pass (C : Type*) where
  | idle
  | paging (prior : List (UniqueRow CheckpointKey C)) (pages : ℕ) (rows : List (HubCheckpoint C))
  | replacing (prior : List (UniqueRow CheckpointKey C)) (served todo : List (HubCheckpoint C))
  | removing (stale : List ℕ)
  | returned (ok : Bool)
  deriving DecidableEq

/-- The hub, the mirror and the pass. Nothing reads `delivered`, the rows of the hub a statement was
    run for. -/
structure State (C : Type*) where
  hub : List (HubCheckpoint C)
  mirror : UniqueTable CheckpointKey C
  delivered : List (HubCheckpoint C)
  pass : Pass C

/-- A step of the hub, of the live feed or of the pass. -/
inductive Label (C : Type*) where
  | commit (row : HubCheckpoint C)
  | live (row : HubCheckpoint C)
  | localRead
  | page
  | replace
  | remove
  | fail
  | close

/-- The page walk goes on behind the last row, and ends with the first short page. -/
def readPage (scope : Option String) (s : State C) (prior : List (UniqueRow CheckpointKey C))
    (pages : ℕ) (rows : List (HubCheckpoint C)) : State C :=
  let lastId := Page.reached HubCheckpoint.id 0 rows
  let page := Page.fetch HubCheckpoint.id s.hub lastId CHECKPOINT_PAGE_LIMIT
  let rows := rows ++ page
  if page.length < CHECKPOINT_PAGE_LIMIT then
    { s with pass := .replacing prior rows (rows.filter fun row => inScope scope row.key) }
  else if pages + 1 < CHECKPOINT_MAX_PAGES then { s with pass := .paging prior (pages + 1) rows }
  else { s with pass := .returned false }

/-- The rows read before the walk whose key it did not serve. -/
def unserved (prior : List (UniqueRow CheckpointKey C)) (served : List (HubCheckpoint C)) :
    List (UniqueRow CheckpointKey C) :=
  prior.filter fun x => x.key ∉ served.map HubCheckpoint.key

section step
variable [DecidableEq C]

/-- One served row: nothing is done where the row read at its key has its content. -/
def replaceRow (mirror : UniqueTable CheckpointKey C) (prior : List (UniqueRow CheckpointKey C))
    (row : HubCheckpoint C) : UniqueTable CheckpointKey C :=
  if prior.any fun x => x.key = row.key ∧ x.value = row.content then mirror
  else mirror.replace row.key row.content

/-- A step, if it can be taken. -/
def step (scope : Option String) (s : State C) : Label C → Option (State C)
  | .commit row =>
    if 0 < row.id ∧ ∀ r ∈ s.hub, r.id < row.id ∧ r.key ≠ row.key then
      some { s with hub := s.hub ++ [row] }
    else none
  | .live row =>
    if row ∈ s.hub then
      -- a row of another network is refused
      if inScope scope row.key then
        some { s with
          mirror := s.mirror.insertIgnore row.key row.content
          delivered := row :: s.delivered }
      else some s
    else none
  | .localRead => match s.pass with
    | .idle =>
      let prior := s.mirror.rows.filter fun x => inScope scope x.key
      if prior = [] then some { s with pass := .returned true }
      else some { s with pass := .paging prior 0 [] }
    | _ => none
  | .page => match s.pass with
    | .paging prior pages rows => some (readPage scope s prior pages rows)
    | _ => none
  | .replace => match s.pass with
    | .replacing prior served (row :: todo) =>
      some { s with
        mirror := replaceRow s.mirror prior row
        delivered := row :: s.delivered
        pass := .replacing prior served todo }
    | .replacing prior served [] =>
      some { s with pass := .removing ((unserved prior served).map (·.id)) }
    | _ => none
  | .remove => match s.pass with
    | .removing [] => some { s with pass := .returned true }
    | .removing stale =>
      some { s with
        mirror := s.mirror.delete fun x => x.id ∈ stale.take REMOVAL_CHUNK
        pass := .removing (stale.drop REMOVAL_CHUNK) }
    | _ => none
  -- a read, a fetch or a write that fails ends the pass
  | .fail => match s.pass with
    | .returned _ => none
    | _ => some { s with pass := .returned false }
  | .close => match s.pass with
    | .returned _ => some { s with pass := .idle }
    | _ => none

end step

/-- The rows the pass is going to remove, once the last page is in. -/
def pendingRemoval (s : State C) : List (UniqueRow CheckpointKey C) :=
  match s.pass with
  | .replacing prior served _ => unserved prior served
  | .removing stale => s.mirror.rows.filter fun x => x.id ∈ stale
  | _ => []

/-- No live row comes in while a row the pass is going to remove still takes its key. -/
def NotShutOut (s : State C) : Label C → Prop
  | .live row => ∀ x ∈ pendingRemoval s, x.key ≠ row.key
  | _ => True

instance (s : State C) (label : Label C) : Decidable (NotShutOut s label) :=
  match label with
  | .live row => inferInstanceAs (Decidable (∀ x ∈ pendingRemoval s, x.key ≠ row.key))
  | .commit _ | .localRead | .page | .replace | .remove | .fail | .close =>
    inferInstanceAs (Decidable True)

/-! ### What the pass keeps -/

/-- A local row of the lineage of the hub. -/
def Current (hub : List (HubCheckpoint C)) (x : UniqueRow CheckpointKey C) : Prop :=
  ∃ r ∈ hub, r.key = x.key ∧ r.content = x.value

/-- The rows the pass has read locally, against the mirror as it is now. -/
structure ReadFrom (scope : Option String) (mirror : UniqueTable CheckpointKey C)
    (prior : List (UniqueRow CheckpointKey C)) : Prop where
  scope : ∀ x ∈ prior, inScope scope x.key
  keys : (prior.map (·.key)).Nodup
  old : ∀ x ∈ prior, x.id < mirror.nextId
  same : ∀ x ∈ mirror, ∀ y ∈ prior, x.id = y.id → x = y
  occupied : ∀ x ∈ prior, mirror.Occupied x.key

/-- What holds at each place of the pass. -/
def PassInv (scope : Option String) (s : State C) : Prop :=
  match s.pass with
  | .idle | .returned false => True
  | .paging prior _ rows =>
    ReadFrom scope s.mirror prior ∧
      (∀ x ∈ s.mirror, inScope scope x.key → x ∈ prior ∨ Current s.hub x) ∧
      ∀ r, r ∈ rows ↔ r ∈ s.hub ∧ r.id ≤ Page.reached HubCheckpoint.id 0 rows
  | .replacing prior served todo =>
    ReadFrom scope s.mirror prior ∧
      (∀ x ∈ s.mirror, inScope scope x.key →
        x ∈ unserved prior served ∨ x ∈ prior ∧ x.key ∈ todo.map HubCheckpoint.key ∨
          Current s.hub x) ∧
      (∀ r ∈ served, r ∈ s.hub) ∧ (∀ r ∈ todo, r ∈ served ∧ inScope scope r.key) ∧
      ∀ x ∈ unserved prior served, ∀ r ∈ s.delivered, r.key ≠ x.key
  | .removing stale =>
    (∀ x ∈ s.mirror, inScope scope x.key → x.id ∈ stale ∨ Current s.hub x) ∧
      (∀ i ∈ stale, i < s.mirror.nextId) ∧
      ∀ x ∈ s.mirror, x.id ∈ stale → ∀ r ∈ s.delivered, r.key ≠ x.key
  | .returned true => ∀ x ∈ s.mirror, inScope scope x.key → Current s.hub x

/-- What holds of every reachable state. -/
structure Inv (scope : Option String) (s : State C) : Prop where
  hub_ids : s.hub.Pairwise (·.id < ·.id)
  hub_pos : ∀ r ∈ s.hub, 0 < r.id
  hub_keys : ∀ r ∈ s.hub, ∀ r' ∈ s.hub, r.key = r'.key → r = r'
  delivered : ∀ r ∈ s.delivered, r ∈ s.hub ∧ inScope scope r.key
  occupied : ∀ r ∈ s.delivered, s.mirror.Occupied r.key
  pass : PassInv scope s

theorem Current.mono {hub hub' : List (HubCheckpoint C)} (h : ∀ r ∈ hub, r ∈ hub')
    {x : UniqueRow CheckpointKey C} (hx : Current hub x) : Current hub' x := by
  obtain ⟨r, hr, hk, hc⟩ := hx
  exact ⟨r, h r hr, hk, hc⟩

section frame
variable {scope : Option String} {mirror mirror' : UniqueTable CheckpointKey C}
  {prior : List (UniqueRow CheckpointKey C)}

/-- A read keeps its sense in a mirror whose new rows have new ids. -/
theorem ReadFrom.of_mirror (h : ReadFrom scope mirror prior) (hnext : mirror.nextId ≤ mirror'.nextId)
    (hnew : ∀ x ∈ mirror', x ∈ mirror ∨ mirror.nextId ≤ x.id)
    (hocc : ∀ k, mirror.Occupied k → mirror'.Occupied k) : ReadFrom scope mirror' prior where
  scope := h.scope
  keys := h.keys
  old x hx := (h.old x hx).trans_le hnext
  same x hx y hy hid := by
    rcases hnew x hx with hx | hle
    · exact h.same x hx y hy hid
    · exact absurd (h.old y hy) (by omega)
  occupied x hx := hocc _ (h.occupied x hx)

theorem ReadFrom.insertIgnore (h : ReadFrom scope mirror prior) (key : CheckpointKey) (content : C) :
    ReadFrom scope (mirror.insertIgnore key content) prior := by
  refine h.of_mirror UniqueTable.nextId_le_insertIgnore (fun x hx => ?_) fun _ hk => hk.insertIgnore
  rcases UniqueTable.mem_insertIgnore.mp hx with hx | ⟨-, rfl⟩
  · exact .inl hx
  · exact .inr le_rfl

section replace
variable [DecidableEq C] {row : HubCheckpoint C}

theorem mem_replaceRow {x : UniqueRow CheckpointKey C} (hx : x ∈ replaceRow mirror prior row) :
    x ∈ mirror ∧ (x.key = row.key → ∃ y ∈ prior, y.key = row.key ∧ y.value = row.content) ∨
      x = ⟨mirror.nextId, row.key, row.content⟩ := by
  unfold replaceRow at hx
  split_ifs at hx with hprior
  · obtain ⟨y, hy, hyrow⟩ := List.any_eq_true.mp hprior
    exact .inl ⟨hx, fun _ => ⟨y, hy, by simpa using hyrow⟩⟩
  · rcases UniqueTable.mem_replace.mp hx with ⟨hx, hne⟩ | hx
    · exact .inl ⟨hx, fun hk => absurd hk hne⟩
    · exact .inr hx

theorem occupied_replaceRow {k : CheckpointKey} (hk : mirror.Occupied k) :
    (replaceRow mirror prior row).Occupied k := by
  unfold replaceRow
  split_ifs
  · exact hk
  · exact hk.replace

/-- The key of a served row is taken once the row is done. -/
theorem occupied_replaceRow_self (h : ReadFrom scope mirror prior) (row : HubCheckpoint C) :
    (replaceRow mirror prior row).Occupied row.key := by
  unfold replaceRow
  split_ifs with hprior
  · obtain ⟨y, hy, hyrow⟩ := List.any_eq_true.mp hprior
    obtain ⟨hk, -⟩ : y.key = row.key ∧ y.value = row.content := by simpa using hyrow
    exact hk ▸ h.occupied y hy
  · exact ⟨_, UniqueTable.mem_replace.mpr (.inr rfl), rfl⟩

theorem ReadFrom.replaceRow (h : ReadFrom scope mirror prior) (row : HubCheckpoint C) :
    ReadFrom scope (replaceRow mirror prior row) prior := by
  refine h.of_mirror ?_ (fun x hx => ?_) fun _ => occupied_replaceRow
  · unfold Checkpoints.replaceRow
    split_ifs
    · exact le_rfl
    · exact UniqueTable.nextId_le_replace
  · rcases mem_replaceRow hx with ⟨hx, -⟩ | rfl
    · exact .inl hx
    · exact .inr le_rfl

end replace

end frame

/-! ### Each step -/

section steps
variable {scope : Option String} {s : State C}

/-- Ids of the walk so far are ids of the hub, or none was read. -/
theorem reached_lt {rows : List (HubCheckpoint C)} (hrows : ∀ r ∈ rows, r ∈ s.hub) {row : HubCheckpoint C}
    (hpos : 0 < row.id) (hnew : ∀ r ∈ s.hub, r.id < row.id) :
    Page.reached HubCheckpoint.id 0 rows < row.id := by
  by_cases hnil : rows = []
  · simpa [hnil] using hpos
  · obtain ⟨x, hx, hid⟩ := Page.reached_mem HubCheckpoint.id 0 hnil
    exact hid ▸ hnew x (hrows x hx)

theorem Inv.commit {row : HubCheckpoint C} (h : Inv scope s) (hpos : 0 < row.id)
    (hnew : ∀ r ∈ s.hub, r.id < row.id ∧ r.key ≠ row.key) :
    Inv scope { s with hub := s.hub ++ [row] } where
  hub_ids := by
    refine List.pairwise_append.mpr ⟨h.hub_ids, List.pairwise_singleton _ _, ?_⟩
    intro r hr r' hr'
    exact (List.mem_singleton.mp hr') ▸ (hnew r hr).1
  hub_pos r hr := by
    rcases List.mem_append.mp hr with hr | hr
    · exact h.hub_pos r hr
    · exact List.mem_singleton.mp hr ▸ hpos
  hub_keys r hr r' hr' hk := by
    rcases List.mem_append.mp hr with hr | hr <;> rcases List.mem_append.mp hr' with hr' | hr'
    · exact h.hub_keys r hr r' hr' hk
    · exact absurd (List.mem_singleton.mp hr' ▸ hk) (hnew r hr).2
    · exact absurd (List.mem_singleton.mp hr ▸ hk).symm (hnew r' hr').2
    · rw [List.mem_singleton.mp hr, List.mem_singleton.mp hr']
  delivered r hr := ⟨List.mem_append_left _ (h.delivered r hr).1, (h.delivered r hr).2⟩
  occupied := h.occupied
  pass := by
    have hmono : ∀ x, Current s.hub x → Current (s.hub ++ [row]) x :=
      fun x => Current.mono fun r => List.mem_append_left _
    have hpass := h.pass
    unfold PassInv at hpass ⊢
    cases hp : s.pass with
    | idle => trivial
    | paging prior pages rows =>
      rw [hp] at hpass
      obtain ⟨hread, hmirror, hcover⟩ := hpass
      refine ⟨hread, fun x hx hin => (hmirror x hx hin).imp_right (hmono x), fun r => ?_⟩
      have hlt := reached_lt (fun r hr => ((hcover r).mp hr).1) hpos fun r hr => (hnew r hr).1
      rw [hcover r]
      constructor
      · rintro ⟨hr, hle⟩
        exact ⟨List.mem_append_left _ hr, hle⟩
      · rintro ⟨hr, hle⟩
        rcases List.mem_append.mp hr with hr | hr
        · exact ⟨hr, hle⟩
        · exact absurd (List.mem_singleton.mp hr ▸ hle) hlt.not_ge
    | replacing prior served todo =>
      rw [hp] at hpass
      obtain ⟨hread, hmirror, hserved, htodo, hfree⟩ := hpass
      exact ⟨hread, fun x hx hin => (hmirror x hx hin).imp_right fun h => h.imp_right (hmono x),
        fun r hr => List.mem_append_left _ (hserved r hr), htodo, hfree⟩
    | removing stale =>
      rw [hp] at hpass
      exact ⟨fun x hx hin => (hpass.1 x hx hin).imp_right (hmono x), hpass.2⟩
    | returned ok =>
      rw [hp] at hpass
      cases ok with
      | false => trivial
      | true => exact fun x hx hin => hmono x (hpass x hx hin)

theorem Inv.live {row : HubCheckpoint C} (h : Inv scope s) (hrow : row ∈ s.hub)
    (hin : inScope scope row.key) (hc : NotShutOut s (.live row)) :
    Inv scope { s with
      mirror := s.mirror.insertIgnore row.key row.content
      delivered := row :: s.delivered } where
  hub_ids := h.hub_ids
  hub_pos := h.hub_pos
  hub_keys := h.hub_keys
  delivered := List.forall_mem_cons.mpr ⟨⟨hrow, hin⟩, h.delivered⟩
  occupied := List.forall_mem_cons.mpr
    ⟨UniqueTable.occupied_insertIgnore, fun r hr => (h.occupied r hr).insertIgnore⟩
  pass := by
    have hnew : ∀ x ∈ s.mirror.insertIgnore row.key row.content,
        x ∈ s.mirror ∨ x.id = s.mirror.nextId ∧ Current s.hub x := by
      intro x hx
      rcases UniqueTable.mem_insertIgnore.mp hx with hx | ⟨-, rfl⟩
      · exact .inl hx
      · exact .inr ⟨rfl, row, hrow, rfl, rfl⟩
    have hpass := h.pass
    unfold NotShutOut pendingRemoval at hc
    unfold PassInv at hpass ⊢
    cases hp : s.pass with
    | idle => trivial
    | paging prior pages rows =>
      rw [hp] at hpass
      obtain ⟨hread, hmirror, hcover⟩ := hpass
      refine ⟨hread.insertIgnore _ _, fun x hx hin => ?_, hcover⟩
      rcases hnew x hx with hx | ⟨-, hx⟩
      · exact hmirror x hx hin
      · exact .inr hx
    | replacing prior served todo =>
      rw [hp] at hpass hc
      obtain ⟨hread, hmirror, hserved, htodo, hfree⟩ := hpass
      refine ⟨hread.insertIgnore _ _, fun x hx hin => ?_, hserved, htodo, fun x hx => ?_⟩
      · rcases hnew x hx with hx | ⟨-, hx⟩
        · exact hmirror x hx hin
        · exact .inr (.inr hx)
      · exact List.forall_mem_cons.mpr ⟨(hc x hx).symm, hfree x hx⟩
    | removing stale =>
      rw [hp] at hpass hc
      obtain ⟨hmirror, hold, hfree⟩ := hpass
      refine ⟨fun x hx hin => ?_, fun i hi => (hold i hi).trans_le UniqueTable.nextId_le_insertIgnore,
        fun x hx hid => ?_⟩
      · rcases hnew x hx with hx | ⟨-, hx⟩
        · exact hmirror x hx hin
        · exact .inr hx
      · rcases hnew x hx with hx | ⟨hnext, -⟩
        · have hpending : x ∈ s.mirror.rows.filter fun x => x.id ∈ stale := by
            simpa using ⟨hx, hid⟩
          exact List.forall_mem_cons.mpr ⟨(hc x hpending).symm, hfree x hx hid⟩
        · exact absurd (hold _ (hnext ▸ hid)) (lt_irrefl _)
    | returned ok =>
      rw [hp] at hpass
      cases ok with
      | false => trivial
      | true =>
        intro x hx hin
        rcases hnew x hx with hx | ⟨-, hx⟩
        · exact hpass x hx hin
        · exact hx

/-- A pass that changes nothing but its place. -/
theorem Inv.of_pass (h : Inv scope s) {pass : Pass C} (hpass : PassInv scope { s with pass := pass }) :
    Inv scope { s with pass := pass } where
  hub_ids := h.hub_ids
  hub_pos := h.hub_pos
  hub_keys := h.hub_keys
  delivered := h.delivered
  occupied := h.occupied
  pass := hpass

theorem readFrom_localRead (scope : Option String) (mirror : UniqueTable CheckpointKey C) :
    ReadFrom scope mirror (mirror.rows.filter fun x => inScope scope x.key) where
  scope x hx := by simpa using (List.mem_filter.mp hx).2
  keys := mirror.keys_nodup.sublist (List.filter_sublist.map _)
  old x hx := mirror.ids_lt x (List.mem_of_mem_filter hx)
  same x hx y hy hid := UniqueTable.eq_of_id_eq hx (List.mem_of_mem_filter hy) hid
  occupied x hx := ⟨x, List.mem_of_mem_filter hx, rfl⟩

theorem Inv.localRead (h : Inv scope s) {prior : List (UniqueRow CheckpointKey C)}
    (hprior : prior = s.mirror.rows.filter fun x => inScope scope x.key) :
    Inv scope { s with pass := .paging prior 0 [] } := by
  subst hprior
  refine h.of_pass ⟨readFrom_localRead scope s.mirror, fun x hx hin => ?_, fun r => ?_⟩
  · exact .inl (List.mem_filter.mpr ⟨hx, by simpa using hin⟩)
  · simp only [List.not_mem_nil, Page.reached_nil, false_iff, not_and, not_le]
    exact h.hub_pos r

/-- An empty local read: nothing in scope was delivered yet. -/
theorem Inv.localRead_nil (h : Inv scope s)
    (hnil : s.mirror.rows.filter (fun x => inScope scope x.key) = []) :
    Inv scope { s with pass := .returned true } := by
  refine h.of_pass fun x hx hin => ?_
  have hmem : x ∈ s.mirror.rows.filter fun x => inScope scope x.key :=
    List.mem_filter.mpr ⟨hx, by simpa using hin⟩
  rw [hnil] at hmem
  cases hmem

theorem mem_unserved {prior : List (UniqueRow CheckpointKey C)} {served : List (HubCheckpoint C)}
    {x : UniqueRow CheckpointKey C} :
    x ∈ unserved prior served ↔ x ∈ prior ∧ ∀ r ∈ served, r.key ≠ x.key := by
  simp [unserved]

/-- What was delivered before the last page is among the rows served, so its key is not removed. -/
theorem Inv.readPage (h : Inv scope s) {prior : List (UniqueRow CheckpointKey C)} {pages : ℕ}
    {rows : List (HubCheckpoint C)} (hp : s.pass = .paging prior pages rows) :
    Inv scope (readPage scope s prior pages rows) := by
  have hpass := h.pass
  unfold PassInv at hpass
  rw [hp] at hpass
  obtain ⟨hread, hmirror, hcover⟩ := hpass
  unfold Checkpoints.readPage
  simp only
  split_ifs with hshort hmore
  · have hall := Page.mem_append_fetch_of_short hcover hshort
    refine h.of_pass ⟨hread, fun x hx hin => ?_, fun r hr => (hall r).mp hr, fun r hr => ?_,
      fun x hx r hr => ?_⟩
    · rcases hmirror x hx hin with hx | hx
      · by_cases hserved : ∃ r ∈ s.hub, r.key = x.key
        · obtain ⟨r, hr, hk⟩ := hserved
          refine .inr (.inl ⟨hx, List.mem_map.mpr ⟨r, List.mem_filter.mpr ⟨(hall r).mpr hr, ?_⟩, hk⟩⟩)
          rwa [hk]
        · refine .inl (mem_unserved.mpr ⟨hx, fun r hr hk => hserved ⟨r, (hall r).mp hr, hk⟩⟩)
      · exact .inr (.inr hx)
    · exact ⟨(List.mem_filter.mp hr).1, by simpa using (List.mem_filter.mp hr).2⟩
    · exact (mem_unserved.mp hx).2 r ((hall r).mpr (h.delivered r hr).1)
  · exact h.of_pass ⟨hread, hmirror, Page.mem_append_fetch h.hub_ids hcover⟩
  · exact h.of_pass trivial

theorem Inv.replace [DecidableEq C] (h : Inv scope s) {prior : List (UniqueRow CheckpointKey C)}
    {served todo : List (HubCheckpoint C)} {row : HubCheckpoint C}
    (hp : s.pass = .replacing prior served (row :: todo)) :
    Inv scope { s with
      mirror := replaceRow s.mirror prior row
      delivered := row :: s.delivered
      pass := .replacing prior served todo } := by
  have hpass := h.pass
  unfold PassInv at hpass
  rw [hp] at hpass
  obtain ⟨hread, hmirror, hserved, htodo, hfree⟩ := hpass
  obtain ⟨⟨hrow, hin⟩, htodo⟩ := List.forall_mem_cons.mp htodo
  exact
    { hub_ids := h.hub_ids
      hub_pos := h.hub_pos
      hub_keys := h.hub_keys
      delivered := List.forall_mem_cons.mpr ⟨⟨hserved row hrow, hin⟩, h.delivered⟩
      occupied := List.forall_mem_cons.mpr
        ⟨occupied_replaceRow_self hread row, fun r hr => occupied_replaceRow (h.occupied r hr)⟩
      pass := by
        refine ⟨hread.replaceRow row, fun x hx hxin => ?_, hserved, htodo, fun x hx => ?_⟩
        · rcases mem_replaceRow hx with ⟨hx, hkept⟩ | rfl
          · rcases hmirror x hx hxin with hstale | ⟨hprior, hleft⟩ | hcur
            · exact .inl hstale
            · rw [List.map_cons, List.mem_cons] at hleft
              rcases hleft with hk | hleft
              · -- the row at the key of a served one stays only where it has its content
                obtain ⟨y, hy, hyk, hyv⟩ := hkept hk
                obtain rfl : x = y :=
                  List.inj_on_of_nodup_map hread.keys hprior hy (hk.trans hyk.symm)
                exact .inr (.inr ⟨row, hserved row hrow, hyk.symm, hyv.symm⟩)
              · exact .inr (.inl ⟨hprior, hleft⟩)
            · exact .inr (.inr hcur)
          · exact .inr (.inr ⟨row, hserved row hrow, rfl, rfl⟩)
        · exact List.forall_mem_cons.mpr ⟨(mem_unserved.mp hx).2 row hrow, hfree x hx⟩ }

theorem Inv.replaced (h : Inv scope s) {prior : List (UniqueRow CheckpointKey C)}
    {served : List (HubCheckpoint C)} (hp : s.pass = .replacing prior served []) :
    Inv scope { s with pass := .removing ((unserved prior served).map (·.id)) } := by
  have hpass := h.pass
  unfold PassInv at hpass
  rw [hp] at hpass
  obtain ⟨hread, hmirror, -, -, hfree⟩ := hpass
  refine h.of_pass ⟨fun x hx hin => ?_, fun i hi => ?_, fun x hx hid => ?_⟩
  · rcases hmirror x hx hin with hstale | ⟨-, hnone⟩ | hcur
    · exact .inl (List.mem_map.mpr ⟨x, hstale, rfl⟩)
    · cases hnone
    · exact .inr hcur
  · obtain ⟨y, hy, rfl⟩ := List.mem_map.mp hi
    exact hread.old y (mem_unserved.mp hy).1
  · -- an id the pass read is still the row it read
    obtain ⟨y, hy, hid⟩ := List.mem_map.mp hid
    obtain rfl := hread.same x hx y (mem_unserved.mp hy).1 hid.symm
    exact hfree x hy

theorem Inv.remove (h : Inv scope s) {stale : List ℕ} (hp : s.pass = .removing stale) :
    Inv scope { s with
      mirror := s.mirror.delete fun x => x.id ∈ stale.take REMOVAL_CHUNK
      pass := .removing (stale.drop REMOVAL_CHUNK) } := by
  have hpass := h.pass
  unfold PassInv at hpass
  rw [hp] at hpass
  obtain ⟨hmirror, hold, hfree⟩ := hpass
  have hsplit : ∀ i ∈ stale, i ∈ stale.take REMOVAL_CHUNK ∨ i ∈ stale.drop REMOVAL_CHUNK := by
    intro i hi
    rw [← List.take_append_drop REMOVAL_CHUNK stale] at hi
    exact List.mem_append.mp hi
  have hkept : ∀ x, (x ∈ s.mirror.delete fun x => x.id ∈ stale.take REMOVAL_CHUNK) →
      x ∈ s.mirror ∧ x.id ∉ stale.take REMOVAL_CHUNK := by
    intro x hx
    simpa using UniqueTable.mem_delete.mp hx
  exact
    { hub_ids := h.hub_ids
      hub_pos := h.hub_pos
      hub_keys := h.hub_keys
      delivered := h.delivered
      occupied := by
        intro r hr
        obtain ⟨x, hx, hk⟩ := h.occupied r hr
        refine ⟨x, UniqueTable.mem_delete.mpr ⟨hx, ?_⟩, hk⟩
        by_contra hid
        have hid : x.id ∈ stale.take REMOVAL_CHUNK := by simpa using hid
        exact hfree x hx (List.mem_of_mem_take hid) r hr hk.symm
      pass := by
        refine ⟨fun x hx hin => ?_, fun i hi => hold i (List.mem_of_mem_drop hi),
          fun x hx hid => hfree x (hkept x hx).1 (List.mem_of_mem_drop hid)⟩
        rcases hmirror x (hkept x hx).1 hin with hid | hcur
        · exact .inl ((hsplit _ hid).resolve_left (hkept x hx).2)
        · exact .inr hcur }

theorem Inv.removed (h : Inv scope s) (hp : s.pass = .removing []) :
    Inv scope { s with pass := .returned true } := by
  have hpass := h.pass
  unfold PassInv at hpass
  rw [hp] at hpass
  refine h.of_pass fun x hx hin => ?_
  rcases hpass.1 x hx hin with hid | hcur
  · cases hid
  · exact hcur

theorem Inv.step [DecidableEq C] {label : Label C} {t : State C} (h : Inv scope s)
    (hc : NotShutOut s label) (hs : step scope s label = some t) : Inv scope t := by
  cases label with
  | commit row =>
    simp only [Checkpoints.step] at hs
    split_ifs at hs with hnew
    cases hs
    exact h.commit hnew.1 hnew.2
  | live row =>
    simp only [Checkpoints.step] at hs
    split_ifs at hs with hrow hin
    · cases hs
      exact h.live hrow hin hc
    · cases hs
      exact h
  | localRead =>
    simp only [Checkpoints.step] at hs
    split at hs
    · split_ifs at hs with hnil
      · cases hs
        exact h.localRead_nil hnil
      · cases hs
        exact h.localRead rfl
    · cases hs
  | page =>
    simp only [Checkpoints.step] at hs
    split at hs
    case h_1 hp =>
      cases hs
      exact h.readPage hp
    · cases hs
  | replace =>
    simp only [Checkpoints.step] at hs
    split at hs
    case h_1 hp =>
      cases hs
      exact h.replace hp
    case h_2 hp =>
      cases hs
      exact h.replaced hp
    · cases hs
  | remove =>
    simp only [Checkpoints.step] at hs
    split at hs
    case h_1 hp =>
      cases hs
      exact h.removed hp
    case h_2 hp =>
      cases hs
      exact h.remove hp
    · cases hs
  | fail =>
    simp only [Checkpoints.step] at hs
    split at hs
    · cases hs
    · cases hs
      exact h.of_pass trivial
  | close =>
    simp only [Checkpoints.step] at hs
    split at hs
    · cases hs
      exact h.of_pass trivial
    · cases hs

end steps

/-! ### Convergence -/

/-- No pass is running and nothing of the hub was delivered yet: the mirror holds any rows at all. -/
structure Fresh (s : State C) : Prop where
  hub_ids : s.hub.Pairwise (·.id < ·.id)
  hub_pos : ∀ r ∈ s.hub, 0 < r.id
  hub_keys : (s.hub.map (·.key)).Nodup
  delivered : s.delivered = []
  pass : s.pass = .idle

theorem Fresh.inv {s : State C} (h : Fresh s) (scope : Option String) : Inv scope s where
  hub_ids := h.hub_ids
  hub_pos := h.hub_pos
  hub_keys _ hr _ hr' hk := List.inj_on_of_nodup_map h.hub_keys hr hr' hk
  delivered r hr := by simp [h.delivered] at hr
  occupied r hr := by simp [h.delivered] at hr
  pass := by
    unfold PassInv
    rw [h.pass]
    trivial

/-- In a run in which no live row is shut out by a row the pass is going to remove, a pass that
    returns true leaves the content of the hub at every key it has delivered. -/
theorem checkpoints_converge [DecidableEq C] {scope : Option String} {s t : State C}
    {labels : List (Label C)} (hs : Fresh s) (hm : Runs.Meets (step scope) NotShutOut s labels)
    (hr : Runs.run (step scope) s labels = some t) (hret : t.pass = .returned true) :
    ∀ r ∈ t.delivered, ∃ x ∈ t.mirror, x.key = r.key ∧ x.value = r.content := by
  have hinv : Inv scope t := Runs.run_inv (fun _ _ _ => Inv.step) (hs.inv scope) hm hr
  intro r hr
  obtain ⟨x, hx, hk⟩ := hinv.occupied r hr
  obtain ⟨hrhub, hin⟩ := hinv.delivered r hr
  have hclean := hinv.pass
  unfold PassInv at hclean
  rw [hret] at hclean
  obtain ⟨r', hr', hk', hv⟩ := hclean x hx (hk ▸ hin)
  obtain rfl := hinv.hub_keys r' hr' r hrhub (hk'.trans hk)
  exact ⟨x, hx, hk, hv.symm⟩

/-! ### One stale row -/

/-- The checkpoint at sequence 1, on the hub. -/
def firstCheckpoint : HubCheckpoint String := ⟨1, ⟨"BTC", "mainnet", 1⟩, "rebuilt"⟩

/-- A mirror that holds another lineage at sequence 1, and a hub with the given rows. -/
def staleMirror (hub : List (HubCheckpoint String)) : State String where
  hub := hub
  mirror := UniqueTable.empty.insertIgnore ⟨"BTC", "mainnet", 1⟩ "replaced"
  delivered := []
  pass := .idle

/-- The hub commits the row and streams it before the walk: a page serves it as well. -/
def liveBeforePage : List (Label String) :=
  [.localRead, .commit firstCheckpoint, .live firstCheckpoint, .page, .replace, .replace, .remove]

theorem checkpoints_converge_replaced : ∃ t,
    Runs.run (step (some "mainnet")) (staleMirror []) liveBeforePage = some t ∧
      firstCheckpoint ∈ t.delivered ∧
      ∀ r ∈ t.delivered, ∃ x ∈ t.mirror, x.key = r.key ∧ x.value = r.content := by
  obtain ⟨t, hr, ht⟩ : ∃ t,
      Runs.run (step (some "mainnet")) (staleMirror []) liveBeforePage = some t ∧
        (t.pass, t.delivered) = (.returned true, [firstCheckpoint, firstCheckpoint]) :=
    Option.map_eq_some_iff.mp (by decide +kernel)
  simp only [Prod.mk.injEq] at ht
  have hfresh : Fresh (staleMirror []) := ⟨by decide, by decide, by decide, rfl, rfl⟩
  exact ⟨t, hr, by simp [ht.2], checkpoints_converge hfresh (by decide +kernel) hr ht.1⟩

/-- The row comes in after the walk: the stale row shuts it out and is then removed. -/
theorem checkpoints_diverge :
    ¬ ∀ (scope : Option String) (s t : State String) (labels : List (Label String)), Fresh s →
      Runs.run (step scope) s labels = some t → t.pass = .returned true →
      ∀ r ∈ t.delivered, ∃ x ∈ t.mirror, x.key = r.key ∧ x.value = r.content := by
  intro hclaim
  obtain ⟨t, hr, ht⟩ : ∃ t, Runs.run (step (some "mainnet")) (staleMirror [])
      [.localRead, .page, .commit firstCheckpoint, .live firstCheckpoint, .replace, .remove,
        .remove] = some t ∧
        (t.pass, t.delivered, t.mirror.rows) = (.returned true, [firstCheckpoint], []) :=
    Option.map_eq_some_iff.mp (by decide +kernel)
  simp only [Prod.mk.injEq] at ht
  obtain ⟨hpass, hdelivered, hrows⟩ := ht
  have hfresh : Fresh (staleMirror []) := ⟨by decide, by decide, by decide, rfl, rfl⟩
  obtain ⟨x, hx, -⟩ := hclaim _ _ _ _ hfresh hr hpass firstCheckpoint (by simp [hdelivered])
  rw [UniqueTable.mem_def, hrows] at hx
  cases hx

end HubDbSync.Checkpoints
