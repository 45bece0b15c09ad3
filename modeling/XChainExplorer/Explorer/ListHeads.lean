import XChainExplorer.Lib.ParentChain
import Mathlib.Algebra.Order.Group.Nat

/-! # The head of a list's edits

    An edit of a list names the list it edits, and holds the membership that results. A set of
    references is walked up to the creates with one query a hop, and the newest valid edit of each
    create is asked for in one query more. -/

namespace ListMembership

/-! ### The tables -/

/-- A row of `lists`, with its status by name: a create names no list. -/
structure ListRow where
  action_index : ℕ
  list_action_index : Option ℕ := none
  status : Option String := none
  deriving DecidableEq

/-- The `lists` table, unique on the action index. -/
structure Lists where
  rows : List ListRow
  unique : (rows.map (·.action_index)).Nodup

/-- The rows by their index, a later one over an earlier. -/
def rowAt (rows : List ListRow) (n : ℕ) : Option ListRow := rows.reverse.find? fun row => row.action_index = n

/-- What the rows say of an index: no row, or what its row names. -/
def parentsOf (rows : List ListRow) (n : ℕ) : Option (Option ℕ) := (rowAt rows n).map (·.list_action_index)

/-- The list an edit names. -/
def Lists.parent (t : Lists) (n : ℕ) : Option ℕ := (rowAt t.rows n).bind (·.list_action_index)

/-! ### The walk -/

/-- A reference on its way up: where it stands, where it has stood, and whether it goes on. -/
structure Walk where
  root : ℕ
  seen : List ℕ := []
  pending : Bool := true
  deriving DecidableEq

/-- One hop towards the root. -/
def Walk.step (parents : ℕ → Option (Option ℕ)) (w : Walk) : Walk :=
  if !w.pending then w
  else if w.root ∈ w.seen then { w with pending := false }
  else match parents w.root with
    | some (some parent) => { root := parent, seen := w.root :: w.seen }
    | _ => { root := w.root, seen := w.root :: w.seen, pending := false }

/-- One query for all references that are still on their way. -/
def hop (t : Lists) (walks : List (ℕ × Walk)) : List (ℕ × Walk) :=
  let frontier := ((walks.filter fun e => e.2.pending).map fun e => e.2.root).dedup
  let rows := t.rows.filter fun row => row.action_index ∈ frontier
  walks.map fun e => (e.1, e.2.step (parentsOf rows))

/-- The most hops. -/
def HOPS : ℕ := 16

/-- The roots of some lists. -/
def getListRootIndexes (t : Lists) (action_indexes : List ℕ) : List (ℕ × ℕ) :=
  ((hop t)^[HOPS] (action_indexes.dedup.map fun n => (n, { root := n }))).map fun e => (e.1, e.2.root)

/-- The root of one. -/
def getListRootIndex (t : Lists) (action_index : ℕ) : ℕ :=
  ((getListRootIndexes t [action_index]).lookup action_index).getD action_index

/-! ### The heads -/

/-- The valid edits that name `root`. -/
def Lists.validEdits (t : Lists) (root : ℕ) : List ℕ :=
  (t.rows.filter fun l => l.list_action_index = some root ∧ l.status = some "valid").map (·.action_index)

/-- `GROUP BY list_action_index`. -/
def Lists.headRows (t : Lists) (distinct : List ℕ) : List (ℕ × ℕ) :=
  distinct.filterMap fun root => (t.validEdits root).max?.map fun head => (root, head)

/-- The heads of some lists. -/
def getListHeadIndexes (t : Lists) (action_indexes : List ℕ) : List (ℕ × ℕ) :=
  let roots := getListRootIndexes t action_indexes
  let heads := t.headRows (roots.map (·.2)).dedup
  roots.map fun e => (e.1, (heads.lookup e.2).getD e.2)

/-- The head of one. -/
def getListHeadIndex (t : Lists) (action_index : ℕ) : ℕ :=
  ((getListHeadIndexes t [action_index]).lookup action_index).getD action_index

/-! ### What is meant -/

/-- The list so many edits up. -/
def Lists.up (t : Lists) : ℕ → ℕ → Option ℕ := ParentChain.up t.parent

/-- The create of the reference's tree, at its depth. -/
def Lists.RootAt (t : Lists) : ℕ → ℕ → ℕ → Prop := ParentChain.RootAt t.parent

/-- No list is an edit of itself. -/
def Lists.Acyclic (t : Lists) : Prop := ParentChain.Acyclic t.parent

/-- A valid edit in the tree of a create. -/
def Lists.ValidEdit (t : Lists) (root edit : ℕ) : Prop :=
  (∃ row ∈ t.rows, row.action_index = edit ∧ row.status = some "valid") ∧ ∃ k, t.up (k + 1) edit = some root

/-- The greatest of the valid edits in the tree, or the create where none is valid. -/
def Lists.IsHead (t : Lists) (root head : ℕ) : Prop :=
  (t.ValidEdit root head ∧ ∀ edit, t.ValidEdit root edit → edit ≤ head) ∨
    (head = root ∧ ∀ edit, ¬t.ValidEdit root edit)

/-! ### A set of walks is each of them -/

variable {t : Lists} {n : ℕ}

theorem rowAt_eq_some {rows : List ListRow} (hrows : (rows.map (·.action_index)).Nodup) {row : ListRow} :
    rowAt rows n = some row ↔ row ∈ rows ∧ row.action_index = n := by
  constructor
  · intro h
    exact ⟨List.mem_reverse.mp (List.mem_of_find?_eq_some h), by simpa using List.find?_some h⟩
  · rintro ⟨hrow, hn⟩
    obtain ⟨found, hfound⟩ := Option.isSome_iff_exists.mp
      (List.find?_isSome.mpr ⟨row, List.mem_reverse.mpr hrow, by simpa using hn⟩ : (rowAt rows n).isSome)
    have hmem : found ∈ rows := List.mem_reverse.mp (List.mem_of_find?_eq_some hfound)
    have hindex : found.action_index = n := by simpa using List.find?_some hfound
    rw [rowAt, hfound, List.inj_on_of_nodup_map hrows hmem hrow (hindex.trans hn.symm)]

/-- A query for some indexes answers each of them as the table would. -/
theorem parentsOf_filter {frontier : List ℕ} (hn : n ∈ frontier) :
    parentsOf (t.rows.filter fun row => row.action_index ∈ frontier) n = parentsOf t.rows n := by
  have hnodup : ((t.rows.filter fun row => row.action_index ∈ frontier).map (·.action_index)).Nodup :=
    t.unique.sublist (List.filter_sublist.map _)
  refine congrArg _ (Option.ext fun row => ?_)
  rw [rowAt_eq_some hnodup, rowAt_eq_some t.unique, List.mem_filter]
  constructor
  · rintro ⟨⟨hrow, -⟩, hindex⟩
    exact ⟨hrow, hindex⟩
  · rintro ⟨hrow, hindex⟩
    exact ⟨⟨hrow, by simpa [hindex] using hn⟩, hindex⟩

theorem hop_eq (walks : List (ℕ × Walk)) :
    hop t walks = walks.map fun e => (e.1, e.2.step (parentsOf t.rows)) := by
  refine List.map_congr_left fun e he => ?_
  by_cases hp : e.2.pending
  · have hfrontier : e.2.root ∈ ((walks.filter fun e => e.2.pending).map fun e => e.2.root).dedup :=
      List.mem_dedup.mpr (List.mem_map.mpr ⟨e, List.mem_filter.mpr ⟨he, hp⟩, rfl⟩)
    simp only [Walk.step, parentsOf_filter hfrontier]
  · simp [Walk.step, hp]

/-- Where a walk of its own stands after some hops. -/
def Lists.walk (t : Lists) (hops n : ℕ) : Walk := (Walk.step (parentsOf t.rows))^[hops] { root := n }

theorem iterate_hop (hops : ℕ) (refs : List ℕ) :
    (hop t)^[hops] (refs.map fun n => (n, { root := n })) = refs.map fun n => (n, t.walk hops n) := by
  induction hops with
  | zero => rfl
  | succ hops ih =>
    rw [Function.iterate_succ_apply', ih, hop_eq, List.map_map]
    refine List.map_congr_left fun n _ => ?_
    rw [Function.comp_apply, Lists.walk, Lists.walk, Function.iterate_succ_apply']

theorem lookup_map_self {β : Type*} {refs : List ℕ} {f : ℕ → β} (hn : n ∈ refs) :
    (refs.map fun n => (n, f n)).lookup n = some (f n) := by
  induction refs with
  | nil => simp at hn
  | cons m refs ih =>
    rcases eq_or_ne n m with rfl | hm
    · exact List.lookup_cons_self
    · rw [List.map_cons, List.lookup_cons, beq_false_of_ne hm]
      exact ih ((List.mem_cons.mp hn).resolve_left hm)

theorem getListRootIndexes_eq (refs : List ℕ) :
    getListRootIndexes t refs = refs.dedup.map fun n => (n, (t.walk HOPS n).root) := by
  rw [getListRootIndexes, iterate_hop, List.map_map]
  rfl

theorem getListRootIndex_eq : getListRootIndex t n = (t.walk HOPS n).root := by
  rw [getListRootIndex, getListRootIndexes_eq, lookup_map_self (by simp), Option.getD_some]

theorem lookup_headRows {distinct : List ℕ} (hn : n ∈ distinct) :
    (t.headRows distinct).lookup n = (t.validEdits n).max? := by
  induction distinct with
  | nil => simp at hn
  | cons m distinct ih =>
    rw [Lists.headRows, List.filterMap_cons]
    rcases eq_or_ne n m with rfl | hm
    · cases hmax : (t.validEdits n).max? with
      | none =>
        simp only [Option.map_none]
        by_cases hrest : n ∈ distinct
        · rw [← hmax]
          exact ih hrest
        · rw [List.lookup_eq_none_iff]
          intro e he
          obtain ⟨root, hroot, he⟩ := List.mem_filterMap.mp he
          obtain ⟨head, -, rfl⟩ := Option.map_eq_some_iff.mp he
          simpa using fun h : n = root => hrest (h ▸ hroot)
      | some head => simp
    · have hrest := ih ((List.mem_cons.mp hn).resolve_left hm)
      cases (t.validEdits m).max? with
      | none => exact hrest
      | some head =>
        rw [Option.map_some, List.lookup_cons, beq_false_of_ne hm]
        exact hrest

/-- The head the explorer shows for a root: the newest of the valid edits that name it. -/
def Lists.headOf (t : Lists) (root : ℕ) : ℕ := (t.validEdits root).max?.getD root

theorem getListHeadIndexes_eq (refs : List ℕ) :
    getListHeadIndexes t refs = refs.dedup.map fun n => (n, t.headOf (t.walk HOPS n).root) := by
  rw [getListHeadIndexes]
  simp only [getListRootIndexes_eq, List.map_map]
  refine List.map_congr_left fun n hn => ?_
  have hroot : (t.walk HOPS n).root ∈ (refs.dedup.map fun n => (t.walk HOPS n).root).dedup :=
    List.mem_dedup.mpr (List.mem_map_of_mem hn)
  simp only [Function.comp_apply, Function.comp_def, lookup_headRows hroot, Lists.headOf]

theorem getListHeadIndex_eq : getListHeadIndex t n = t.headOf (getListRootIndex t n) := by
  rw [getListHeadIndex, getListHeadIndexes_eq, lookup_map_self (by simp), Option.getD_some, getListRootIndex_eq]

/-! ### Where a walk ends -/

theorem parentsOf_eq {p : ℕ} : parentsOf t.rows n = some (some p) ↔ t.parent n = some p := by
  rw [parentsOf, Lists.parent, Option.map_eq_some_iff, Option.bind_eq_some_iff]

theorem walk_succ {j : ℕ} : t.walk (j + 1) n = (t.walk j n).step (parentsOf t.rows) :=
  Function.iterate_succ_apply' _ _ _

/-- A step goes up one link or stays. -/
theorem step_root (w : Walk) :
    (w.step (parentsOf t.rows)).root = w.root ∨ t.parent w.root = some (w.step (parentsOf t.rows)).root := by
  unfold Walk.step
  split_ifs
  · exact .inl rfl
  · exact .inl rfl
  · split
    case h_1 parent hparent => exact .inr (parentsOf_eq.mp hparent)
    · exact .inl rfl

/-- A walk goes up where its index names a list it has not stood on. -/
theorem step_up {w : Walk} {p : ℕ} (hpending : w.pending = true) (hseen : w.root ∉ w.seen)
    (hp : t.parent w.root = some p) :
    w.step (parentsOf t.rows) = { root := p, seen := w.root :: w.seen } := by
  simp [Walk.step, hpending, hseen, parentsOf_eq.mpr hp]

/-- On any table, cyclic ones too, a walk stands on the reference or an ancestor of it. -/
theorem walk_up (hops : ℕ) : ∃ k ≤ hops, t.up k n = some (t.walk hops n).root := by
  induction hops with
  | zero => exact ⟨0, le_rfl, rfl⟩
  | succ j ih =>
    obtain ⟨k, hk, hup⟩ := ih
    rw [walk_succ]
    rcases step_root (t := t) (t.walk j n) with hstay | hclimb
    · exact ⟨k, by omega, by rw [hstay, hup]⟩
    · exact ⟨k + 1, by omega, by rw [Lists.up, ParentChain.up_succ_last, ← Lists.up, hup, Option.bind_some, hclimb]⟩

/-- Below a root each hop goes up one link: what the walk has seen is below where it stands. -/
theorem walk_climbs {k r j : ℕ} (h : t.RootAt k n r) (hj : j ≤ k) :
    t.up j n = some (t.walk j n).root ∧ (t.walk j n).pending = true ∧
      ∀ x ∈ (t.walk j n).seen, ∃ i < j, t.up i n = some x := by
  induction j with
  | zero => exact ⟨rfl, rfl, fun x hx => absurd hx List.not_mem_nil⟩
  | succ j ih =>
    obtain ⟨hup, hpending, hseen⟩ := ih (by omega)
    obtain ⟨p, hp⟩ := ParentChain.exists_up_of_le h.1 hj
    have hparent : t.parent (t.walk j n).root = some p := by
      rwa [ParentChain.up_succ_last, ← Lists.up, hup, Option.bind_some] at hp
    have hnew : (t.walk j n).root ∉ (t.walk j n).seen := by
      intro hmem
      obtain ⟨i, hi, hat⟩ := hseen _ hmem
      exact hi.ne (ParentChain.RootAt.up_inj h hat hup)
    rw [walk_succ, step_up hpending hnew hparent]
    refine ⟨hp, rfl, fun x hx => ?_⟩
    rcases List.mem_cons.mp hx with rfl | hx
    · exact ⟨j, Nat.lt_succ_self j, hup⟩
    · obtain ⟨i, hi, hat⟩ := hseen x hx
      exact ⟨i, Nat.lt_succ_of_lt hi, hat⟩

/-- At the root it stays. -/
theorem walk_rests {k r hops : ℕ} (h : t.RootAt k n r) (hk : k ≤ hops) : (t.walk hops n).root = r := by
  induction hops, hk using Nat.le_induction with
  | base =>
    have hup := (walk_climbs h le_rfl).1
    rw [Lists.up, h.1] at hup
    exact (Option.some.inj hup).symm
  | succ hops _ ih =>
    rw [walk_succ]
    rcases step_root (t := t) (t.walk hops n) with hstay | hclimb
    · rw [hstay, ih]
    · rw [ih, show t.parent r = none from h.2] at hclimb
      cases hclimb

/-! ### The head of a tree -/

theorem mem_validEdits {root edit : ℕ} :
    edit ∈ t.validEdits root ↔
      (∃ row ∈ t.rows, row.action_index = edit ∧ row.status = some "valid") ∧ t.parent edit = some root := by
  rw [Lists.validEdits, List.mem_map]
  constructor
  · rintro ⟨row, hrow, rfl⟩
    obtain ⟨hmem, hparent, hstatus⟩ := by simpa using hrow
    refine ⟨⟨row, hmem, rfl, hstatus⟩, ?_⟩
    rw [Lists.parent, (rowAt_eq_some t.unique).mpr ⟨hmem, rfl⟩, Option.bind_some, hparent]
  · rintro ⟨⟨row, hmem, hindex, hstatus⟩, hparent⟩
    rw [Lists.parent, (rowAt_eq_some t.unique).mpr ⟨hmem, hindex⟩, Option.bind_some] at hparent
    exact ⟨row, by simp [hmem, hparent, hstatus], hindex⟩

theorem validEdit_of_mem {root edit : ℕ} (h : edit ∈ t.validEdits root) : t.ValidEdit root edit := by
  obtain ⟨hrow, hparent⟩ := mem_validEdits.mp h
  exact ⟨hrow, 0, by rw [Lists.up, ParentChain.up, hparent, Option.bind_some, ParentChain.up_zero]⟩

/-- The newest valid edit of the tree is shown where it names the create itself, and the create where
    no edit is valid. -/
theorem headOf_eq {root head : ℕ} (hroot : t.parent root = none) (h : t.IsHead root head)
    (hnames : head = root ∨ t.parent head = some root) : t.headOf root = head := by
  rcases h with ⟨hvalid, hmax⟩ | ⟨rfl, hnone⟩
  · rcases hnames with rfl | hparent
    · obtain ⟨-, k, hup⟩ := hvalid
      rw [Lists.up, ParentChain.up_of_root hroot (Nat.succ_pos k)] at hup
      cases hup
    · have hmem : head ∈ t.validEdits root := mem_validEdits.mpr ⟨hvalid.1, hparent⟩
      have hmax : (t.validEdits root).max? = some head :=
        List.max?_eq_some_iff.mpr ⟨hmem, fun edit hedit => hmax edit (validEdit_of_mem hedit)⟩
      rw [Lists.headOf, hmax, Option.getD_some]
  · have hnil : t.validEdits head = [] :=
      List.eq_nil_iff_forall_not_mem.mpr fun edit hedit => hnone edit (validEdit_of_mem hedit)
    rw [Lists.headOf, hnil, List.max?_nil, Option.getD_none]

theorem Lists.Acyclic.exists_root (h : t.Acyclic) (n : ℕ) : ∃ k r, t.RootAt k n r := by
  refine ParentChain.Acyclic.exists_root h (s := (t.rows.map (·.action_index)).toFinset) (fun m hm => ?_) n
  obtain ⟨p, hp⟩ := Option.ne_none_iff_exists'.mp hm
  obtain ⟨row, hrow, -⟩ := Option.bind_eq_some_iff.mp hp
  obtain ⟨hmem, hindex⟩ := (rowAt_eq_some t.unique).mp hrow
  exact List.mem_toFinset.mpr (List.mem_map.mpr ⟨row, hmem, hindex⟩)

/-- References within sixteen hops of their create agree on it, and on one head: the newest valid edit
    of the tree, where it names the create, and the create where none is valid. A deeper one is taken
    for its ancestor sixteen hops up. A set of references is each of them. -/
theorem one_head (t : Lists) (refs : List ℕ) :
    (∀ n ∈ refs, (getListRootIndexes t refs).lookup n = some (getListRootIndex t n) ∧
      (getListHeadIndexes t refs).lookup n = some (getListHeadIndex t n) ∧
      ∃ k ≤ HOPS, t.up k n = some (getListRootIndex t n)) ∧
    (∀ n m k k' r, t.RootAt k n r → t.RootAt k' m r → k ≤ HOPS → k' ≤ HOPS →
      getListHeadIndex t n = getListHeadIndex t m) ∧
    (t.Acyclic → ∀ n ∈ refs, ∃ k r, t.RootAt k n r ∧
      (k ≤ HOPS → getListRootIndex t n = r ∧
        ∀ head, t.IsHead r head → head = r ∨ t.parent head = some r → getListHeadIndex t n = head) ∧
      (HOPS < k → t.up HOPS n = some (getListRootIndex t n))) := by
  refine ⟨fun n hn => ?_, fun n m k k' r hk hk' hle hle' => ?_, fun hacyclic n _ => ?_⟩
  · have hmem : n ∈ refs.dedup := List.mem_dedup.mpr hn
    rw [getListRootIndexes_eq, getListHeadIndexes_eq, lookup_map_self hmem, lookup_map_self hmem,
      getListHeadIndex_eq, getListRootIndex_eq]
    exact ⟨rfl, rfl, walk_up HOPS⟩
  · rw [getListHeadIndex_eq, getListHeadIndex_eq, getListRootIndex_eq, getListRootIndex_eq, walk_rests hk hle,
      walk_rests hk' hle']
  · obtain ⟨k, r, hroot⟩ := hacyclic.exists_root n
    refine ⟨k, r, hroot, fun hle => ?_, fun hlt => ?_⟩
    · have hindex : getListRootIndex t n = r := by rw [getListRootIndex_eq, walk_rests hroot hle]
      refine ⟨hindex, fun head hhead hnames => ?_⟩
      rw [getListHeadIndex_eq, hindex, headOf_eq hroot.2 hhead hnames]
    · rw [getListRootIndex_eq]
      exact (walk_climbs hroot hlt.le).1

theorem Lists.acyclic_of_later (h : ∀ row ∈ t.rows, ∀ p ∈ row.list_action_index, p < row.action_index) :
    t.Acyclic := by
  refine ParentChain.acyclic_of_lt fun n p hp => ?_
  obtain ⟨row, hrow, hparent⟩ := Option.bind_eq_some_iff.mp hp
  obtain ⟨hmem, hindex⟩ := (rowAt_eq_some t.unique).mp hrow
  exact hindex ▸ h row hmem p hparent

/-- A create with a valid edit and an invalid one. -/
def edited : Lists where
  rows := [⟨1, none, some "valid"⟩, ⟨2, some 1, some "valid"⟩, ⟨3, some 1, some "invalid"⟩]
  unique := by decide

theorem edited_heads : (getListHeadIndexes edited [1, 2, 3]).lookup 3 = some 2 := by
  obtain ⟨hset, -, htree⟩ := one_head edited [1, 2, 3]
  obtain ⟨k, r, hroot, hnear, -⟩ := htree (Lists.acyclic_of_later (by decide)) 3 (by decide)
  obtain ⟨hk, hr⟩ := ParentChain.RootAt.unique hroot (show edited.RootAt 1 3 1 from ⟨rfl, rfl⟩)
  have hhead : edited.IsHead 1 2 := by
    refine .inl ⟨⟨⟨_, List.mem_cons_of_mem _ List.mem_cons_self, rfl, rfl⟩, 0, rfl⟩, ?_⟩
    rintro edit ⟨⟨row, hrow, hindex, hstatus⟩, -⟩
    have hle : ∀ row ∈ edited.rows, row.status = some "valid" → row.action_index ≤ 2 := by decide
    exact hindex ▸ hle row hrow hstatus
  rw [(hset 3 (by decide)).2.1, (hnear (hk ▸ by decide)).2 2 (hr ▸ hhead) (.inr (hr ▸ rfl))]

/-- Seventeen edits, each of the one before. -/
def deep : Lists where
  rows := (List.range 18).map fun n => ⟨n, if n = 0 then none else some (n - 1), some "valid"⟩
  unique := by decide

/-- An edit of an edit. -/
def nested : Lists where
  rows := [⟨1, none, some "valid"⟩, ⟨2, some 1, some "valid"⟩, ⟨3, some 2, some "valid"⟩]
  unique := by decide

/-- The create of a list is not found from its seventeenth edit, and an edit of an edit is no head. -/
theorem deep_nested :
    deep.Acyclic ∧ deep.RootAt 17 17 0 ∧ (getListRootIndexes deep [17]).lookup 17 = some 1 ∧
      nested.Acyclic ∧ nested.RootAt 0 1 1 ∧ nested.IsHead 1 3 ∧
      (getListHeadIndexes nested [1]).lookup 1 = some 2 := by
  refine ⟨Lists.acyclic_of_later (by decide), ⟨by decide, by decide⟩, by decide, Lists.acyclic_of_later (by decide),
    ⟨rfl, rfl⟩, .inl ⟨⟨⟨_, List.mem_cons_of_mem _ (List.mem_cons_of_mem _ List.mem_cons_self), rfl, rfl⟩, 1, rfl⟩, ?_⟩,
    by decide⟩
  rintro edit ⟨⟨row, hrow, hindex, -⟩, -⟩
  have hle : ∀ row ∈ nested.rows, row.action_index ≤ 3 := by decide
  exact hindex ▸ hle row hrow

end ListMembership
