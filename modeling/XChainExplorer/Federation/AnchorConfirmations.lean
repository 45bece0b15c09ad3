import XChainExplorer.Lib.GroupPage
import XChainExplorer.Lib.JsNumber
import Mathlib.Data.List.Sort
import Mathlib.Data.Prod.Lex

/-! # Anchor confirmations

    What a transaction anchored, a page at a time. The cursor names an action, an action has a row for
    each of its sections, and the row behind a full page tells where the page has to be trimmed. -/

namespace Federation

open JsNumber

/-- The rows of an answer. -/
def ANCHOR_ROW_LIMIT : ℕ := 20

/-! ### The tables -/

/-- A row of `anchor_actions`: a section of an anchor. -/
structure AnchorAction where
  action_index : ℕ
  section_index : ℕ
  version : ℕ
  chain : Option String
  network : Option String
  block_index : Option ℕ
  checkpoint_seq : Option ℕ
  snapshot_block : Option ℕ
  publisher : Option String
  match_batch_seq : Option ℕ
  block_index_doge : ℕ
  status_id : Option ℕ
  deriving DecidableEq

/-- The tables the read joins, those that are looked up by a unique column as functions of it. -/
structure AnchorTables where
  index_transactions : ℕ → Option String
  transactions : ℕ → Option ℕ
  actions : ℕ → Option ℕ
  index_statuses : ℕ → Option String
  anchor_actions : List AnchorAction
  max_block_index : ℕ

/-- A row of the join. -/
structure AnchorRow extends AnchorAction where
  status : String
  deriving DecidableEq

namespace AnchorTables

variable (db : AnchorTables)

/-- The transaction of an action. Its hash is compared without regard to case. -/
def txidOf (action_index : ℕ) : Option String :=
  (db.actions action_index).bind fun tx_index =>
    (db.transactions tx_index).bind fun tx_hash_id => (db.index_transactions tx_hash_id).map String.toLower

/-- The join, for one anchor. -/
def joined (a : AnchorAction) : Option AnchorRow :=
  a.status_id.bind fun id => (db.index_statuses id).map fun status => { a with status }

/-- `WHERE it.hash = ?` -/
def anchorsOf (txid : String) : List AnchorRow :=
  (db.anchor_actions.filter fun a => db.txidOf a.action_index = some txid).filterMap db.joined

end AnchorTables

/-- `ORDER BY a.action_index ASC, a.section_index ASC` -/
def byActionAndSection (rows : List AnchorRow) : List AnchorRow :=
  rows.insertionSort fun a b => toLex (a.action_index, a.section_index) ≤ toLex (b.action_index, b.section_index)

/-- The rows of a transaction past a cursor, one more than an answer holds. -/
def getAnchorRowsByTxid (db : AnchorTables) (txid : String) (afterActionIndex : Option ℕ) : List AnchorRow :=
  match afterActionIndex with
  | none => (byActionAndSection (db.anchorsOf txid)).take (ANCHOR_ROW_LIMIT + 1)
  | some after =>
    (byActionAndSection ((db.anchorsOf txid).filter fun a => after < a.action_index)).take (ANCHOR_ROW_LIMIT + 1)

/-! ### The request -/

/-- A cursor as it is sent. -/
inductive CursorParam
  | absent
  | number (n : ℚ)
  | text (s : String)
  | other

/-- The cursor as a number. `none` where it is `NaN`. -/
def CursorParam.toNumber : CursorParam → Option ℚ
  | .absent | .other => none
  | .number n => some n
  | .text s => (decimalDigits s.toList).map fun n : ℕ => (n : ℚ)

/-- A hash in hexadecimal. -/
def isTxid (txid : String) : Bool :=
  txid.toList.length = 64 ∧
    txid.toList.all fun c => c.isDigit || ('a' ≤ c && c ≤ 'f') || ('A' ≤ c && c ≤ 'F')

/-- The parameters as they are accepted, or the text of the refusal. -/
def validateAnchorConfirmationsParams (txid : String) (after_action_index : CursorParam) :
    Except String (String × Option ℕ) :=
  if isTxid txid = false then .error "txid must be a 64-character hex string"
  else
    match after_action_index with
    | .absent => .ok (txid.toLower, none)
    | after =>
      match after.toNumber with
      | none => .error "after_action_index must be a non-negative integer"
      | some n =>
        if n.den ≠ 1 ∨ n < 0 then .error "after_action_index must be a non-negative integer"
        else .ok (txid.toLower, some n.num.toNat)

/-! ### The response -/

/-- An anchor as it is served. -/
structure Confirmation where
  action_index : ℕ
  section_index : ℕ
  status : String
  version : ℕ
  checkpoint_chain : Option String
  checkpoint_network : Option String
  block_index : Option ℕ
  checkpoint_seq : Option ℕ
  snapshot_block : Option ℕ
  publisher : Option String
  match_batch_seq : Option ℕ
  block_index_doge : ℕ
  confirmations : ℕ
  deriving DecidableEq

/-- A row as it is served. -/
def mapConfirmationRow (row : AnchorRow) (latestNum : ℕ) : Confirmation where
  action_index := row.action_index
  section_index := row.section_index
  status := row.status
  version := row.version
  checkpoint_chain := row.chain
  checkpoint_network := row.network
  block_index := row.block_index
  checkpoint_seq := row.checkpoint_seq
  snapshot_block := row.snapshot_block
  publisher := (row.publisher.filter (· ≠ "")).map String.toLower
  match_batch_seq := row.match_batch_seq
  block_index_doge := row.block_index_doge
  confirmations := if row.block_index_doge ≤ latestNum then latestNum - row.block_index_doge + 1 else 0

/-- `cut` counts down from the end of the page over the rows of the probe's action. -/
def cutOnActionBoundary (probe : AnchorRow) (kept : List AnchorRow) : List AnchorRow :=
  if kept.rdropWhile (fun r => r.action_index = probe.action_index) = [] then kept
  else kept.rdropWhile fun r => r.action_index = probe.action_index

/-- The answer. -/
structure AnchorConfirmations where
  coin : String
  network : String
  present : Bool
  latest_block_index : ℕ
  anchors : List Confirmation
  truncated : Bool
  next_after_action_index : Option ℕ
  deriving DecidableEq

/-- The answer, cut where an action begins. -/
def buildAnchorConfirmationsResponse (coin network : String) (latest : ℕ) (all : List AnchorRow) :
    AnchorConfirmations :=
  let truncated := all.length > ANCHOR_ROW_LIMIT
  let kept :=
    match all[ANCHOR_ROW_LIMIT]? with
    | none => all
    | some probe => cutOnActionBoundary probe (all.take ANCHOR_ROW_LIMIT)
  { coin := coin
    network := network
    present := kept.length > 0
    latest_block_index := latest
    anchors := kept.map fun row => mapConfirmationRow row latest
    truncated := truncated
    next_after_action_index := if truncated then kept.getLast?.map fun r => r.action_index else none }

/-- The answer to a request. -/
def getanchorconfirmations (db : AnchorTables) (coin network txid : String) (after_action_index : CursorParam) :
    Except String AnchorConfirmations :=
  (validateAnchorConfirmationsParams txid after_action_index).map fun v =>
    buildAnchorConfirmationsResponse coin network db.max_block_index (getAnchorRowsByTxid db v.1 v.2)

/-- A caller that follows the cursors from `after` on. Out of fuel it has not come to the end. -/
def follow (db : AnchorTables) (coin network txid : String) : ℕ → CursorParam → Option (List AnchorConfirmations)
  | 0, _ => none
  | fuel + 1, after =>
    match getanchorconfirmations db coin network txid after with
    | .error _ => none
    | .ok page =>
      match page.next_after_action_index with
      | none => some [page]
      | some next => (follow db coin network txid fuel (.number next)).map (page :: ·)

/-! ### The pages of a transaction -/

section Pages

variable {db : AnchorTables} {txid : String}

/-- No two rows of the table have the action and the section in common. -/
def DistinctSections (db : AnchorTables) : Prop :=
  (db.anchor_actions.map fun a => (a.action_index, a.section_index)).Nodup

/-- Every action of the transaction has at most as many rows as a page holds. -/
def ActionsFit (db : AnchorTables) (txid : String) : Prop :=
  ∀ a ∈ db.anchorsOf txid,
    (db.anchorsOf txid).countP (fun b => b.action_index = a.action_index) ≤ ANCHOR_ROW_LIMIT

/-- The rows of its action before a row. -/
def sectionsBefore (rows : List AnchorRow) (r : AnchorRow) : ℕ :=
  rows.countP fun s => s.action_index = r.action_index ∧ s.section_index < r.section_index

/-- The place of a row: its action, and its section in it. -/
def keyOf (r : AnchorRow) : ℕ ×ₗ ℕ := toLex (r.action_index, r.section_index)

theorem keyOf_joined {a : AnchorAction} {r : AnchorRow} (h : db.joined a = some r) :
    keyOf r = toLex (a.action_index, a.section_index) := by
  obtain ⟨id, -, h⟩ := Option.bind_eq_some_iff.mp h
  obtain ⟨status, -, rfl⟩ := Option.map_eq_some_iff.mp h
  rfl

theorem nodup_anchorsOf (h : DistinctSections db) : ((db.anchorsOf txid).map keyOf).Nodup := by
  have hkeys : (db.anchorsOf txid).map keyOf =
      ((db.anchor_actions.filter fun a => db.txidOf a.action_index = some txid).filter fun a => (db.joined a).isSome).map
        fun a => toLex (a.action_index, a.section_index) := by
    rw [AnchorTables.anchorsOf]
    generalize db.anchor_actions.filter _ = rows
    induction rows with
    | nil => rfl
    | cons a rows ih =>
      cases hjoin : db.joined a with
      | none => rw [List.filterMap_cons_none hjoin, ih, List.filter_cons_of_neg (by simp [hjoin])]
      | some r =>
        rw [List.filterMap_cons_some hjoin, List.filter_cons_of_pos (by simp [hjoin]), List.map_cons, List.map_cons,
          ih, keyOf_joined hjoin]
  rw [hkeys]
  refine List.Nodup.sublist ((List.filter_sublist.trans List.filter_sublist).map _) ?_
  have hmap := List.Nodup.map toLex.injective h
  rwa [List.map_map] at hmap

theorem byActionAndSection_perm (rows : List AnchorRow) : (byActionAndSection rows).Perm rows :=
  List.perm_insertionSort _ _

theorem byActionAndSection_pairwise {rows : List AnchorRow} (h : (rows.map keyOf).Nodup) :
    (byActionAndSection rows).Pairwise fun a b => keyOf a < keyOf b := by
  have hle : (byActionAndSection rows).Pairwise fun a b => keyOf a ≤ keyOf b := List.pairwise_insertionSort _ _
  have hne : ((byActionAndSection rows).map keyOf).Nodup := ((byActionAndSection_perm rows).map keyOf).nodup_iff.mpr h
  exact hle.imp₂ (fun a b hab hne => lt_of_le_of_ne hab hne) (List.pairwise_map.mp hne)

/-- The rows of a transaction behind an action are in the order of all of them. -/
theorem byActionAndSection_filter {rows : List AnchorRow} (h : (rows.map keyOf).Nodup) (p : AnchorRow → Bool) :
    byActionAndSection (rows.filter p) = (byActionAndSection rows).filter p := by
  have hsub : ((rows.filter p).map keyOf).Nodup := h.sublist (List.filter_sublist.map _)
  refine List.Perm.eq_of_pairwise (fun a b _ _ hab hba => absurd hba hab.not_gt) (byActionAndSection_pairwise hsub)
    ((byActionAndSection_pairwise h).filter p) ?_
  exact (byActionAndSection_perm _).trans ((byActionAndSection_perm rows).filter p).symm

theorem ordered_of_key_lt {a b : AnchorRow} (h : keyOf a < keyOf b) :
    GroupPage.Ordered (fun r : AnchorRow => r.action_index) (fun r => r.section_index) a b :=
  Prod.Lex.toLex_lt_toLex.mp h

theorem getAnchorRowsByTxid_eq (h : DistinctSections db) (after : Option ℕ) :
    getAnchorRowsByTxid db txid after =
      (GroupPage.beyond (fun r : AnchorRow => r.action_index) (byActionAndSection (db.anchorsOf txid)) after).take
        (ANCHOR_ROW_LIMIT + 1) := by
  cases after with
  | none => rfl
  | some after => rw [getAnchorRowsByTxid, byActionAndSection_filter (nodup_anchorsOf h), GroupPage.beyond]

/-- The cursor of the next request. -/
def CursorParam.ofAfter : Option ℕ → CursorParam
  | none => .absent
  | some n => .number n

theorem validate_ofAfter (htxid : isTxid txid = true) (after : Option ℕ) :
    validateAnchorConfirmationsParams txid (.ofAfter after) = .ok (txid.toLower, after) := by
  cases after with
  | none => rw [CursorParam.ofAfter, validateAnchorConfirmationsParams, if_neg (by simp [htxid])]
  | some n =>
    have hcursor : (CursorParam.number (n : ℚ)).toNumber = some (n : ℚ) := rfl
    have hint : ¬ ((n : ℚ).den ≠ 1 ∨ (n : ℚ) < 0) := by simp
    rw [CursorParam.ofAfter, validateAnchorConfirmationsParams, if_neg (by simp [htxid])]
    · rw [hcursor]
      dsimp only
      rw [if_neg hint, Rat.num_natCast, Int.toNat_natCast]
    · simp

theorem build_eq (coin network : String) (latest : ℕ) (all : List AnchorRow) :
    (buildAnchorConfirmationsResponse coin network latest all).anchors =
        (GroupPage.kept (fun r : AnchorRow => r.action_index) ANCHOR_ROW_LIMIT all).map
          (fun row => mapConfirmationRow row latest) ∧
      (buildAnchorConfirmationsResponse coin network latest all).next_after_action_index =
        GroupPage.next (fun r : AnchorRow => r.action_index) ANCHOR_ROW_LIMIT all := by
  rw [buildAnchorConfirmationsResponse, GroupPage.next, GroupPage.kept]
  cases hprobe : all[ANCHOR_ROW_LIMIT]? with
  | none =>
    have hlen := List.getElem?_eq_none_iff.mp hprobe
    dsimp only
    rw [if_neg (Nat.not_lt.mpr hlen)]
    exact ⟨rfl, rfl⟩
  | some probe =>
    have hlen := (List.getElem?_eq_some_iff.mp hprobe).1
    dsimp only
    rw [if_pos (show all.length > ANCHOR_ROW_LIMIT from hlen)]
    exact ⟨rfl, rfl⟩

/-- A caller reads the pages of the rows in order. -/
theorem follow_eq (h : DistinctSections db) (htxid : isTxid txid = true) (coin network : String) (fuel : ℕ)
    (after : Option ℕ) :
    (follow db coin network txid fuel (.ofAfter after)).map (List.map AnchorConfirmations.anchors) =
      (GroupPage.walk (fun r : AnchorRow => r.action_index) ANCHOR_ROW_LIMIT
        (byActionAndSection (db.anchorsOf txid.toLower)) fuel after).map
          (List.map (List.map fun row => mapConfirmationRow row db.max_block_index)) := by
  induction fuel generalizing after with
  | zero => rfl
  | succ fuel ih =>
    obtain ⟨hanchors, hnext⟩ := build_eq coin network db.max_block_index (getAnchorRowsByTxid db txid.toLower after)
    rw [getAnchorRowsByTxid_eq h] at hanchors hnext
    rw [follow, GroupPage.walk, getanchorconfirmations, validate_ofAfter htxid, Except.map]
    dsimp only
    rw [getAnchorRowsByTxid_eq h, hnext]
    cases GroupPage.next (fun r : AnchorRow => r.action_index) ANCHOR_ROW_LIMIT _ with
    | none =>
      dsimp only
      rw [Option.map_some, Option.map_some, List.map_singleton, List.map_singleton, hanchors]
    | some next =>
      have hrest := ih (some next)
      rw [CursorParam.ofAfter] at hrest
      dsimp only
      rw [Option.map_map]
      generalize follow db coin network txid fuel (.number next) = pages at hrest
      generalize GroupPage.walk (fun r : AnchorRow => r.action_index) ANCHOR_ROW_LIMIT _ fuel (some next) = walked
        at hrest
      cases pages with
      | none =>
        cases walked with
        | none => rfl
        | some walked => cases hrest
      | some pages =>
        cases walked with
        | none => cases hrest
        | some walked =>
          have hmap := Option.some.inj hrest
          simp only [Option.map_some, Function.comp_apply, List.map_cons, hanchors, hmap]

/-- More fuel changes nothing. -/
theorem follow_mono {coin network : String} {fuel fuel' : ℕ} (hle : fuel ≤ fuel') {after : CursorParam}
    {pages : List AnchorConfirmations} (h : follow db coin network txid fuel after = some pages) :
    follow db coin network txid fuel' after = some pages := by
  induction fuel generalizing fuel' after pages with
  | zero => cases h
  | succ fuel ih =>
    obtain ⟨fuel', rfl⟩ := Nat.exists_eq_succ_of_ne_zero (Nat.ne_zero_of_lt (Nat.lt_of_succ_le hle))
    rw [follow] at h ⊢
    cases hpage : getanchorconfirmations db coin network txid after with
    | error message =>
      rw [hpage] at h
      cases h
    | ok page =>
      rw [hpage] at h
      dsimp only at h ⊢
      cases hnext : page.next_after_action_index with
      | none =>
        rw [hnext] at h
        exact h
      | some next =>
        rw [hnext] at h
        obtain ⟨rest, hrest, rfl⟩ := Option.map_eq_some_iff.mp h
        dsimp only
        rw [ih (Nat.le_of_succ_le_succ hle) hrest, Option.map_some]

theorem actionsFit_iff {rows : List AnchorRow} (h : rows.Perm (db.anchorsOf txid)) :
    (∀ r ∈ rows, rows.countP (fun s => s.action_index = r.action_index) ≤ ANCHOR_ROW_LIMIT) ↔ ActionsFit db txid := by
  rw [ActionsFit]
  refine forall_congr' fun r => ?_
  rw [h.mem_iff, h.countP_eq]

/-- A caller who follows the cursors comes to an end. The pages hold every row of the transaction that has
    fewer rows of its action before it than a page holds, in order and with no action over two pages: all
    the rows, where every action fits a page, and only there. -/
theorem anchor_pages_whole (db : AnchorTables) (coin network txid : String) (h : DistinctSections db)
    (htxid : isTxid txid = true) :
    ∃ (rows : List AnchorRow) (pages : List AnchorConfirmations),
      rows.Perm (db.anchorsOf txid.toLower) ∧ rows.Pairwise (fun a b => keyOf a < keyOf b) ∧
      (∀ fuel > rows.length, follow db coin network txid fuel .absent = some pages) ∧
      pages.Pairwise (fun page page' => ∀ a ∈ page.anchors, ∀ b ∈ page'.anchors, a.action_index < b.action_index) ∧
      pages.flatMap (·.anchors) =
        (rows.filter fun r => sectionsBefore rows r < ANCHOR_ROW_LIMIT).map (mapConfirmationRow · db.max_block_index) ∧
      (pages.flatMap (·.anchors) = rows.map (mapConfirmationRow · db.max_block_index) ↔
        ActionsFit db txid.toLower) := by
  let rows := byActionAndSection (db.anchorsOf txid.toLower)
  have hperm : rows.Perm (db.anchorsOf txid.toLower) := byActionAndSection_perm _
  have hkeys : rows.Pairwise fun a b => keyOf a < keyOf b := byActionAndSection_pairwise (nodup_anchorsOf h)
  have hord := hkeys.imp ordered_of_key_lt
  obtain ⟨walked, hwalked, hflatten, hgroups⟩ := GroupPage.walk_eq hord (by decide : 0 < ANCHOR_ROW_LIMIT) none
  have hfollow := follow_eq h htxid coin network (rows.length + 1) none
  rw [hwalked (rows.length + 1) (Nat.lt_succ_self _)] at hfollow
  obtain ⟨pages, hpages, hanchors⟩ := Option.map_eq_some_iff.mp hfollow
  have hall : pages.flatMap (·.anchors) =
      (rows.filter fun r => sectionsBefore rows r < ANCHOR_ROW_LIMIT).map (mapConfirmationRow · db.max_block_index) := by
    rw [List.flatMap_def, hanchors, ← List.map_flatten, hflatten]
    rfl
  refine ⟨rows, pages, hperm, hkeys, fun fuel hfuel => follow_mono hfuel hpages, ?_, hall, ?_⟩
  · have hpairs : (pages.map AnchorConfirmations.anchors).Pairwise fun page page' =>
        ∀ a ∈ page, ∀ b ∈ page', a.action_index < b.action_index := by
      rw [hanchors, List.pairwise_map]
      refine hgroups.imp fun hlt a ha b hb => ?_
      obtain ⟨r, hr, rfl⟩ := List.mem_map.mp ha
      obtain ⟨r', hr', rfl⟩ := List.mem_map.mp hb
      exact hlt r hr r' hr'
    exact List.pairwise_map.mp hpairs
  · rw [hall, ← actionsFit_iff hperm, ← GroupPage.capped_eq_self_iff hord]
    constructor
    · intro heq
      refine List.filter_sublist.eq_of_length ?_
      have hlen := congrArg List.length heq
      rwa [List.length_map, List.length_map] at hlen
    · intro heq
      exact congrArg _ heq

end Pages

/-- The hash of a bundle. -/
def bundleTxid : String := String.ofList (List.replicate 64 'a')

/-- Section `i` of an action. -/
def sectionRow (action i : ℕ) : AnchorRow :=
  ⟨⟨action, i, 0, none, none, none, none, none, none, none, 100, some 1⟩, "valid"⟩

/-- Actions with `n` sections each. -/
def sections (actions : List ℕ) (n : ℕ) : List AnchorRow :=
  actions.flatMap fun action => (List.range n).map (sectionRow action)

/-- A transaction of these actions. -/
def bundle (actions : List ℕ) (n : ℕ) : AnchorTables where
  index_transactions _ := some bundleTxid
  transactions _ := some 1
  actions _ := some 1
  index_statuses _ := some "valid"
  anchor_actions := (sections actions n).map AnchorRow.toAnchorAction
  max_block_index := 106

theorem isTxid_bundle : isTxid bundleTxid = true := by decide +kernel

theorem anchorsOf_bundle (actions : List ℕ) (n : ℕ) :
    (bundle actions n).anchorsOf bundleTxid.toLower = sections actions n := by
  have hown : (bundle actions n).anchor_actions.filter
      (fun a => (bundle actions n).txidOf a.action_index = some bundleTxid.toLower) =
      (bundle actions n).anchor_actions :=
    List.filter_eq_self.mpr fun a _ => decide_eq_true rfl
  rw [AnchorTables.anchorsOf, hown, bundle, List.filterMap_map]
  have hjoined : ∀ r ∈ sections actions n,
      ((bundle actions n).joined ∘ AnchorRow.toAnchorAction) r = some r := by
    intro r hr
    obtain ⟨action, -, hr⟩ := List.mem_flatMap.mp hr
    obtain ⟨i, -, rfl⟩ := List.mem_map.mp hr
    rfl
  exact (List.filterMap_congr hjoined).trans List.filterMap_some

theorem distinctSections_pair : DistinctSections (bundle [7, 9] 12) := by
  unfold DistinctSections
  decide +kernel

/-- Two actions that do not fit one page together come on two. -/
theorem anchor_pages_whole_bundle :
    ∃ pages : List AnchorConfirmations,
      follow (bundle [7, 9] 12) "DOGE" "mainnet" bundleTxid 25 .absent = some pages ∧
      pages.map (fun page => page.anchors.length) = [12, 12] ∧
      ∃ rows : List AnchorRow, rows.Perm (sections [7, 9] 12) ∧
        pages.flatMap (·.anchors) = rows.map (mapConfirmationRow · (bundle [7, 9] 12).max_block_index) := by
  obtain ⟨rows, pages, hperm, -, hfollow, -, -, hwhole⟩ :=
    anchor_pages_whole (bundle [7, 9] 12) "DOGE" "mainnet" bundleTxid distinctSections_pair isTxid_bundle
  rw [anchorsOf_bundle] at hperm
  have hlength : rows.length = 24 := hperm.length_eq
  have hpages := hfollow 25 (by omega)
  refine ⟨pages, hpages, ?_, rows, hperm, hwhole.mpr ?_⟩
  · have hwalked := follow_eq distinctSections_pair isTxid_bundle "DOGE" "mainnet" 25 none
    rw [anchorsOf_bundle] at hwalked
    have hwalk : (GroupPage.walk (fun r : AnchorRow => r.action_index) ANCHOR_ROW_LIMIT
        (byActionAndSection (sections [7, 9] 12)) 25 none).map (List.map List.length) = some [12, 12] := by
      decide +kernel
    obtain ⟨walked, hwalked', hlengths⟩ := Option.map_eq_some_iff.mp hwalk
    have hafter : CursorParam.ofAfter none = .absent := rfl
    rw [hwalked', hafter, hpages] at hwalked
    have hanchors := Option.some.inj hwalked
    rw [← hlengths]
    have hlens := congrArg (List.map List.length) hanchors
    simpa [Function.comp_def] using hlens
  · rw [ActionsFit, anchorsOf_bundle]
    decide +kernel

/-- Of an action with one row more than a page holds the last row is on no page. -/
theorem bundle_loses_row :
    ∃ (db : AnchorTables) (txid : String) (pages : List AnchorConfirmations), DistinctSections db ∧
      isTxid txid = true ∧ follow db "DOGE" "mainnet" txid 2 .absent = some pages ∧
      ∃ r ∈ db.anchorsOf txid.toLower, ∀ a ∈ pages.flatMap (·.anchors), a.section_index ≠ r.section_index := by
  have hdistinct : DistinctSections (bundle [7] 21) := by
    unfold DistinctSections
    decide +kernel
  have hfollow := follow_eq hdistinct isTxid_bundle "DOGE" "mainnet" 2 none
  rw [anchorsOf_bundle] at hfollow
  have hwalk : GroupPage.walk (fun r : AnchorRow => r.action_index) ANCHOR_ROW_LIMIT
      (byActionAndSection (sections [7] 21)) 2 none = some [sections [7] 20, []] := by
    decide +kernel
  rw [hwalk] at hfollow
  obtain ⟨pages, hpages, hanchors⟩ := Option.map_eq_some_iff.mp hfollow
  refine ⟨bundle [7] 21, bundleTxid, pages, hdistinct, isTxid_bundle, hpages, sectionRow 7 20, ?_, ?_⟩
  · rw [anchorsOf_bundle]
    exact List.mem_flatMap.mpr ⟨7, List.mem_singleton_self 7, List.mem_map_of_mem (by decide)⟩
  · rw [List.flatMap_def, hanchors, ← List.map_flatten]
    intro a ha
    obtain ⟨r, hr, rfl⟩ := List.mem_map.mp ha
    rw [List.flatten_cons, List.flatten_singleton, List.append_nil] at hr
    obtain ⟨action, -, hr⟩ := List.mem_flatMap.mp hr
    obtain ⟨i, hi, rfl⟩ := List.mem_map.mp hr
    exact (List.mem_range.mp hi).ne

end Federation
