import XChainExplorer.Explorer.BoundaryFilters
import XChainExplorer.Lib.Prepared

/-! # The lanes of a list of two parties

    A list of two parties is filtered by an address in one of two forms: by the set of the actions it takes part
    in with the test of the row after it, or, for an address with many rows, by the test alone. The form is
    chosen when the statement runs, and the resolved id is bound once for each placeholder of that form. -/

namespace QuerySql

/-! ### The texts -/

/-- The pieces a statement is put together from: its head and anchor, the indexed lanes, the address lane of the
    joined name, and the page's own cursor. -/
inductive Part where
  | anchor
  | idSet
  | rowTest
  | actionSource
  | joinedAddress
  | cursor
  deriving DecidableEq

section texts
variable (db : Db) (method : Method) (column : Row → Option ℕ)

/-- One leg of the id set: the action indexes of what it finds by the bound id. -/
def leg (found : Option ℕ → List ℕ) : Prepared (Option ℕ) (List ℕ) := .hole fun bound => found bound.join

/-- The rows of the family with their actions: `px INNER JOIN actions pa`, and the transaction where there is one. -/
def family : List Joined := db.joined (db.table (listTable method .all))

/-- The fills with their dispensers: `dispenses px INNER JOIN dispensers pd`. -/
def fills : List (Row × Row) :=
  (db.table .dispenses).flatMap fun px =>
    ((db.table .dispensers).filter fun pd => px.dispenser_action_index = some pd.action_index).map fun pd => (px, pd)

/-- `twoPartyIdSetSql`. -/
def twoPartyIdSetSql : Prepared (Option ℕ) (Joined → Bool) :=
  let sourceSide := if method = .getDispenses
    then leg fun id => ((fills db).filter fun p => sqlEq p.2.get_address_id id).map (·.1.action_index)
    else .both (· ++ ·)
      (leg fun id => ((family db method).filter fun p => sqlEq p.a1.source_id id).map (·.m.action_index))
      (leg fun id => ((family db method).filter fun p =>
        p.a1.source_id.isNone && p.t1.any fun pt => sqlEq pt.source_id id).map (·.m.action_index))
  let counterpartSide := leg fun id =>
    ((db.table (listTable method .all)).filter fun px => sqlEq (column px) id).map (·.action_index)
  (Prepared.both (· ++ ·) sourceSide counterpartSide).map fun pu j => pu.contains j.m.action_index

/-- A test of one column against the bound id. -/
def equals (of : Joined → Option ℕ) : Prepared (Option ℕ) (Joined → Bool) := .hole fun bound j => sqlEq (of j) bound.join

/-- One of two conditions. -/
def either : (Joined → Bool) → (Joined → Bool) → Joined → Bool := fun p q j => p j || q j

/-- `ACTION_SOURCE_SQL`, without the conjunction it begins with. -/
def ACTION_SOURCE_SQL : Prepared (Option ℕ) (Joined → Bool) :=
  .both either (equals fun j => j.a1.source_id)
    ((equals fun j => j.t1.bind (·.source_id)).map fun p j => j.a1.source_id.isNone && p j)

/-- The dispenser of a fill, `d1` of its list. -/
def dispenserOf (m : Row) : Option Row :=
  (db.table .dispensers).find? fun d => m.dispenser_action_index = some d.action_index

/-- `twoPartyRowSql`. -/
def twoPartyRowSql : Prepared (Option ℕ) (Joined → Bool) :=
  if method = .getDispenses
    then .both either (equals fun j => (dispenserOf db j.m).bind (·.get_address_id)) (equals fun j => j.m.destination_id)
    else .both either ACTION_SOURCE_SQL (equals fun j => column j.m)

/-- What a piece says of a row. The page's cursor is bound by the page, not by the lane. -/
def Part.sql : Part → Prepared (Option ℕ) (Joined → Bool)
  | .anchor | .cursor => .text fun _ => true
  | .idSet => twoPartyIdSetSql db method column
  | .rowTest => twoPartyRowSql db method column
  | .actionSource => ACTION_SOURCE_SQL
  | .joinedAddress => equals fun _ => none

/-- The parameters of a text. -/
def placeholderCount (sql : List Part) : ℕ := (sql.map fun part => (part.sql db method column).placeholders).sum

/-! ### The choice of the form -/

/-- `TWO_PARTY_ADDRESS_SQL`. -/
def TWO_PARTY_ADDRESS_SQL : List Part := [.idSet, .rowTest]

/-- The data-WHERE of an address request. -/
def addressWhere : List Part := .anchor :: TWO_PARTY_ADDRESS_SQL

/-- How many times the resolved id binds. -/
def laneBinds (sql : List Part) : ℕ :=
  if TWO_PARTY_ADDRESS_SQL <:+: sql then placeholderCount db method column TWO_PARTY_ADDRESS_SQL
  else if .actionSource ∈ sql then placeholderCount db method column [.actionSource] else 0

/-- What `markActionSource` leaves on the request. -/
structure Marked where
  actionSourceAddress : String
  actionSourceBinds : ℕ
  twoPartyLane : Bool

/-- The lane of a statement, if it binds the address. -/
def markActionSource (search : String) (sql : List Part) : Option Marked :=
  let binds := laneBinds db method column sql
  if binds = 0 then none
  else some {
    actionSourceAddress := search, actionSourceBinds := binds, twoPartyLane := TWO_PARTY_ADDRESS_SQL <:+: sql }

/-- The rows from which an address counts as dense. -/
def DEFAULT_DENSE_ROWS : ℕ := 10000

/-- `EXPLORER_TWO_PARTY_DENSE_ROWS` as `parseInt` reads it, where it is a positive number. -/
def denseThreshold (env : Option ℤ) : ℕ :=
  match env with
  | some value => if 0 < value then value.toNat else DEFAULT_DENSE_ROWS
  | none => DEFAULT_DENSE_ROWS

/-- `isDenseAddress`: each side is counted up to the threshold. -/
def isDenseAddress (env : Option ℤ) (id : ℕ) : Bool :=
  let limit := denseThreshold env
  let sourceSide := if method = .getDispenses
    then ((fills db).filter fun p => sqlEq p.2.get_address_id (some id)).length
    else (db.actions.filter fun pa => sqlEq pa.source_id (some id)).length
  let counterpartSide := ((db.table (listTable method .all)).filter fun px => sqlEq (column px) (some id)).length
  limit ≤ min limit sourceSide + min limit counterpartSide

/-- What `resolveActionSource` leaves on the request. -/
structure Lane where
  dataArgs : List (Option ℕ)
  orderedWalk : Bool := false

/-- The lane that the address is served by. -/
def resolveActionSource (env : Option ℤ) (marked : Marked) : Lane :=
  let id := db.index_addresses.symm marked.actionSourceAddress
  let binds := if marked.actionSourceBinds = 0 then placeholderCount db method column [.actionSource]
    else marked.actionSourceBinds
  if marked.twoPartyLane && id.any (isDenseAddress db method column env) then
    { dataArgs := List.replicate (placeholderCount db method column [.rowTest]) id, orderedWalk := true }
  else { dataArgs := List.replicate binds id }

/-- The ordered-walk form takes the id set out of the text. -/
def laneStatement (orderedWalk : Bool) (sql : List Part) : List Part :=
  if orderedWalk then sql.filter (· ≠ .idSet) else sql

/-! ### What runs -/

/-- The rows a statement over the list's joins selects. -/
def selected (sql : List Part) (args : List (Option ℕ)) : List Joined :=
  (family db method).filter fun j => listJoin db method (.address "") j &&
    (Prepared.all (sql.map fun part => part.sql db method column)).value args j

/-- `runListQuery` on the request of an address. -/
def runAddress (env : Option ℤ) (search : String) : Option (List Part × List (Option ℕ)) :=
  (markActionSource db method column search addressWhere).map fun marked =>
    let lane := resolveActionSource db method column env marked
    (laneStatement lane.orderedWalk addressWhere, lane.dataArgs)

/-- The source of a row: the action's own, else its transaction's; that of a fill is its dispenser's address. -/
def sourceId (j : Joined) : Option ℕ :=
  if method = .getDispenses then (dispenserOf db j.m).bind (·.get_address_id)
  else j.a1.source_id.or (j.t1.bind (·.source_id))

/-- The address is a party of the row. -/
def isParty (address : String) (j : Joined) : Bool :=
  (sourceId db method j).bind db.index_addresses = some address ||
    (column j.m).bind db.index_addresses = some address

end texts

/-! ### What the forms say -/

section forms
variable {db : Db} {method : Method} {column : Row → Option ℕ} {id : Option ℕ} {j : Joined} {address : String}

@[simp] theorem filled_leg (found : Option ℕ → List ℕ) : (leg found).filled id = found id := rfl

@[simp] theorem filled_equals (of : Joined → Option ℕ) :
    (equals of).filled id = fun j => sqlEq (of j) id := rfl

theorem filled_actionSource : ACTION_SOURCE_SQL.filled id = actionSource id := by
  simp only [ACTION_SOURCE_SQL, Prepared.filled_both, Prepared.filled_map, filled_equals]
  rfl

theorem column_of_dispenses (hcolumn : counterpart .getDispenses = some column) :
    column = fun m => m.destination_id := (Option.some.inj hcolumn).symm

/-- A fill has one dispenser. -/
theorem dispenserOf_eq_some {m d : Row} :
    dispenserOf db m = some d ↔ d ∈ db.table .dispensers ∧ m.dispenser_action_index = some d.action_index := by
  constructor
  · intro h
    exact ⟨List.mem_of_find?_eq_some h, by simpa using List.find?_some h⟩
  · rintro ⟨hmem, hof⟩
    cases hfound : dispenserOf db m with
    | none => exact absurd (decide_eq_true hof) (List.find?_eq_none.mp hfound d hmem)
    | some d' =>
      have hof' : m.dispenser_action_index = some d'.action_index := by simpa using List.find?_some hfound
      have hindex : d'.action_index = d.action_index := Option.some.inj (hof'.symm.trans hof)
      rw [List.inj_on_of_nodup_map (db.one_row .dispensers rfl) (List.mem_of_find?_eq_some hfound) hmem hindex]

theorem dispenserAddress_eq (m : Row) :
    dispenserAddress db id m = sqlEq ((dispenserOf db m).bind (·.get_address_id)) id := by
  rw [Bool.eq_iff_iff, dispenserAddress, List.any_eq_true, sqlEq_iff]
  constructor
  · rintro ⟨d, hd, htest⟩
    obtain ⟨hof, haddress⟩ := Bool.and_eq_true_iff.mp htest
    obtain ⟨i, hi, hid⟩ := sqlEq_iff.mp haddress
    refine ⟨i, ?_, hid⟩
    rw [dispenserOf_eq_some.mpr ⟨hd, of_decide_eq_true hof⟩, Option.bind_some, hi]
  · rintro ⟨i, hi, hid⟩
    obtain ⟨d, hd, hi⟩ := Option.bind_eq_some_iff.mp hi
    obtain ⟨hmem, hof⟩ := dispenserOf_eq_some.mp hd
    exact ⟨d, hmem, Bool.and_eq_true_iff.mpr ⟨decide_eq_true hof, sqlEq_iff.mpr ⟨i, hi, hid⟩⟩⟩

/-- The test of the row, given the id for all its placeholders. -/
theorem filled_rowSql (hcolumn : counterpart method = some column) :
    (twoPartyRowSql db method column).filled id = twoPartyRow db id method column := by
  funext j
  unfold twoPartyRowSql twoPartyRow sourceSide
  split_ifs with h
  · subst h
    rw [column_of_dispenses hcolumn, Prepared.filled_both, filled_equals, filled_equals, dispenserAddress_eq]
    rfl
  · rw [Prepared.filled_both, filled_actionSource, filled_equals]
    rfl

theorem transaction_source (t : Option TransactionRow) :
    (t.any fun pt => sqlEq pt.source_id id) = sqlEq (t.bind (·.source_id)) id := by
  cases t <;> rfl

theorem mem_leg_rows {rows' : List Row} {q : Row → Bool} :
    j.m.action_index ∈ (rows'.filter q).map (·.action_index) ↔
      ∃ px ∈ rows', px.action_index = j.m.action_index ∧ q px = true := by
  simp only [List.mem_map, List.mem_filter]
  exact ⟨fun ⟨px, ⟨hpx, hq⟩, hindex⟩ => ⟨px, hpx, hindex, hq⟩,
    fun ⟨px, hpx, hindex, hq⟩ => ⟨px, ⟨hpx, hq⟩, hindex⟩⟩

theorem mem_leg_fills : j.m.action_index ∈
      ((fills db).filter fun p => sqlEq p.2.get_address_id id).map (·.1.action_index) ↔
    ∃ px ∈ db.table .dispenses, px.action_index = j.m.action_index ∧ dispenserAddress db id px = true := by
  simp only [fills, List.mem_map, List.mem_filter, List.mem_flatMap, dispenserAddress, List.any_eq_true,
    Bool.and_eq_true, decide_eq_true_iff]
  constructor
  · rintro ⟨p, ⟨⟨px, hpx, pd, ⟨hpd, hof⟩, rfl⟩, haddress⟩, hindex⟩
    exact ⟨px, hpx, hindex, pd, hpd, hof, haddress⟩
  · rintro ⟨px, hpx, hindex, pd, hpd, hof, haddress⟩
    exact ⟨(px, pd), ⟨⟨px, hpx, pd, ⟨hpd, hof⟩, rfl⟩, haddress⟩, hindex⟩

section set
variable {rows : List Row} (hj : j ∈ db.joined rows)

include hj

/-- The other rows of an action are joined with it as well. -/
theorem join_of_index {px : Row} (h : px.action_index = j.m.action_index) :
    db.join px = some ⟨px, j.a1, j.t1⟩ := by
  rw [Db.join, h, action_of_joined hj, Option.map_some, transaction_of_joined hj]

theorem mem_leg_joined {rows' : List Row} {q : Joined → Bool} :
    j.m.action_index ∈ ((db.joined rows').filter q).map (·.m.action_index) ↔
      ∃ px ∈ rows', px.action_index = j.m.action_index ∧ q ⟨px, j.a1, j.t1⟩ = true := by
  simp only [List.mem_map, List.mem_filter, mem_joined]
  constructor
  · rintro ⟨p, ⟨⟨hm, hjoin⟩, hq⟩, hindex⟩
    refine ⟨p.m, hm, hindex, ?_⟩
    rwa [← Option.some.inj (hjoin.symm.trans (join_of_index hj hindex))]
  · rintro ⟨px, hpx, hindex, hq⟩
    exact ⟨_, ⟨⟨hpx, join_of_index hj hindex⟩, hq⟩, hindex⟩

theorem twoPartyIdSet_iff_exists : twoPartyIdSet db id method column j = true ↔
    ∃ px ∈ db.table (listTable method .all), px.action_index = j.m.action_index ∧
      twoPartyRow db id method column ⟨px, j.a1, j.t1⟩ = true := by
  simp only [twoPartyIdSet, List.any_eq_true, Bool.and_eq_true, decide_eq_true_iff]
  refine exists_congr fun px => and_congr_right fun _ => and_congr_right fun hindex => ?_
  rw [join_of_index hj hindex, Option.any_some, twoPartyRow]

/-- The set of the actions, given the id for all its placeholders. -/
theorem filled_idSetSql (hcolumn : counterpart method = some column) :
    (twoPartyIdSetSql db method column).filled id j = twoPartyIdSet db id method column j := by
  rw [Bool.eq_iff_iff, twoPartyIdSet_iff_exists hj]
  unfold twoPartyIdSetSql
  simp only [Prepared.filled_map, Prepared.filled_both, filled_leg, List.contains_iff_mem]
  split_ifs with h
  · subst h
    simp only [filled_leg, List.mem_append, mem_leg_fills, mem_leg_rows, twoPartyRow, sourceSide, if_true,
      Bool.or_eq_true, and_or_left, exists_or]
    rfl
  · simp only [Prepared.filled_both, filled_leg, List.mem_append, family, mem_leg_joined hj, mem_leg_rows,
      twoPartyRow, sourceSide, if_neg h, actionSource, Bool.or_eq_true, and_or_left, exists_or]
    simp only [transaction_source]

end set

/-- The second column counts where the first is null. -/
theorem sqlEq_or (a b : Option ℕ) : sqlEq (a.or b) id = (sqlEq a id || (a.isNone && sqlEq b id)) := by
  cases a with
  | none => rfl
  | some => exact (Bool.or_false _).symm

/-- The address is a party of the row where the test of the row says so of its id. -/
theorem isParty_eq_row :
    isParty db method column address j =
      twoPartyRow db (db.index_addresses.symm address) method column j := by
  have hsource : sqlEq (sourceId db method j) (db.index_addresses.symm address) =
      sourceSide db (db.index_addresses.symm address) method j := by
    unfold sourceId sourceSide
    split_ifs
    · rw [dispenserAddress_eq]
    · rw [sqlEq_or, actionSource]
  rw [isParty, bind_eq_sqlEq, bind_eq_sqlEq, hsource, twoPartyRow]

/-! ### What runs -/

/-- The form with the id set. -/
def idSetForm : List Part := addressWhere

/-- The form that walks the ordered index. -/
def walkForm : List Part := laneStatement true addressWhere

theorem selected_filled (sql : List Part) (id : Option ℕ) :
    selected db method column sql (List.replicate (placeholderCount db method column sql) id) =
      (family db method).filter fun j => listJoin db method (.address "") j &&
        sql.all fun part => (part.sql db method column).filled id j := by
  unfold selected
  refine List.filter_congr fun j _ => congrArg _ ?_
  have hcount : placeholderCount db method column sql =
      (Prepared.all (sql.map fun part => part.sql db method column)).placeholders := by
    rw [Prepared.placeholders_all, List.map_map, placeholderCount]
    rfl
  rw [hcount]
  exact (Prepared.filled_all _ j).trans List.all_map

/-- Both forms of the lane are the definition, as long as the id is bound for every placeholder. -/
theorem selected_form (hcolumn : counterpart method = some column) {sql : List Part}
    (hsql : sql = idSetForm ∨ sql = walkForm) :
    selected db method column sql (List.replicate (placeholderCount db method column sql)
        (db.index_addresses.symm address)) =
      (family db method).filter fun j => listJoin db method (.address "") j && isParty db method column address j := by
  rw [selected_filled]
  refine List.filter_congr fun j hj => congrArg _ ?_
  have hrow : (Part.rowTest.sql db method column).filled (db.index_addresses.symm address) j =
      isParty db method column address j := by
    rw [Part.sql, filled_rowSql hcolumn, isParty_eq_row]
  have hset : (Part.idSet.sql db method column).filled (db.index_addresses.symm address) j =
      twoPartyIdSet db (db.index_addresses.symm address) method column j := by
    rw [Part.sql, filled_idSetSql hj hcolumn]
  obtain rfl | rfl := hsql
  · have hparts : (idSetForm.all fun part =>
          (part.sql db method column).filled (db.index_addresses.symm address) j) =
        (twoPartyIdSet db (db.index_addresses.symm address) method column j &&
          isParty db method column address j) := by
      rw [← hset, ← hrow, ← Bool.and_true (_ && _), Bool.and_assoc]
      rfl
    rw [hparts, Bool.and_eq_right_iff_imp]
    intro hparty
    exact twoPartyIdSet_of_row hj (isParty_eq_row ▸ hparty)
  · have hparts : (walkForm.all fun part =>
          (part.sql db method column).filled (db.index_addresses.symm address) j) =
        isParty db method column address j := by
      rw [← hrow]
      exact Bool.and_true _
    exact hparts

theorem placeholderCount_rowTest : 0 < placeholderCount db method column [.rowTest] := by
  unfold placeholderCount
  rw [List.map_singleton, List.sum_singleton, Part.sql, twoPartyRowSql]
  split_ifs <;> exact Nat.succ_pos _

/-- The anchor of a statement takes no id. -/
theorem placeholderCount_where :
    placeholderCount db method column idSetForm = placeholderCount db method column TWO_PARTY_ADDRESS_SQL :=
  Nat.zero_add _

theorem laneBinds_where :
    laneBinds db method column addressWhere = placeholderCount db method column idSetForm := by
  have hcarries : TWO_PARTY_ADDRESS_SQL <:+: addressWhere := ⟨[.anchor], [], rfl⟩
  rw [laneBinds, if_pos hcarries, placeholderCount_where]

theorem placeholderCount_idSetForm : 0 < placeholderCount db method column idSetForm := by
  have hrow : placeholderCount db method column [.rowTest] ≤ placeholderCount db method column idSetForm := by
    rw [placeholderCount_where]
    exact Nat.le_add_left _ _
  exact placeholderCount_rowTest.trans_le hrow

/-- What runs is one of the two forms, with the id bound for every placeholder of it. -/
theorem runAddress_eq (db : Db) (method : Method) (column : Row → Option ℕ) (env : Option ℤ) (address : String) :
    ∃ sql, (sql = idSetForm ∨ sql = walkForm) ∧ runAddress db method column env address =
      some (sql, List.replicate (placeholderCount db method column sql) (db.index_addresses.symm address)) := by
  have hbinds : placeholderCount db method column idSetForm ≠ 0 := placeholderCount_idSetForm.ne'
  have hcarries : TWO_PARTY_ADDRESS_SQL <:+: addressWhere := ⟨[.anchor], [], rfl⟩
  simp only [runAddress, markActionSource, laneBinds_where, if_neg hbinds, Option.map_some, resolveActionSource,
    decide_eq_true hcarries, Bool.true_and]
  split_ifs with hdense
  · have hcount : placeholderCount db method column walkForm = placeholderCount db method column [.rowTest] :=
      Nat.zero_add _
    exact ⟨walkForm, .inr rfl, by rw [hcount]; rfl⟩
  · exact ⟨idSetForm, .inl rfl, rfl⟩

/-- The rows that the address is a party of, as the list joins them. -/
def partyRows (db : Db) (method : Method) (column : Row → Option ℕ) (address : String) : List Joined :=
  (family db method).filter fun j => listJoin db method (.address "") j && isParty db method column address j

/-- The action indexes that the boundary's form of the lane selects. -/
def boundaryIndexes (db : Db) (method : Method) (column : Row → Option ℕ) (address : String) : Finset ℕ :=
  (((family db method).filter fun j => db.viaAction j &&
    (twoPartyIdSetSql db method column).filled (db.index_addresses.symm address) j).map (·.m.action_index)).toFinset

theorem table_of_address : listTable method (.address address) = listTable method .all := by
  cases method <;> rfl

section cursors
variable (hcolumn : counterpart method = some column)

include hcolumn

theorem indexes_eq_cursors {rows : List Row} {p : Joined → Bool} :
    (((db.joined rows).filter p).map (·.m.action_index)).toFinset = cursors db method rows p := by
  have hindex : (fun j : Joined => j.m.action_index) = cursor method := by
    funext j
    refine (if_neg ?_).symm
    rintro rfl
    cases hcolumn
  rw [cursors, cursorRows, ← hindex]
  rfl

theorem partyRows_cursors : ((partyRows db method column address).map (·.m.action_index)).toFinset =
    listCursors db true method (.address address) := by
  have hblocks : method ≠ .getBlocks := by rintro rfl; cases hcolumn
  have hhistory : method ≠ .getHistory := by rintro rfl; cases hcolumn
  rw [listCursors_of_table hblocks fun h => absurd h hhistory, table_of_address, partyRows, family,
    indexes_eq_cursors hcolumn]
  refine cursors_congr fun j _ => congrArg₂ _ ?_ ?_
  · cases method <;> rfl
  · rw [isParty_eq_row]
    cases method <;> cases hcolumn <;> rfl

theorem boundaryIndexes_eq :
    boundaryIndexes db method column address = boundaryCursors db method (.address address) := by
  have hblocks : method ≠ .getBlocks := by rintro rfl; cases hcolumn
  have hlists : method ≠ .getLists := by rintro rfl; cases hcolumn
  have hhistory : method ≠ .getHistory := by rintro rfl; cases hcolumn
  rw [boundaryCursors_of_table hblocks hlists fun h => absurd h hhistory, table_of_address,
    boundaryIndexes, family, indexes_eq_cursors hcolumn]
  refine cursors_congr fun j hj => congrArg _ ?_
  rw [filled_idSetSql hj hcolumn]
  cases method <;> cases hcolumn <;> rfl

end cursors

/-- The boundary selects the actions of the rows, and those of the fills whose dispenser or transaction is not
    there. -/
theorem boundaryIndexes_eq_iff (hcolumn : counterpart method = some column) :
    boundaryIndexes db method column address =
        ((partyRows db method column address).map (·.m.action_index)).toFinset ↔
      (method = .getDispenses → ∀ j ∈ family db .getDispenses, isParty db .getDispenses column address j = true →
        j.Carried ∧ dispenserJoin db j = true) := by
  have haccepts : accepts method (.address address) = true := by
    cases method <;> first | rfl | cases hcolumn
  rw [partyRows_cursors hcolumn, boundaryIndexes_eq hcolumn, boundaryCursors_eq_iff true haccepts]
  by_cases hmethod : method = .getDispenses
  · subst hmethod
    rw [imp_iff_right rfl]
    refine forall₂_congr fun j hj => imp_congr_left ?_
    have hwhere : boundaryWhere db .getDispenses (.address address) j =
        twoPartyIdSet db (db.index_addresses.symm address) .getDispenses (·.destination_id) j := rfl
    rw [isParty_eq_row, column_of_dispenses hcolumn, hwhere]
    exact twoPartyIdSet_iff_row rfl hj
  · refine iff_of_true ?_ fun h => absurd h hmethod
    cases method <;> trivial

/-- The forms of the lane of an address select the rows that it is a party of, and the one that runs has its
    placeholders bound. -/
structure Agrees (db : Db) (method : Method) (column : Row → Option ℕ) (env : Option ℤ) (address : String) : Prop where
  forms : ∀ sql, sql = idSetForm ∨ sql = walkForm →
    selected db method column sql (List.replicate (placeholderCount db method column sql)
      (db.index_addresses.symm address)) = partyRows db method column address
  runs : ∃ sql args, runAddress db method column env address = some (sql, args) ∧
    (sql = idSetForm ∨ sql = walkForm) ∧ args.length = placeholderCount db method column sql ∧
      selected db method column sql args = partyRows db method column address

theorem agrees (hcolumn : counterpart method = some column) (env : Option ℤ) : Agrees db method column env address where
  forms _ hsql := selected_form hcolumn hsql
  runs := by
    obtain ⟨sql, hsql, hruns⟩ := runAddress_eq db method column env address
    exact ⟨sql, _, hruns, hsql, List.length_replicate, selected_form hcolumn hsql⟩

end forms

/-! ### The lanes agree -/

/-- The forms of a list of two parties agree for every address. The boundary's agrees with them but for the fills
    that name the address and are not listed. -/
theorem two_party_lanes (db : Db) (method : Method) (column : Row → Option ℕ) (env : Option ℤ) (address : String)
    (hcolumn : counterpart method = some column) :
    Agrees db method column env address ∧
      (boundaryIndexes db method column address =
          ((partyRows db method column address).map (·.m.action_index)).toFinset ↔
        (method = .getDispenses → ∀ j ∈ family db .getDispenses, isParty db .getDispenses column address j = true →
          j.Carried ∧ dispenserJoin db j = true)) :=
  ⟨agrees hcolumn env, boundaryIndexes_eq_iff hcolumn⟩

/-- A send to an address, and a fill that is paid to it, whose dispenser is not there. -/
def lostFill : Db where
  actions := [⟨5, 1, none, none, none⟩, ⟨6, 1, none, none, none⟩]
  transactions := []
  blocks := {1}
  table
    | .sends => [{ action_index := 6, destination_id := some 1 }]
    | .dispenses => [{ action_index := 5, dispenser_action_index := some 3, destination_id := some 1 }]
    | _ => []
  list_metas := none
  index_addresses := PEquiv.single 1 "payee"
  index_tickers := ⊥
  index_coins := ⊥
  action_index_unique := by decide
  tx_index_unique := List.nodup_nil
  one_row t _ := by cases t <;> decide
  token_id_unique := by decide
  one_mapping := by decide
  action_block := by decide
  transaction_block := by decide

theorem two_party_lanes_lost : Agrees lostFill .getSends (·.destination_id) none "payee" ∧
    boundaryIndexes lostFill .getSends (·.destination_id) "payee" =
      ((partyRows lostFill .getSends (·.destination_id) "payee").map (·.m.action_index)).toFinset :=
  have h := two_party_lanes lostFill .getSends (·.destination_id) none "payee" rfl
  ⟨h.1, h.2.mpr fun hmethod => nomatch hmethod⟩

/-- The boundary selects the fill, and the list does not. -/
theorem not_two_party_lanes : ¬ ∀ (db : Db) (method : Method) (column : Row → Option ℕ) (env : Option ℤ)
    (address : String), counterpart method = some column → Agrees db method column env address ∧
      boundaryIndexes db method column address =
        ((partyRows db method column address).map (·.m.action_index)).toFinset := by
  intro h
  have hsame := (h lostFill .getDispenses (·.destination_id) none "payee" rfl).2
  have hrows : partyRows lostFill .getDispenses (·.destination_id) "payee" = [] := by decide
  have hboundary : boundaryIndexes lostFill .getDispenses (·.destination_id) "payee" = {5} := by decide
  rw [hrows, hboundary] at hsame
  exact absurd hsame (by decide)

end QuerySql
