import XChainExplorer.Explorer.ListTables

/-! # Where the boundary's filter is the list's

    For most lists and filters the boundary selects the cursors the list selects, whatever the tables
    hold. For the others it is said which rows make the difference: fills, swaps and prices without a
    transaction, a token on the one side of an offer and not on the other, renames of lists. -/

namespace QuerySql

/-! ### Selected cursors -/

theorem sqlEq_iff {column bind : Option ℕ} :
    sqlEq column bind = true ↔ ∃ i, column = some i ∧ bind = some i := by
  cases column with
  | none => simp [sqlEq]
  | some i => simp [sqlEq, eq_comm]

/-- A row that is joined with a text is the row that carries the text's id. -/
theorem bind_eq_sqlEq (index : ℕ ≃. String) (column : Option ℕ) (text : String) :
    decide (column.bind index = some text) = sqlEq column (index.symm text) := by
  rw [Bool.eq_iff_iff, decide_eq_true_iff, sqlEq_iff, Option.bind_eq_some_iff]
  constructor
  · rintro ⟨i, hi, htext⟩
    exact ⟨i, hi, index.eq_some_iff.mpr htext⟩
  · rintro ⟨i, hi, htext⟩
    exact ⟨i, hi, index.eq_some_iff.mp htext⟩

section rows
variable {db : Db} {j j' : Joined} {rows rows' : List Row} {method : Method} {p q : Joined → Bool}
  {c : ℕ}

theorem join_eq_some {m : Row} (h : db.join m = some j) :
    j.m = m ∧ db.action m.action_index = some j.a1 ∧ j.t1 = db.transaction j.a1 := by
  rw [Db.join, Option.map_eq_some_iff] at h
  obtain ⟨a1, ha, rfl⟩ := h
  exact ⟨rfl, ha, rfl⟩

theorem mem_joined : j ∈ db.joined rows ↔ j.m ∈ rows ∧ db.join j.m = some j := by
  rw [Db.joined, List.mem_filterMap]
  constructor
  · rintro ⟨m, hm, hj⟩
    obtain ⟨rfl, -⟩ := join_eq_some hj
    exact ⟨hm, hj⟩
  · rintro ⟨hm, hj⟩
    exact ⟨j.m, hm, hj⟩

theorem mem_cursors :
    c ∈ cursors db method rows p ↔ ∃ j ∈ db.joined rows, p j = true ∧ cursor method j = c := by
  simp only [cursors, cursorRows, Multiset.mem_toFinset, Multiset.mem_coe, List.mem_map, List.mem_filter, and_assoc]

theorem cursorRows_congr (h : ∀ j ∈ db.joined rows, p j = q j) :
    cursorRows db method rows p = cursorRows db method rows q := by
  rw [cursorRows, cursorRows, List.filter_congr h]

theorem cursors_congr (h : ∀ j ∈ db.joined rows, p j = q j) :
    cursors db method rows p = cursors db method rows q := by
  rw [cursors, cursors, cursorRows_congr h]

theorem cursors_append :
    cursors db method (rows ++ rows') p = cursors db method rows p ∪ cursors db method rows' p := by
  ext c
  simp only [mem_cursors, Finset.mem_union, Db.joined, List.filterMap_append, List.mem_append, or_and_right, exists_or]

/-- Two rows of one action are one row, where the table has one row to an action. -/
theorem joined_inj (hunique : (rows.map (·.action_index)).Nodup) (hj : j ∈ db.joined rows)
    (hj' : j' ∈ db.joined rows) (h : j.m.action_index = j'.m.action_index) : j = j' := by
  obtain ⟨hm, hjoin⟩ := mem_joined.mp hj
  obtain ⟨hm', hjoin'⟩ := mem_joined.mp hj'
  have hrow : j.m = j'.m := List.inj_on_of_nodup_map hunique hm hm' h
  rw [hrow, hjoin'] at hjoin
  exact (Option.some.inj hjoin).symm

theorem rows_of_joined (rows : List Row) : ((db.joined rows).map (·.m)).Sublist rows := by
  induction rows with
  | nil => exact List.Sublist.slnil
  | cons m rows ih =>
    rw [Db.joined, List.filterMap_cons]
    cases hjoin : db.join m with
    | none => exact ih.cons m
    | some j =>
      rw [List.map_cons, (join_eq_some hjoin).1]
      exact ih.cons_cons m

/-- Rows that a key tells apart have distinct cursors where the selected ones of one cursor agree on it. -/
theorem nodup_cursorRows {κ : Type} {key : Row → κ} (hkey : (rows.map key).Nodup)
    (hcursor : ∀ j ∈ db.joined rows, ∀ j' ∈ db.joined rows, p j = true → p j' = true →
      cursor method j = cursor method j' → key j.m = key j'.m) : (cursorRows db method rows p).Nodup := by
  have hjoined : ((db.joined rows).map fun j => key j.m).Nodup := by
    have hsub := (@rows_of_joined db rows).map key
    rw [List.map_map] at hsub
    exact hkey.sublist hsub
  have hrows : ((db.joined rows).filter p).Nodup := (hjoined.of_map _).filter _
  rw [cursorRows, Multiset.coe_nodup]
  refine hrows.map_on fun j hj j' hj' heq => ?_
  obtain ⟨hj, hp⟩ := List.mem_filter.mp hj
  obtain ⟨hj', hp'⟩ := List.mem_filter.mp hj'
  exact List.inj_on_of_nodup_map hjoined hj hj' (hcursor j hj j' hj' hp hp' heq)

/-- Over a table with one row to an action, two tests select the same cursors where no row tells
    them apart. -/
theorem cursors_eq_iff (hmethod : method ≠ .getTokens)
    (hunique : (rows.map (·.action_index)).Nodup) :
    cursors db method rows p = cursors db method rows q ↔ ∀ j ∈ db.joined rows, p j = q j := by
  have hcursor (j : Joined) : cursor method j = j.m.action_index := if_neg hmethod
  have himp {p q : Joined → Bool} (h : cursors db method rows p = cursors db method rows q)
      {j : Joined} (hj : j ∈ db.joined rows) (hp : p j = true) : q j = true := by
    have hmem : j.m.action_index ∈ cursors db method rows q :=
      h ▸ mem_cursors.mpr ⟨j, hj, hp, hcursor j⟩
    obtain ⟨j', hj', hq, heq⟩ := mem_cursors.mp hmem
    rw [hcursor] at heq
    exact joined_inj hunique hj' hj heq ▸ hq
  refine ⟨fun h j hj => ?_, cursors_congr⟩
  rw [Bool.eq_iff_iff]
  exact ⟨himp h hj, himp h.symm hj⟩

/-! ### What is joined -/

section joined
variable (hj : j ∈ db.joined rows)

include hj

theorem action_of_joined : db.action j.m.action_index = some j.a1 :=
  (join_eq_some (mem_joined.mp hj).2).2.1

theorem transaction_of_joined : j.t1 = db.transaction j.a1 := (join_eq_some (mem_joined.mp hj).2).2.2

theorem viaAction_of_joined : db.viaAction j = true := by
  have hmem := List.mem_of_find?_eq_some (action_of_joined hj)
  exact decide_eq_true (db.action_block _ hmem)

theorem block_of_transaction {t : TransactionRow} (ht : j.t1 = some t) :
    t.block_index = j.a1.block_index := by
  have hmem := List.mem_of_find?_eq_some (action_of_joined hj)
  rw [transaction_of_joined hj, Db.transaction, Option.bind_eq_some_iff] at ht
  obtain ⟨i, hi, hfind⟩ := ht
  have htx : t.tx_index = i := by simpa using List.find?_some hfind
  exact db.transaction_block _ hmem t (List.mem_of_find?_eq_some hfind) (htx ▸ hi)

/-- A list that goes through the transactions leaves the actions of the chain's own out. -/
theorem viaTransaction_of_joined : db.viaTransaction j = j.t1.isSome := by
  have hblock : j.a1.block_index ∈ db.blocks := of_decide_eq_true (viaAction_of_joined hj)
  cases ht : j.t1 with
  | none => simp [Db.viaTransaction, ht]
  | some t => simp [Db.viaTransaction, ht, block_of_transaction hj ht, hblock]

end joined

end rows

/-! ### The rows that make the difference -/

section difference
variable (db : Db)

/-- The row is of an action that a transaction carries. -/
def Joined.Carried (j : Joined) : Prop := j.t1.isSome

/-- The action of the row is looked up by the ticker of this id as well. -/
def mappedTo (id : Option ℕ) (j : Joined) : Prop :=
  ∃ m ∈ db.table .mappings_actions, m.action_index = j.m.action_index ∧ m.type_id = some 1 ∧
    sqlEq (some m.id) id = true

/-- What a list and its boundary disagree about is not there: blocks that are not the one named, an
    action of the chain's own in a list that goes through the transactions, a fill without its
    dispenser, an offer with the token on the wrong side, a mapping without its file, a rename of a
    list, a history that is looked up by the id of a ticker. -/
def LinedUp (method : Method) (filter : Filter) : Prop :=
  let id := boundaryId db filter method
  match method, filter with
  | .getBlocks, .block block_index => ∀ b ∈ db.blocks, b = block_index
  | .getHistory, .token tick =>
    ∀ reference, Db.tickReference tick = some reference →
      ∀ j ∈ db.joined (db.table .mappings_actions), j.m.type_id = some 1 →
        (j.m.id = reference → mappedTo db id j) ∧
          (sqlEq (some j.m.id) id = true → mappedTo db (some reference) j)
  | .getLists, filter => ∀ j ∈ db.joined db.renames, boundaryWhere db .getLists filter j = true →
      ∃ m ∈ db.table .lists, m.action_index = j.m.action_index
  | .getFiles, .token tick => ∀ j ∈ db.joined (db.table .mappings_files),
      boundaryWhere db .getFiles (.token tick) j = true → fileJoin db j = true
  | .getDispensers, .token _ => ∀ j ∈ db.joined (db.table .dispensers),
      sqlEq j.m.give_tick_id id = sqlEq j.m.get_tick_id id
  | .getOrders, .token _ => ∀ j ∈ db.joined (db.table .orders),
      sqlEq j.m.get_tick_id id = true → sqlEq j.m.give_tick_id id = true
  | .getSwaps, .token _ => ∀ j ∈ db.joined (db.table .swaps),
      (sqlEq j.m.get_tick_id id = true → sqlEq j.m.give_tick_id id = true) ∧
        (sqlEq j.m.give_tick_id id = true → j.Carried)
  | .getDispenses, .token _ => ∀ j ∈ db.joined (db.table .dispenses),
      (j.Carried ∧ dispenserJoin db j = true ∧ sqlEq j.m.give_tick_id id = true) ↔
        sqlEq j.m.get_tick_id id = true
  | .getDispenses, filter => ∀ j ∈ db.joined (db.table .dispenses),
      boundaryWhere db .getDispenses filter j = true → j.Carried ∧ dispenserJoin db j = true
  | .getPrices, .address _ => ∀ j ∈ db.joined (db.table .prices),
      (j.Carried ∧ sqlEq j.m.source_id id = true) ↔ actionSource id j = true
  | .getAddresses, filter | .getBatches, filter | .getPrices, filter | .getSleeps, filter
  | .getSwaps, filter => ∀ j ∈ db.joined (db.table (listTable method filter)),
      boundaryWhere db method filter j = true → j.Carried
  | _, _ => True

end difference

/-! ### The filters of both sides -/

section filters
variable {db : Db} {j : Joined} {rows : List Row} {method : Method} {filter : Filter} {dense : Bool}

theorem tokenClause_eq {tick : String}
    (h : method ∉ [.getDispensers, .getDispenses, .getOrders, .getSwaps, .getHistory]) :
    tokenClause db method tick j = boundaryWhere db method (.token tick) j := by
  have hmapped : decide (db.index_tickers j.m.id = some tick) =
      sqlEq (some j.m.id) (db.index_tickers.symm tick) :=
    bind_eq_sqlEq db.index_tickers (some j.m.id) tick
  cases method
  case getLinks => rfl
  case getFiles => exact congrArg (_ && ·) hmapped
  case getDispensers | getDispenses | getOrders | getSwaps | getHistory => simp at h
  all_goals exact bind_eq_sqlEq _ _ _

theorem addressClause_eq {address : String} (hone : counterpart method = none)
    (hprices : method ≠ .getPrices) :
    addressClause db dense method address j = boundaryWhere db method (.address address) j := by
  cases method
  case getTokens => exact bind_eq_sqlEq _ _ _
  case getHistory => rfl
  case getPrices => exact absurd rfl hprices
  all_goals first | rfl | cases hone

/-- A party of a row is a party of its action. -/
theorem twoPartyIdSet_of_row {id : Option ℕ} {column : Row → Option ℕ}
    (hj : j ∈ db.joined (db.table (listTable method .all)))
    (h : twoPartyRow db id method column j = true) : twoPartyIdSet db id method column j = true := by
  obtain ⟨hm, hjoin⟩ := mem_joined.mp hj
  refine List.any_eq_true.mpr ⟨j.m, hm, ?_⟩
  simp only [twoPartyRow] at h
  simp only [hjoin, Option.any_some, h, decide_true, Bool.and_self]

/-- A party of an action is a party of one of its rows. -/
theorem exists_row_of_twoPartyIdSet {id : Option ℕ} {column : Row → Option ℕ}
    (hj : j ∈ db.joined rows) (h : twoPartyIdSet db id method column j = true) :
    ∃ j' ∈ db.joined (db.table (listTable method .all)),
      j'.m.action_index = j.m.action_index ∧ twoPartyRow db id method column j' = true := by
  obtain ⟨px, hpx, hparty⟩ := List.any_eq_true.mp h
  simp only [Bool.and_eq_true, decide_eq_true_iff] at hparty
  obtain ⟨hindex, hparty⟩ := hparty
  have hjoin : db.join px = some ⟨px, j.a1, db.transaction j.a1⟩ := by
    rw [Db.join, hindex, action_of_joined hj, Option.map_some]
  rw [hjoin, Option.any_some] at hparty
  exact ⟨⟨px, j.a1, db.transaction j.a1⟩, mem_joined.mpr ⟨hpx, hjoin⟩, hindex, hparty⟩

/-- A list of two parties shows the actions of either, whichever way it is read. -/
theorem twoParty_cursors {id : Option ℕ} {column : Row → Option ℕ} (hmethod : method ≠ .getTokens) :
    cursors db method (db.table (listTable method .all)) (fun j =>
        db.viaAction j && twoPartyIdSet db id method column j) =
      cursors db method (db.table (listTable method .all)) fun j => db.viaAction j &&
        ((dense || twoPartyIdSet db id method column j) && twoPartyRow db id method column j) := by
  have hcursor (j : Joined) : cursor method j = j.m.action_index := if_neg hmethod
  ext c
  rw [mem_cursors, mem_cursors]
  constructor
  · rintro ⟨j, hj, hset, rfl⟩
    obtain ⟨-, hset⟩ := Bool.and_eq_true_iff.mp hset
    obtain ⟨j', hj', hindex, hrow⟩ := exists_row_of_twoPartyIdSet hj hset
    refine ⟨j', hj', ?_, by rw [hcursor, hcursor, hindex]⟩
    rw [viaAction_of_joined hj', twoPartyIdSet_of_row hj' hrow, hrow, Bool.or_true]
    rfl
  · rintro ⟨j, hj, hrow, hc⟩
    simp only [Bool.and_eq_true] at hrow
    refine ⟨j, hj, ?_, hc⟩
    rw [viaAction_of_joined hj, twoPartyIdSet_of_row hj hrow.2.2]
    rfl

/-- The lists whose filter and boundary are one and the same. -/
theorem cursors_agree (hmethod : method ∉ [.getBlocks, .getHistory, .getLists])
    (hthrough : throughTransaction method = false)
    (htoken : ∀ tick, filter = .token tick → method ∉ [.getDispensers, .getOrders, .getFiles]) :
    boundaryCursors db method filter = listCursors db dense method filter := by
  simp only [List.mem_cons, List.not_mem_nil, or_false, not_or] at hmethod
  obtain ⟨hblocks, hhistory, hlists⟩ := hmethod
  have hjoin (j : Joined) : listJoin db method filter j = db.viaAction j := by
    unfold listJoin
    rw [hthrough, if_neg Bool.false_ne_true]
    split
    · cases hthrough
    · exact absurd (by simp) (htoken _ rfl)
    · exact Bool.and_true _
  simp only [boundaryCursors, listCursors, if_neg hblocks, hhistory, decide_false, Bool.false_and,
    Bool.false_eq_true, if_false, boundaryRows, if_neg hlists, hjoin]
  cases filter with
  | all => rfl
  | block block_index =>
    refine cursors_congr fun j hj => ?_
    simp only [genericClause, blockClause, hthrough, boundaryWhere, if_neg Bool.false_ne_true]
  | token tick =>
    refine cursors_congr fun j hj => ?_
    have htoken := htoken tick rfl
    rw [genericClause, tokenClause_eq]
    cases method <;> simp_all [throughTransaction]
  | address address =>
    cases hparty : counterpart method with
    | none =>
      refine cursors_congr fun j hj => ?_
      rw [genericClause, addressClause_eq hparty]
      rintro rfl
      cases hthrough
    | some column =>
      have htable : listTable method (.address address) = listTable method .all := by
        cases method <;> rfl
      have hboundary (j : Joined) : boundaryWhere db method (.address address) j =
          twoPartyIdSet db (db.index_addresses.symm address) method column j := by
        cases method <;> cases hparty <;> rfl
      have hclause (j : Joined) : genericClause db dense method (.address address) j =
          ((dense || twoPartyIdSet db (db.index_addresses.symm address) method column j) &&
            twoPartyRow db (db.index_addresses.symm address) method column j) := by
        cases method <;> cases hparty <;> rfl
      simp only [hboundary, hclause, htable]
      refine twoParty_cursors ?_
      rintro rfl
      cases hparty

/-! ### When the boundary is the list's -/

theorem listCursors_of_table (hblocks : method ≠ .getBlocks)
    (hhistory : method = .getHistory → isLookup filter = true) :
    listCursors db dense method filter =
      cursors db method (db.table (listTable method filter)) fun j =>
        listJoin db method filter j && genericClause db dense method filter j := by
  rw [listCursors, if_neg hblocks, if_neg]
  intro h
  obtain ⟨hmethod, hlookup⟩ := Bool.and_eq_true_iff.mp h
  rw [hhistory (of_decide_eq_true hmethod)] at hlookup
  cases hlookup

theorem boundaryCursors_of_table (hblocks : method ≠ .getBlocks) (hlists : method ≠ .getLists)
    (hhistory : method = .getHistory → isLookup filter = true) :
    boundaryCursors db method filter =
      cursors db method (db.table (listTable method filter)) fun j =>
        db.viaAction j && boundaryWhere db method filter j := by
  rw [boundaryCursors, if_neg hblocks, if_neg, boundaryRows, if_neg hlists]
  intro h
  obtain ⟨hmethod, hlookup⟩ := Bool.and_eq_true_iff.mp h
  rw [hhistory (of_decide_eq_true hmethod)] at hlookup
  cases hlookup

/-- Of a table with one row to an action the two sides select the same where they agree on every
    row. -/
theorem cursors_eq_iff_rows (hone : manyRowed (listTable method filter) = false)
    (hmethod : method ∉ [.getBlocks, .getLists, .getHistory, .getTokens]) :
    boundaryCursors db method filter = listCursors db dense method filter ↔
      ∀ j ∈ db.joined (db.table (listTable method filter)), (boundaryWhere db method filter j = true ↔
        listJoin db method filter j = true ∧ genericClause db dense method filter j = true) := by
  simp only [List.mem_cons, List.not_mem_nil, or_false, not_or] at hmethod
  obtain ⟨hblocks, hlists, hhistory, htokens⟩ := hmethod
  rw [listCursors_of_table hblocks fun h => absurd h hhistory,
    boundaryCursors_of_table hblocks hlists fun h => absurd h hhistory,
    cursors_eq_iff htokens (db.one_row _ hone)]
  refine forall₂_congr fun j hj => ?_
  rw [viaAction_of_joined hj, Bool.true_and, Bool.eq_iff_iff, Bool.and_eq_true]

section through
variable (hj : j ∈ db.joined rows)

include hj

theorem listJoin_through (h : method ∈ [.getAddresses, .getBatches, .getPrices, .getSleeps, .getSwaps]) :
    listJoin db method filter j = true ↔ j.Carried := by
  have hvia : listJoin db method filter j = db.viaTransaction j := by
    cases method <;> first | exact Bool.and_true _ | simp at h
  rw [hvia, viaTransaction_of_joined hj, Joined.Carried]

theorem listJoin_dispenses :
    listJoin db .getDispenses filter j = true ↔ j.Carried ∧ dispenserJoin db j = true := by
  have hvia : listJoin db .getDispenses filter j = (db.viaTransaction j && dispenserJoin db j) := rfl
  rw [hvia, viaTransaction_of_joined hj, Bool.and_eq_true, Joined.Carried]

/-- A transaction is in the block of its actions. -/
theorem blockClause_through {block_index : ℕ} (hcarried : j.Carried) :
    blockClause method block_index j = true ↔ j.a1.block_index = block_index := by
  obtain ⟨t, ht⟩ := Option.isSome_iff_exists.mp hcarried
  rw [blockClause]
  split_ifs
  · simp [ht, block_of_transaction hj ht]
  · exact decide_eq_true_iff

end through

/-- A list through the transactions leaves out the rows of the chain's own actions. -/
theorem through_agree (h : method ∈ [.getAddresses, .getBatches, .getPrices, .getSleeps, .getSwaps])
    (hsame : ∀ j, (∀ n, filter ≠ .block n) →
      genericClause db dense method filter j = boundaryWhere db method filter j) :
    boundaryCursors db method filter = listCursors db dense method filter ↔
      ∀ j ∈ db.joined (db.table (listTable method filter)),
        boundaryWhere db method filter j = true → j.Carried := by
  have hone : manyRowed (listTable method filter) = false := by
    cases method <;> first | rfl | simp at h
  have hmethod : method ∉ [.getBlocks, .getLists, .getHistory, .getTokens] := by
    cases method <;> simp at h ⊢
  rw [cursors_eq_iff_rows hone hmethod]
  refine forall₂_congr fun j hj => ?_
  rw [listJoin_through hj h]
  have hclause (hcarried : j.Carried) :
      genericClause db dense method filter j = true ↔ boundaryWhere db method filter j = true := by
    cases filter with
    | block n =>
      rw [genericClause, blockClause_through hj hcarried, boundaryWhere, decide_eq_true_iff]
    | all | address | token => rw [hsame j fun n h => nomatch h]
  constructor
  · intro hiff hwhere
    exact (hiff.mp hwhere).1
  · intro himp
    exact ⟨fun hwhere => ⟨himp hwhere, (hclause (himp hwhere)).mpr hwhere⟩,
      fun ⟨hcarried, hgeneric⟩ => (hclause hcarried).mp hgeneric⟩

/-- On a table with one row to an action, a party of the action is a party of the row. -/
theorem twoPartyIdSet_iff_row {id : Option ℕ} {column : Row → Option ℕ}
    (hone : manyRowed (listTable method .all) = false)
    (hj : j ∈ db.joined (db.table (listTable method .all))) :
    twoPartyIdSet db id method column j = true ↔ twoPartyRow db id method column j = true := by
  refine ⟨fun h => ?_, twoPartyIdSet_of_row hj⟩
  obtain ⟨j', hj', hindex, hrow⟩ := exists_row_of_twoPartyIdSet hj h
  rwa [← joined_inj (db.one_row _ hone) hj' hj hindex]

theorem dispensers_token_agree (tick : String) :
    boundaryCursors db .getDispensers (.token tick) = listCursors db dense .getDispensers (.token tick) ↔
      LinedUp db .getDispensers (.token tick) := by
  rw [cursors_eq_iff_rows rfl (by simp)]
  refine forall₂_congr fun j hj => ?_
  have hvia : listJoin db .getDispensers (.token tick) j = true :=
    Bool.and_eq_true_iff.mpr ⟨viaAction_of_joined hj, rfl⟩
  have hgive : genericClause db dense .getDispensers (.token tick) j =
      sqlEq j.m.give_tick_id (db.index_tickers.symm tick) := bind_eq_sqlEq _ _ _
  rw [hvia, hgive, and_iff_right rfl]
  exact iff_comm.trans Bool.eq_iff_iff.symm

theorem orders_token_agree (tick : String) :
    boundaryCursors db .getOrders (.token tick) = listCursors db dense .getOrders (.token tick) ↔
      LinedUp db .getOrders (.token tick) := by
  rw [cursors_eq_iff_rows rfl (by simp)]
  refine forall₂_congr fun j hj => ?_
  have hvia : listJoin db .getOrders (.token tick) j = true :=
    Bool.and_eq_true_iff.mpr ⟨viaAction_of_joined hj, rfl⟩
  have hgive : genericClause db dense .getOrders (.token tick) j =
      sqlEq j.m.give_tick_id (db.index_tickers.symm tick) := bind_eq_sqlEq _ _ _
  have hboth : boundaryWhere db .getOrders (.token tick) j =
      (sqlEq j.m.get_tick_id (db.index_tickers.symm tick) ||
        sqlEq j.m.give_tick_id (db.index_tickers.symm tick)) := rfl
  rw [hvia, hgive, hboth, Bool.or_eq_true, and_iff_right rfl, or_iff_right_iff_imp]
  rfl

theorem swaps_token_agree (tick : String) :
    boundaryCursors db .getSwaps (.token tick) = listCursors db dense .getSwaps (.token tick) ↔
      LinedUp db .getSwaps (.token tick) := by
  rw [cursors_eq_iff_rows rfl (by simp)]
  refine forall₂_congr fun j hj => ?_
  have hgive : genericClause db dense .getSwaps (.token tick) j =
      sqlEq j.m.give_tick_id (db.index_tickers.symm tick) := bind_eq_sqlEq _ _ _
  have hboth : boundaryWhere db .getSwaps (.token tick) j =
      (sqlEq j.m.get_tick_id (db.index_tickers.symm tick) ||
        sqlEq j.m.give_tick_id (db.index_tickers.symm tick)) := rfl
  rw [listJoin_through hj (by simp), hgive, hboth, Bool.or_eq_true]
  constructor
  · intro h
    exact ⟨fun hget => (h.mp (.inl hget)).2, fun hgive => (h.mp (.inr hgive)).1⟩
  · rintro ⟨hget, hcarried⟩
    constructor
    · rintro (h | h)
      · exact ⟨hcarried (hget h), hget h⟩
      · exact ⟨hcarried h, h⟩
    · exact fun h => .inr h.2

theorem prices_address_agree (address : String) :
    boundaryCursors db .getPrices (.address address) =
        listCursors db dense .getPrices (.address address) ↔
      LinedUp db .getPrices (.address address) := by
  rw [cursors_eq_iff_rows rfl (by simp)]
  refine forall₂_congr fun j hj => ?_
  have hsource : genericClause db dense .getPrices (.address address) j =
      sqlEq j.m.source_id (db.index_addresses.symm address) := bind_eq_sqlEq _ _ _
  rw [listJoin_through hj (by simp), hsource]
  exact ⟨Iff.symm, Iff.symm⟩

/-- A filter other than a token's asks the same of a fill on both sides. -/
theorem genericClause_dispenses (hj : j ∈ db.joined (db.table .dispenses)) (hcarried : j.Carried)
    (htoken : ∀ tick, filter ≠ .token tick) :
    genericClause db dense .getDispenses filter j = true ↔
      boundaryWhere db .getDispenses filter j = true := by
  cases filter with
  | all => rfl
  | block n => rw [genericClause, blockClause_through hj hcarried, boundaryWhere, decide_eq_true_iff]
  | address address =>
    have hrow : twoPartyIdSet db (db.index_addresses.symm address) .getDispenses
          (·.destination_id) j = true ↔
        twoPartyRow db (db.index_addresses.symm address) .getDispenses (·.destination_id) j = true :=
      twoPartyIdSet_iff_row rfl hj
    have hboundary : boundaryWhere db .getDispenses (.address address) j = twoPartyIdSet db
        (db.index_addresses.symm address) .getDispenses (·.destination_id) j := rfl
    have hclause : genericClause db dense .getDispenses (.address address) j =
        ((dense || twoPartyIdSet db (db.index_addresses.symm address) .getDispenses
            (·.destination_id) j) &&
          twoPartyRow db (db.index_addresses.symm address) .getDispenses (·.destination_id) j) := rfl
    rw [hboundary, hclause, Bool.and_eq_true, Bool.or_eq_true, hrow]
    exact ⟨And.right, fun h => ⟨.inr h, h⟩⟩
  | token tick => exact absurd rfl (htoken tick)

theorem dispenses_agree :
    boundaryCursors db .getDispenses filter = listCursors db dense .getDispenses filter ↔
      LinedUp db .getDispenses filter := by
  have hrows (htoken : ∀ tick, filter ≠ .token tick) : ∀ j ∈ db.joined (db.table .dispenses),
      (boundaryWhere db .getDispenses filter j = true ↔
        listJoin db .getDispenses filter j = true ∧
          genericClause db dense .getDispenses filter j = true) ↔
        (boundaryWhere db .getDispenses filter j = true → j.Carried ∧ dispenserJoin db j = true) := by
    intro j hj
    rw [listJoin_dispenses hj]
    constructor
    · exact fun hiff hwhere => (hiff.mp hwhere).1
    · intro himp
      have hclause (h : j.Carried) : genericClause db dense .getDispenses filter j = true ↔
          boundaryWhere db .getDispenses filter j = true := genericClause_dispenses hj h htoken
      exact ⟨fun hwhere => ⟨himp hwhere, (hclause (himp hwhere).1).mpr hwhere⟩,
        fun ⟨hjoin, hgeneric⟩ => (hclause hjoin.1).mp hgeneric⟩
  rw [cursors_eq_iff_rows (by cases filter <;> rfl) (by simp)]
  cases filter with
  | token tick =>
    refine forall₂_congr fun j hj => ?_
    have hgive : genericClause db dense .getDispenses (.token tick) j =
        sqlEq j.m.give_tick_id (db.index_tickers.symm tick) := bind_eq_sqlEq _ _ _
    rw [listJoin_dispenses hj, hgive, and_assoc]
    exact ⟨Iff.symm, Iff.symm⟩
  | all => exact forall₂_congr (hrows fun _ h => nomatch h)
  | block => exact forall₂_congr (hrows fun _ h => nomatch h)
  | address => exact forall₂_congr (hrows fun _ h => nomatch h)

theorem files_token_agree (tick : String) :
    boundaryCursors db .getFiles (.token tick) = listCursors db dense .getFiles (.token tick) ↔
      LinedUp db .getFiles (.token tick) := by
  have hlist : listCursors db dense .getFiles (.token tick) =
      cursors db .getFiles (db.table .mappings_files) fun j =>
        boundaryWhere db .getFiles (.token tick) j && fileJoin db j := by
    rw [listCursors_of_table (by simp) fun _ => rfl]
    refine cursors_congr fun j hj => ?_
    have hvia : listJoin db .getFiles (.token tick) j = (db.viaAction j && fileJoin db j) := rfl
    rw [hvia, viaAction_of_joined hj, genericClause, tokenClause_eq (by simp), Bool.true_and,
      Bool.and_comm]
  have hboundary : boundaryCursors db .getFiles (.token tick) =
      cursors db .getFiles (db.table .mappings_files) (boundaryWhere db .getFiles (.token tick)) := by
    rw [boundaryCursors_of_table (by simp) (by simp) fun _ => rfl]
    refine cursors_congr fun j hj => ?_
    rw [viaAction_of_joined hj, Bool.true_and]
  rw [hlist, hboundary]
  constructor
  · intro heq j hj hwhere
    have hmem := heq ▸ mem_cursors.mpr ⟨j, hj, hwhere, rfl⟩
    obtain ⟨j', hj', htest, hindex⟩ := mem_cursors.mp hmem
    obtain ⟨-, hfile⟩ := Bool.and_eq_true_iff.mp htest
    -- the file is that of the action, whichever of its mappings is read
    change j'.m.action_index = j.m.action_index at hindex
    rwa [fileJoin, hindex] at hfile
  · intro hfiles
    refine cursors_congr fun j hj => ?_
    rw [Bool.eq_iff_iff, Bool.and_eq_true]
    exact ⟨fun h => ⟨h, hfiles j hj h⟩, And.left⟩

theorem lists_agree (h : accepts .getLists filter = true) :
    boundaryCursors db .getLists filter = listCursors db dense .getLists filter ↔
      LinedUp db .getLists filter := by
  have hsame (j : Joined) : genericClause db dense .getLists filter j =
      boundaryWhere db .getLists filter j := by
    cases filter with
    | token => cases h
    | all | block | address => rfl
  have hlist : listCursors db dense .getLists filter =
      cursors db .getLists (db.table .lists) (boundaryWhere db .getLists filter) := by
    rw [listCursors_of_table (by simp) (by simp)]
    refine cursors_congr fun j hj => ?_
    have hvia : listJoin db .getLists filter j = db.viaAction j := Bool.and_true _
    rw [hvia, viaAction_of_joined hj, Bool.true_and, hsame]
  have hboundary : boundaryCursors db .getLists filter =
      cursors db .getLists (db.table .lists) (boundaryWhere db .getLists filter) ∪
        cursors db .getLists db.renames (boundaryWhere db .getLists filter) := by
    rw [← cursors_append]
    refine cursors_congr fun j hj => ?_
    rw [viaAction_of_joined hj, Bool.true_and]
  rw [hlist, hboundary, Finset.union_eq_left]
  constructor
  · intro hsub j hj hwhere
    obtain ⟨j', hj', -, hindex⟩ := mem_cursors.mp (hsub (mem_cursors.mpr ⟨j, hj, hwhere, rfl⟩))
    exact ⟨j'.m, (mem_joined.mp hj').1, hindex⟩
  · intro hlists c hc
    obtain ⟨j, hj, hwhere, rfl⟩ := mem_cursors.mp hc
    obtain ⟨m, hm, hindex⟩ := hlists j hj hwhere
    -- the filter of the lists is one of actions
    have hjoin : db.join m = some ⟨m, j.a1, db.transaction j.a1⟩ := by
      rw [Db.join, hindex, action_of_joined hj, Option.map_some]
    refine mem_cursors.mpr ⟨⟨m, j.a1, db.transaction j.a1⟩, mem_joined.mpr ⟨hm, hjoin⟩, ?_, hindex⟩
    rw [← transaction_of_joined hj]
    cases filter with
    | token => cases h
    | all | block | address => exact hwhere

/-- The actions that are looked up by the ticker of an id. -/
def mappedCursors (db : Db) (id : Option ℕ) : Finset ℕ :=
  cursors db .getHistory (db.table .mappings_actions) fun j =>
    j.m.type_id = some 1 && sqlEq (some j.m.id) id

theorem mappedTo_of_mem {id : Option ℕ} (h : j.m.action_index ∈ mappedCursors db id) :
    mappedTo db id j := by
  obtain ⟨j', hj', htest, hindex⟩ := mem_cursors.mp h
  obtain ⟨htype, hid⟩ := Bool.and_eq_true_iff.mp htest
  exact ⟨j'.m, (mem_joined.mp hj').1, hindex, of_decide_eq_true htype, hid⟩

theorem mem_of_mappedTo {id : Option ℕ} (hj : j ∈ db.joined rows) (h : mappedTo db id j) :
    j.m.action_index ∈ mappedCursors db id := by
  obtain ⟨m, hm, hindex, htype, hid⟩ := h
  have hjoin : db.join m = some ⟨m, j.a1, db.transaction j.a1⟩ := by
    rw [Db.join, hindex, action_of_joined hj, Option.map_some]
  exact mem_cursors.mpr ⟨⟨m, j.a1, db.transaction j.a1⟩, mem_joined.mpr ⟨hm, hjoin⟩,
    Bool.and_eq_true_iff.mpr ⟨decide_eq_true htype, hid⟩, hindex⟩

/-- Two ids look the same actions up where every action of the one is one of the other. -/
theorem mappedCursors_subset {id id' : Option ℕ} :
    mappedCursors db id ⊆ mappedCursors db id' ↔
      ∀ j ∈ db.joined (db.table .mappings_actions), j.m.type_id = some 1 →
        sqlEq (some j.m.id) id = true → mappedTo db id' j := by
  constructor
  · intro hsub j hj htype hid
    refine mappedTo_of_mem (hsub (mem_cursors.mpr ⟨j, hj, ?_, rfl⟩))
    exact Bool.and_eq_true_iff.mpr ⟨decide_eq_true htype, hid⟩
  · intro hmapped c hc
    obtain ⟨j, hj, htest, rfl⟩ := mem_cursors.mp hc
    obtain ⟨htype, hid⟩ := Bool.and_eq_true_iff.mp htest
    exact mem_of_mappedTo hj (hmapped j hj (of_decide_eq_true htype) hid)

theorem history_token_agree (tick : String) :
    boundaryCursors db .getHistory (.token tick) = listCursors db dense .getHistory (.token tick) ↔
      LinedUp db .getHistory (.token tick) := by
  have hlist : listCursors db dense .getHistory (.token tick) =
      mappedCursors db (db.getTickId tick) := by
    rw [listCursors_of_table (by simp) fun _ => rfl]
    refine cursors_congr fun j hj => ?_
    have hvia : listJoin db .getHistory (.token tick) j = db.viaAction j := Bool.and_true _
    rw [hvia, viaAction_of_joined hj, Bool.true_and]
    rfl
  have hboundary : boundaryCursors db .getHistory (.token tick) =
      mappedCursors db (db.index_tickers.symm tick) := by
    rw [boundaryCursors_of_table (by simp) (by simp) fun _ => rfl]
    refine cursors_congr fun j hj => ?_
    rw [viaAction_of_joined hj, Bool.true_and]
    rfl
  rw [hlist, hboundary]
  cases hreference : Db.tickReference tick with
  | none =>
    refine iff_of_true ?_ fun reference h => ?_
    · rw [Db.getTickId, hreference]
    · rw [hreference] at h
      cases h
  | some reference =>
    have hid : db.getTickId tick = some reference := by rw [Db.getTickId, hreference]
    have heq (j : Joined) : sqlEq (some j.m.id) (some reference) = true ↔ j.m.id = reference := by
      simp [sqlEq]
    rw [hid, subset_antisymm_iff, mappedCursors_subset, mappedCursors_subset]
    constructor
    · rintro ⟨hname, hnumber⟩ reference' hreference' j hj htype
      obtain rfl := Option.some.inj (hreference.symm.trans hreference')
      exact ⟨fun h => hnumber j hj htype ((heq j).mpr h), hname j hj htype⟩
    · intro h
      exact ⟨fun j hj htype => (h reference hreference j hj htype).2,
        fun j hj htype hnumber => (h reference hreference j hj htype).1 ((heq j).mp hnumber)⟩

theorem history_agree (htoken : ∀ tick, filter ≠ .token tick) :
    boundaryCursors db .getHistory filter = listCursors db dense .getHistory filter := by
  cases filter with
  | all | block => rfl
  | address address =>
    rw [listCursors_of_table (by simp) fun _ => rfl,
      boundaryCursors_of_table (by simp) (by simp) fun _ => rfl]
    refine cursors_congr fun j hj => ?_
    have hvia : listJoin db .getHistory (.address address) j = db.viaAction j := Bool.and_true _
    rw [hvia]
    rfl
  | token tick => exact absurd rfl (htoken tick)

theorem blocks_agree (h : accepts .getBlocks filter = true) :
    boundaryCursors db .getBlocks filter = listCursors db dense .getBlocks filter ↔
      LinedUp db .getBlocks filter := by
  cases filter with
  | all => exact iff_of_true rfl trivial
  | block n => exact Finset.filter_eq_self
  | address | token => cases h

/-- The boundary of a list selects the list's cursors exactly where no row is there that they
    disagree about. -/
theorem boundaryCursors_eq_iff (dense : Bool) (h : accepts method filter = true) :
    boundaryCursors db method filter = listCursors db dense method filter ↔
      LinedUp db method filter := by
  have hagree := @cursors_agree db method filter dense
  have htick {j : Joined} {tick : String} := @tokenClause_eq db j method tick
  cases method with
  | getBlocks => exact blocks_agree h
  | getLists => exact lists_agree h
  | getDispenses => exact dispenses_agree
  | getHistory =>
    cases filter with
    | token tick => exact history_token_agree tick
    | all | block | address => exact iff_of_true (history_agree fun _ h => nomatch h) trivial
  | getFiles =>
    cases filter with
    | token tick => exact files_token_agree tick
    | all | block | address => exact iff_of_true (hagree (by simp) rfl fun _ h => nomatch h) trivial
  | getDispensers =>
    cases filter with
    | token tick => exact dispensers_token_agree tick
    | all | block | address => exact iff_of_true (hagree (by simp) rfl fun _ h => nomatch h) trivial
  | getOrders =>
    cases filter with
    | token tick => exact orders_token_agree tick
    | all | block | address => exact iff_of_true (hagree (by simp) rfl fun _ h => nomatch h) trivial
  | getSwaps =>
    cases filter with
    | token tick => exact swaps_token_agree tick
    | all => exact through_agree (by simp) fun _ _ => rfl
    | block => exact through_agree (by simp) fun _ h => absurd rfl (h _)
    | address => exact through_agree (by simp) fun _ _ => rfl
  | getPrices =>
    cases filter with
    | address address => exact prices_address_agree address
    | all => exact through_agree (by simp) fun _ _ => rfl
    | block => exact through_agree (by simp) fun _ h => absurd rfl (h _)
    | token tick => exact through_agree (by simp) fun _ _ => htick (by simp)
  | getSleeps =>
    cases filter with
    | all => exact through_agree (by simp) fun _ _ => rfl
    | block => exact through_agree (by simp) fun _ h => absurd rfl (h _)
    | address => exact through_agree (by simp) fun _ _ => rfl
    | token tick => exact through_agree (by simp) fun _ _ => htick (by simp)
  | getAddresses | getBatches =>
    cases filter with
    | all => exact through_agree (by simp) fun _ _ => rfl
    | block => exact through_agree (by simp) fun _ h => absurd rfl (h _)
    | address => exact through_agree (by simp) fun _ _ => rfl
    | token => cases h
  | _ => exact iff_of_true (hagree (by simp) rfl (by simp)) (by cases filter <;> trivial)

end filters

end QuerySql
