import XChainExplorer.Lib.KeySlice
import XChainExplorer.Db.CountJoins
import Mathlib.Order.WithBot

/-! # One list page picked by id, then decorated

    The ids leg is the pruned count, in the order and within the bounds of the page; the rows leg is the reader's
    own statement for just those ids. A page whose ids repeat is read by the single statement instead. -/

namespace CountJoins

open Joins (Env joinAll Ignores)
open KeySlice

/-- The two orders. -/
inductive Order where
  | ASC
  | DESC
  deriving DecidableEq

/-- A page statement: its `FROM` and `WHERE`, the alias it is ordered by the `action_index` of, and the ids it asks
    for instead of its `WHERE`. -/
structure Statement (υ : Type*) where
  parsed : CountSql
  cursor : List Char
  among : Option (List (WithBot υ)) := none
  order : Order
  limit : Option ℕ := none
  offset : ℕ := 0

/-- The column that a page is cut by. -/
def ACTION_INDEX : List Char := "action_index".toList

/-- `BLOCK_LANE_RE`, behind the character `prev`. -/
def hasBlockLane : Option Char → List Char → Bool
  | _, [] => false
  | prev, c :: s =>
    (!prev.any isColumn && "a1.block_index=?".toList.isPrefixOf (c :: s)) || hasBlockLane (some c) s

/-- The first join is the one to the actions of a block range. -/
def drivesFromActions (parsed : CountSql) : Bool :=
  match parsed.joins with
  | [] => false
  | first :: _ => decide (first.kind = .INNER) && decide (first.table = "actions".toList) &&
      decide (first.alias' = "a1".toList) &&
      decide (first.on.filter (!isSpace ·) = "a1.action_index=".toList ++ parsed.alias' ++ ".action_index".toList) &&
      hasBlockLane none parsed.where'

/-- The `ON` of the table that is joined to the actions. -/
def drivenOn (alias' : List Char) : List Char := alias' ++ ".action_index=a1.action_index".toList

/-- The same tables, read from the actions. -/
def fromActions (parsed : CountSql) : CountSql :=
  { parsed with
    table := "actions".toList, alias' := "a1".toList
    joins := ⟨.INNER, parsed.table, parsed.alias', drivenOn parsed.alias', "INNER JOIN ".toList ++ parsed.table ++ [' '] ++
      parsed.alias' ++ " ON (".toList ++ drivenOn parsed.alias' ++ [')']⟩ :: parsed.joins.tail }

section plan
variable {υ : Type*}

/-- The statement of a page's ids, made from the count. -/
def pageIdsSql (countSql : List Char) (order : Order) (limit : Option ℕ) : Option (Statement υ) :=
  (parseCountSql (pruneCountJoins countSql)).map fun parsed =>
    if drivesFromActions parsed then { parsed := fromActions parsed, cursor := "a1".toList, order, limit }
    else { parsed, cursor := parsed.alias', order, limit }

/-- The two statements of a page. -/
structure PagePlan (υ : Type*) where
  ids : Statement υ
  rows : List (WithBot υ) → Statement υ

/-- They for a list, if its count has the shape that is read. -/
def idsFirstPage (countSql : List Char) (rowsHead : CountSql) (alias' : List Char) (order : Order) (limit : Option ℕ) :
    Option (PagePlan υ) :=
  (pageIdsSql countSql order limit).map fun ids =>
    { ids, rows := fun size => { parsed := rowsHead, cursor := alias', among := some size, order } }

end plan

/-- An order on cursors, a missing one the least. -/
def Order.le {υ : Type*} [LinearOrder υ] : Order → WithBot υ → WithBot υ → Prop
  | .ASC => (· ≤ ·)
  | .DESC => (· ≥ ·)

instance {υ : Type*} [LinearOrder υ] (o : Order) : DecidableRel (o.le (υ := υ)) := by
  cases o <;> exact fun _ _ => inferInstanceAs (Decidable (_ ≤ _))

instance {υ : Type*} [LinearOrder υ] (o : Order) : Std.Antisymm (o.le (υ := υ)) :=
  ⟨fun a b hab hba => by
    cases o with
    | ASC => exact le_antisymm hab hba
    | DESC => exact le_antisymm hba hab⟩

instance {υ : Type*} [LinearOrder υ] (o : Order) : Std.Total (o.le (υ := υ)) :=
  ⟨fun a b => by
    cases o with
    | ASC => exact le_total a b
    | DESC => exact le_total b a⟩

instance {υ : Type*} [LinearOrder υ] (o : Order) : IsTrans (WithBot υ) o.le :=
  ⟨fun a b c hab hbc => by
    cases o with
    | ASC => exact le_trans hab hbc
    | DESC => exact le_trans hbc hab⟩

namespace Engine
variable {ρ υ : Type*} (E : Engine ρ υ)

/-- The `action_index` of the row an alias is bound to; NULL is below every value. -/
def index (alias' : List Char) (env : Env (List Char) ρ) : WithBot υ := (env alias').bind (E.column ACTION_INDEX)

/-- The joined rows that a statement selects. -/
def matching [DecidableEq υ] (s : Statement υ) : List (Env (List Char) ρ) :=
  match s.among with
  | none => (E.rows s.parsed).filter (E.holds s.parsed.where')
  | some ids => (E.rows s.parsed).filter fun env => E.index s.cursor env ≠ ⊥ ∧ E.index s.cursor env ∈ ids

/-- An answer to a statement: rows of one `action_index` come in any order. -/
def Answers [LinearOrder υ] (s : Statement υ) (answer : List (Env (List Char) ρ)) : Prop :=
  ∃ out, Ordered s.order.le (E.index s.cursor) (E.matching s) out ∧ answer = slice s.offset s.limit out

variable [LinearOrder υ] (doQuery : Statement υ → List (Env (List Char) ρ))

/-- The rows of a page by its ids first. Ids that repeat fall back to the one statement. -/
def idsFirstRows (page : PagePlan υ) (idsSql query : Statement υ) : List (Env (List Char) ρ) :=
  let ids := (doQuery idsSql).map (E.index idsSql.cursor)
  if ids = [] then [] else if ids.Nodup then doQuery (page.rows ids) else doQuery query

/-- The rows of `runListQuery`, which appends the `OFFSET` to both statements. -/
def runListQuery (page : Option (PagePlan υ)) (query : Statement υ) (offset : ℕ) : List (Env (List Char) ρ) :=
  match page with
  | some page => E.idsFirstRows doQuery page { page.ids with offset := offset } { query with offset := offset }
  | none => doQuery { query with offset := offset }

/-- The `action_index` values a page of a statement is made of. -/
def pageIds (p : CountSql) (order : Order) (limit : Option ℕ) (offset : ℕ) : List (WithBot υ) :=
  slice offset limit ((((E.rows p).filter (E.holds p.where')).map (E.index p.alias')).insertionSort order.le)

/-- `=` between the `action_index` of two aliases, whichever stands first: both are there and are one value. -/
def EqualIndexes (p : CountSql) : Prop := ∀ on, on = drivenOn p.alias' ∨
    on.filter (!isSpace ·) = "a1.action_index=".toList ++ p.alias' ++ ".action_index".toList →
  ∀ env, E.holds on env = true ↔ E.index "a1".toList env = E.index p.alias' env ∧ E.index p.alias' env ≠ ⊥

variable {E} {p : CountSql} {kept : List Join} {order : Order} {limit : Option ℕ} {offset : ℕ}

theorem parse_prune {sql : List Char} (hparse : parseCountSql sql = some p) :
    ∃ kept, parseCountSql (pruneCountJoins sql) = some { p with joins := kept } ∧
      Relation.ReflTransGen (Drops p) p.joins kept := by
  rw [pruneCountJoins, hparse]
  dsimp only
  split_ifs
  · exact ⟨_, hparse, .refl⟩
  · exact ⟨_, hparse, .refl⟩
  · have hchain := keepJoins_drops p p.joins.length p.joins
    exact ⟨_, parse_render (read_of_parse hparse) (sublist_of_drops hchain).subset, hchain⟩

omit [LinearOrder υ] in
/-- The pruned statement selects the same cursor values. -/
theorem map_index_chain (hp : p.Aliased) (hqual : E.Qualified p) (hunique : E.UniqueKeys)
    (hone : ∀ j ∈ p.joins, droppableJoin j = true → E.OneEquality j)
    (h : Relation.ReflTransGen (Drops p) p.joins kept) :
    ((E.rows { p with joins := kept }).filter (E.holds p.where')).map (E.index p.alias') =
      ((E.rows p).filter (E.holds p.where')).map (E.index p.alias') := by
  induction h with
  | refl => rfl
  | @tail kept₁ kept₂ hchain hstep ih =>
    have hsub := sublist_of_drops hchain
    obtain ⟨pre, j, post, rfl, rfl, hdrop, hnamed⟩ := hstep
    have hj : j ∈ p.joins := hsub.subset (List.mem_append_right _ List.mem_cons_self)
    have hleft : j.kind = .LEFT := by
      rw [droppableJoin, Bool.and_assoc, Bool.and_eq_true] at hdrop
      exact of_decide_eq_true hdrop.1
    have hne : j.alias' ≠ p.alias' := fun heq =>
      (List.nodup_cons.mp hp).1 (heq ▸ List.mem_map_of_mem (f := (·.alias')) hj)
    rw [← select_drops hp hqual hunique (hone j hj hdrop) hsub hleft hnamed fun env x => ?_]
    · exact ih
    · rw [index, index, Joins.bind_of_ne hne.symm]

omit [LinearOrder υ] in
/-- The same rows whichever of the two tables is read first. -/
theorem rows_fromActions (hp : p.Aliased) (hequal : E.EqualIndexes p) (hdrives : drivesFromActions p = true) :
    (E.rows (fromActions p)).Perm (E.rows p) ∧ ∀ env ∈ E.rows p, E.index "a1".toList env = E.index p.alias' env := by
  obtain ⟨select, table, alias', joins, where'⟩ := p
  rcases joins with _ | ⟨first, rest⟩
  · cases hdrives
  simp only [drivesFromActions, Bool.and_eq_true, decide_eq_true_eq] at hdrives
  obtain ⟨⟨⟨⟨hkind, htable⟩, halias⟩, hon⟩, -⟩ := hdrives
  have hnames : alias' ∉ (first :: rest).map (·.alias') ∧ ((first :: rest).map (·.alias')).Nodup := List.nodup_cons.mp hp
  have hne : alias' ≠ "a1".toList := by
    rintro rfl
    exact hnames.1 (List.mem_map.mpr ⟨first, List.mem_cons_self, halias⟩)
  have hfirst : E.join first = ⟨false, "a1".toList, E.table "actions".toList, E.holds first.on⟩ := by
    rw [join, hkind, htable, halias]
    rfl
  have hsame : E.holds (drivenOn alias') = E.holds first.on := funext fun env =>
    Bool.eq_iff_iff.mpr ((hequal _ (Or.inl rfl) env).trans (hequal _ (Or.inr hon) env).symm)
  have hrows : E.rows ⟨select, table, alias', first :: rest, where'⟩ =
      joinAll (joinAll (Env.table (fun _ => none) alias' (E.table table)) [E.join first]) (rest.map E.join) := rfl
  have hdriven : E.rows (fromActions ⟨select, table, alias', first :: rest, where'⟩) =
      joinAll (joinAll (Env.table (fun _ => none) "a1".toList (E.table "actions".toList))
        [⟨false, alias', E.table table, E.holds (drivenOn alias')⟩]) (rest.map E.join) := rfl
  rw [hrows, hdriven, hfirst, hsame]
  refine ⟨(Joins.joinAll_perm (Joins.joinAll_swap hne _) _).symm, fun env henv => ?_⟩
  obtain ⟨env₀, henv₀, hkeeps⟩ := Joins.mem_joinAll henv
  have hrest (a : List Char) (ha : a ∉ rest.map (·.alias')) : env a = env₀ a :=
    hkeeps a fun j hj heq => by
      obtain ⟨k, hk, rfl⟩ := List.mem_map.mp hj
      exact ha (List.mem_map.mpr ⟨k, hk, heq⟩)
  have hbase : E.index alias' env = E.index alias' env₀ := by
    rw [index, index, hrest alias' fun h => hnames.1 (List.mem_cons_of_mem _ h)]
  have ha1 : E.index "a1".toList env = E.index "a1".toList env₀ := by
    have hfirst : first.alias' ∉ rest.map (·.alias') := (List.nodup_cons.mp hnames.2).1
    rw [halias] at hfirst
    rw [index, index, hrest _ hfirst]
  -- the row of `env₀` passed the `ON` of the first join
  obtain ⟨e, -, he⟩ := List.mem_flatMap.mp henv₀
  have hpass : E.holds first.on env₀ = true := (List.mem_filter.mp he).2
  rw [ha1, hbase]
  exact ((hequal _ (Or.inr hon) env₀).mp hpass).1

/-- The cursor values of the ids leg are those of the single statement. -/
theorem pageIdsSql_keys {sql : List Char} {ids : Statement υ} (hparse : parseCountSql sql = some p) (hp : p.Aliased)
    (hqual : E.Qualified p) (hunique : E.UniqueKeys) (hone : ∀ j ∈ p.joins, droppableJoin j = true → E.OneEquality j)
    (hequal : E.EqualIndexes p) (hids : pageIdsSql sql order limit = some ids) :
    ((E.matching ids).map (E.index ids.cursor)).Perm (((E.rows p).filter (E.holds p.where')).map (E.index p.alias')) ∧
      ids.order = order ∧ ids.limit = limit := by
  obtain ⟨kept, hkept, hchain⟩ := parse_prune hparse
  have hchained := map_index_chain hp hqual hunique hone hchain
  rw [pageIdsSql, hkept, Option.map_some] at hids
  obtain rfl := Option.some.inj hids
  split_ifs with hdrives
  · have hkeptAliased : ({ p with joins := kept } : CountSql).Aliased :=
      List.Nodup.sublist ((sublist_of_drops hchain).map _ |>.cons_cons _) hp
    obtain ⟨hperm, hsame⟩ := rows_fromActions hkeptAliased hequal hdrives
    refine ⟨?_, rfl, rfl⟩
    rw [← hchained]
    refine ((hperm.filter _).map _).trans (.of_eq (List.map_congr_left fun env henv => ?_))
    exact hsame env (List.mem_filter.mp henv).1
  · exact ⟨.of_eq hchained, rfl, rfl⟩

theorem map_answer {s : Statement υ} {keys : List (WithBot υ)} {answer : List (Env (List Char) ρ)}
    (h : E.Answers s answer) (hkeys : ((E.matching s).map (E.index s.cursor)).Perm keys) :
    answer.map (E.index s.cursor) = slice s.offset s.limit (keys.insertionSort s.order.le) := by
  obtain ⟨out, hout, rfl⟩ := h
  rw [map_slice, List.Perm.eq_of_pairwise (fun _ _ _ _ => Std.Antisymm.antisymm _ _) hout.pairwise
    (List.pairwise_insertionSort _ _)
    (((hout.perm.map _).trans hkeys).trans (List.perm_insertionSort s.order.le keys).symm)]

/-- The page that is picked by id is the page of the single statement exactly where an id repeats on it, or every id
    on it is that of one joined row. -/
theorem ids_first_exact {β : Type*} (E : Engine ρ υ) (doQuery : Statement υ → List (Env (List Char) ρ))
    (columns : Env (List Char) ρ → β) (sql shown : List Char) (p : CountSql) (order : Order) (limit : Option ℕ)
    (offset : ℕ) (hparse : parseCountSql sql = some p) (hp : p.Aliased) (hqual : E.Qualified p) (hunique : E.UniqueKeys)
    (hone : ∀ j ∈ p.joins, droppableJoin j = true → E.OneEquality j) (hequal : E.EqualIndexes p)
    (hindex : ∀ env ∈ E.rows p, E.index p.alias' env ≠ ⊥) (hanswers : ∀ s, E.Answers s (doQuery s)) :
    (E.runListQuery doQuery (idsFirstPage sql { p with select := shown } p.alias' order limit)
        { parsed := { p with select := shown }, cursor := p.alias', order, limit } offset).map columns =
      (doQuery { parsed := { p with select := shown }, cursor := p.alias', order, limit, offset }).map columns ↔
    ¬ (E.pageIds p order limit offset).Nodup ∨
      ∀ id ∈ E.pageIds p order limit offset, ((E.rows p).map (E.index p.alias')).count id = 1 := by
  set query : Statement υ := { parsed := { p with select := shown }, cursor := p.alias', order, limit, offset }
  obtain ⟨kept, hkept, -⟩ := parse_prune hparse
  have hsome : (pageIdsSql sql order limit : Option (Statement υ)).isSome := by rw [pageIdsSql, hkept]; rfl
  obtain ⟨ids, hids⟩ := Option.isSome_iff_exists.mp hsome
  obtain ⟨hkeys, horder, hlimit⟩ := pageIdsSql_keys hparse hp hqual hunique hone hequal hids
  have hpicked : (doQuery { ids with offset := offset }).map (E.index ids.cursor) = E.pageIds p order limit offset := by
    rw [map_answer (hanswers { ids with offset := offset }) hkeys, horder, hlimit, pageIds]
  obtain ⟨out, hout, hanswer⟩ := hanswers query
  have hpage : E.pageIds p order limit offset = (slice offset limit out).map (E.index p.alias') := by
    have hmap := map_answer ⟨out, hout, hanswer⟩ (.refl _)
    rw [hanswer] at hmap
    exact hmap.symm
  rw [idsFirstPage, hids, Option.map_some, runListQuery, idsFirstRows]
  dsimp only
  rw [hpicked]
  split_ifs with hnone hnodup
  · rw [hnone] at hpage ⊢
    rw [hanswer, List.map_eq_nil_iff.mp hpage.symm]
    exact iff_of_true rfl (Or.inr fun _ h => by cases h)
  · -- the rows leg
    rw [hanswer, or_iff_right (not_not.mpr hnodup)]
    obtain ⟨dec, hdec, hdecorated⟩ := hanswers
      { parsed := { p with select := shown }, cursor := p.alias', among := some (E.pageIds p order limit offset), order }
    have hleg : (E.rows p).filter (fun env => decide (E.index p.alias' env ∈ E.pageIds p order limit offset)) =
        (E.rows p).filter fun env => decide (E.index p.alias' env ≠ ⊥ ∧
          E.index p.alias' env ∈ E.pageIds p order limit offset) :=
      List.filter_congr fun env henv => by rw [decide_eq_decide, and_iff_right (hindex env henv)]
    rw [hdecorated]
    exact decorated_iff columns hout hpage hnodup ⟨hdec.perm.trans (.of_eq hleg.symm), hdec.pairwise⟩
  · exact iff_of_true rfl (Or.inl hnodup)

/-- A database that answers rows of one `action_index` in the order it joined them. -/
def read (E : Engine ρ υ) (s : Statement υ) : List (Env (List Char) ρ) :=
  slice s.offset s.limit ((E.matching s).insertionSort fun a b => s.order.le (E.index s.cursor a) (E.index s.cursor b))

theorem answers_read (E : Engine ρ υ) (s : Statement υ) : E.Answers s (E.read s) := by
  refine ⟨_, ⟨List.perm_insertionSort _ _, ?_⟩, rfl⟩
  rw [List.map_insertionSort _ s.order.le (E.index s.cursor) _ fun _ _ _ _ => Iff.rfl]
  exact List.pairwise_insertionSort _ _

end Engine

/-! ### Issues of a block -/

/-- Two aliases' rows agree on these columns. -/
def agree (a b : List Char) (f g : ℕ × ℕ → ℕ) (env : Env (List Char) (ℕ × ℕ)) : Bool :=
  decide ((env a).map f = (env b).map g) && (env a).isSome

/-- Two issues of block 5. A row is its key, and the key of what it refers to. -/
def issueEngine (blocks : List (ℕ × ℕ)) : Engine (ℕ × ℕ) ℕ where
  table name :=
    if name = "issues".toList then [(1, 7), (2, 8)]
    else if name = "actions".toList then [(1, 5), (2, 5)]
    else if name = "blocks".toList then blocks
    else if name = "index_statuses".toList then [(7, 0)]
    else []
  column name row := if name = ACTION_INDEX ∨ name = "id".toList then some row.1 else none
  holds text env :=
    let t := text.filter (!isSpace ·)
    if t = "a1.action_index=m.action_index".toList ∨ t = "m.action_index=a1.action_index".toList then
      agree "a1".toList "m".toList (·.1) (·.1) env
    else if t = "b1.block_index=a1.block_index".toList then agree "b1".toList "a1".toList (·.1) (·.2) env
    else if t = "s1.id=m.status_id".toList then agree "s1".toList "m".toList (·.1) (·.2) env
    else decide ((env "a1".toList).map (·.2) = some 5)
  value _ _ := none

/-- A join as it stands in a text. -/
def issuesJoin (kind : Kind) (word table alias' on : String) : Join where
  kind
  table := table.toList
  alias' := alias'.toList
  on := on.toList
  text := word.toList ++ " JOIN ".toList ++ table.toList ++ [' '] ++ alias'.toList ++ " ON (".toList ++ on.toList ++ [')']

/-- The count of the issues. -/
def issuesCount : CountSql where
  select := "count(*)".toList
  table := "issues".toList
  alias' := "m".toList
  joins :=
    [issuesJoin .INNER "INNER" "actions" "a1" "a1.action_index=m.action_index",
      issuesJoin .INNER "INNER" "blocks" "b1" "b1.block_index=a1.block_index",
      issuesJoin .LEFT "LEFT" "index_statuses" "s1" "s1.id=m.status_id"]
  where' := "WHERE a1.block_index=?".toList

/-- `SELECT count(*) as total FROM issues m INNER JOIN actions a1 ON (a1.action_index=m.action_index) …`. -/
def ISSUES_COUNT : List Char := issuesCount.render issuesCount.joins

section issues
variable {blocks : List (ℕ × ℕ)}

theorem ignores_agree {a b c : List Char} {f g : ℕ × ℕ → ℕ} (ha : c ≠ a) (hb : c ≠ b) : Ignores (agree a b f g) c := by
  intro env x
  rw [agree, agree, Joins.bind_of_ne ha.symm, Joins.bind_of_ne hb.symm]

theorem ignores_unnamed {text a b c : List Char} {f g : ℕ × ℕ → ℕ} (ha : namesAlias text a = true)
    (hb : namesAlias text b = true) (hc : namesAlias text c = false) : Ignores (agree a b f g) c := by
  refine ignores_agree ?_ ?_
  · rintro rfl
    exact absurd (ha.symm.trans hc) (by decide)
  · rintro rfl
    exact absurd (hb.symm.trans hc) (by decide)

theorem parse_issues : parseCountSql ISSUES_COUNT = some issuesCount := by decide +kernel

theorem qualified_issues : (issueEngine blocks).Qualified issuesCount where
  where' a ha env x := by
    have hne : a ≠ "a1".toList := by
      rintro rfl
      exact absurd ha (by decide +kernel)
    change decide (((env.bind a x) "a1".toList).map (·.2) = some 5) = decide ((env "a1".toList).map (·.2) = some 5)
    rw [Joins.bind_of_ne hne.symm]
  select _ _ _ _ := rfl
  on j hj a ha := by
    rcases List.mem_cons.mp hj with rfl | hj
    · exact ignores_unnamed (by decide +kernel) (by decide +kernel) ha
    rcases List.mem_cons.mp hj with rfl | hj
    · exact ignores_unnamed (by decide +kernel) (by decide +kernel) ha
    · obtain rfl := List.mem_singleton.mp hj
      exact ignores_unnamed (by decide +kernel) (by decide +kernel) ha

theorem uniqueKeys_issues : (issueEngine blocks).UniqueKeys := by
  intro table key hkey
  by_cases hissues : table = "issues".toList
  · have hnone : uniqueKey "issues".toList = none := by decide +kernel
    rw [hissues, hnone] at hkey
    cases hkey
  by_cases hactions : table = "actions".toList
  · have haction : uniqueKey "actions".toList = some ACTION_INDEX := by decide +kernel
    rw [hactions, haction] at hkey
    cases hkey
    have hrows : (issueEngine blocks).table "actions".toList = [(1, 5), (2, 5)] := rfl
    have hcolumn : (issueEngine blocks).column ACTION_INDEX = fun row => some row.1 := rfl
    rw [hactions, hrows, hcolumn]
    decide
  by_cases hblocks : table = "blocks".toList
  · have hnone : uniqueKey "blocks".toList = none := by decide +kernel
    rw [hblocks, hnone] at hkey
    cases hkey
  by_cases hstatuses : table = "index_statuses".toList
  · have hid : uniqueKey "index_statuses".toList = some "id".toList := by decide +kernel
    rw [hstatuses, hid] at hkey
    cases hkey
    have hrows : (issueEngine blocks).table "index_statuses".toList = [(7, 0)] := rfl
    have hcolumn : (issueEngine blocks).column "id".toList = fun row => some row.1 := rfl
    rw [hstatuses, hrows, hcolumn]
    decide
  · have hnil : (issueEngine blocks).table table = [] := by
      change (if _ then _ else if _ then _ else if _ then _ else if _ then _ else _) = _
      rw [if_neg hissues, if_neg hactions, if_neg hblocks, if_neg hstatuses]
    rw [hnil]
    exact List.nodup_nil

theorem oneEquality_issues : ∀ j ∈ issuesCount.joins, droppableJoin j = true → (issueEngine blocks).OneEquality j := by
  intro j hj hdrop
  rcases List.mem_cons.mp hj with rfl | hj
  · exact absurd hdrop (by decide +kernel)
  rcases List.mem_cons.mp hj with rfl | hj
  · exact absurd hdrop (by decide +kernel)
  obtain rfl := List.mem_singleton.mp hj
  refine ⟨"id".toList, by decide +kernel, fun env => (env "m".toList).map (·.2), fun env r => ?_⟩
  have hne : "m".toList ≠ "s1".toList := by decide +kernel
  change agree "s1".toList "m".toList (·.1) (·.2) (env.bind "s1".toList (some r)) = true ↔
    ∃ v, some r.1 = some v ∧ _
  rw [agree, Joins.bind_self, Joins.bind_of_ne hne]
  simp [eq_comm]

theorem equalIndexes_issues : (issueEngine blocks).EqualIndexes issuesCount := by
  intro on hon env
  have hholds : (issueEngine blocks).holds on = agree "a1".toList "m".toList (·.1) (·.1) := by
    have ht : on.filter (!isSpace ·) = "a1.action_index=m.action_index".toList ∨
        on.filter (!isSpace ·) = "m.action_index=a1.action_index".toList := by
      rcases hon with rfl | hon
      · exact Or.inr (by decide +kernel)
      · exact Or.inl (hon.trans (by decide +kernel))
    exact funext fun env => if_pos ht
  have hindex (a : List Char) : (issueEngine blocks).index a env = (env a).map (·.1) := by
    cases henv : env a <;> rw [Engine.index, henv] <;> rfl
  have halias : issuesCount.alias' = "m".toList := rfl
  rw [hholds, halias, hindex, hindex, agree]
  generalize env "a1".toList = a, env "m".toList = m
  rw [Bool.and_eq_true, decide_eq_true_eq]
  refine and_congr_right fun heq => ?_
  rw [← heq]
  cases a with
  | none => exact iff_of_false nofun fun h => h rfl
  | some a => exact iff_of_true rfl (WithBot.coe_ne_bot)

end issues

theorem ids_first_exact_issues :
    ((issueEngine [(5, 0)]).runListQuery (issueEngine [(5, 0)]).read
        (idsFirstPage ISSUES_COUNT issuesCount "m".toList .DESC (some 1))
        { parsed := issuesCount, cursor := "m".toList, order := .DESC, limit := some 1 } 1).map (· "b1".toList) =
      [some (5, 0)] :=
  ((Engine.ids_first_exact (issueEngine [(5, 0)]) (issueEngine [(5, 0)]).read (· "b1".toList) ISSUES_COUNT "count(*)".toList
    issuesCount .DESC (some 1) 1 parse_issues (show List.Nodup _ by decide +kernel) qualified_issues uniqueKeys_issues oneEquality_issues
    equalIndexes_issues (by decide +kernel) (Engine.answers_read _)).mpr (Or.inr (by decide +kernel))).trans
      (by decide +kernel)

/-- The two rows of one issue split at the page's edge: the ids leg sees one of them. -/
theorem not_ids_first_exact : ¬ ∀ (E : Engine (ℕ × ℕ) ℕ) (doQuery : Statement ℕ → List (Env (List Char) (ℕ × ℕ)))
    (columns : Env (List Char) (ℕ × ℕ) → Option (ℕ × ℕ)) (sql shown : List Char) (p : CountSql) (order : Order)
    (limit : Option ℕ) (offset : ℕ), parseCountSql sql = some p → p.Aliased → E.Qualified p → E.UniqueKeys →
      (∀ j ∈ p.joins, droppableJoin j = true → E.OneEquality j) → E.EqualIndexes p →
        (∀ env ∈ E.rows p, E.index p.alias' env ≠ ⊥) → (∀ s, E.Answers s (doQuery s)) →
          ((E.table p.table).map (E.column ACTION_INDEX)).Nodup →
            (E.runListQuery doQuery (idsFirstPage sql { p with select := shown } p.alias' order limit)
                { parsed := { p with select := shown }, cursor := p.alias', order, limit } offset).map columns =
              (doQuery { parsed := { p with select := shown }, cursor := p.alias', order, limit, offset }).map columns := by
  intro h
  have hpage := h (issueEngine [(5, 0), (5, 1)]) (issueEngine [(5, 0), (5, 1)]).read (· "b1".toList) ISSUES_COUNT
    "count(*)".toList issuesCount .DESC (some 1) 0 parse_issues (show List.Nodup _ by decide +kernel) qualified_issues uniqueKeys_issues
    oneEquality_issues equalIndexes_issues (by decide +kernel) (Engine.answers_read _) (by decide +kernel)
  exact absurd hpage (by decide +kernel)

end CountJoins
