import XChainExplorer.Lib.Joins
import XChainExplorer.Db.CountText
import Mathlib.Logic.Relation

/-! # What a pruned count counts

    A left join on a unique key that no text names can be taken out of a count, and so can every chain of them, in
    any order. What an expression says of the rows is the engine's; what is used of it is that it reads no alias that
    it does not name, and that the `ON` of a join that is taken out is one equality. -/

namespace CountJoins

open Joins (Env joinAll Ignores)

/-- A database, and what the expressions of a statement say of the rows that its aliases are bound to. -/
structure Engine (ρ υ : Type*) where
  table : List Char → List ρ
  column : List Char → ρ → Option υ
  holds : List Char → Env (List Char) ρ → Bool
  value : List Char → Env (List Char) ρ → Option υ

/-- A well-formed statement: no two of its tables have one alias. -/
def CountSql.Aliased (p : CountSql) : Prop := (p.alias' :: p.joins.map (·.alias')).Nodup

namespace Engine
variable {ρ υ : Type*} (E : Engine ρ υ)

/-- A join over the tables. -/
def join (j : Join) : Joins.Join (List Char) ρ := ⟨decide (j.kind = .LEFT), j.alias', E.table j.table, E.holds j.on⟩

/-- The rows of a statement. -/
def rows (p : CountSql) : List (Env (List Char) ρ) :=
  joinAll (Env.table (fun _ => none) p.alias' (E.table p.table)) (p.joins.map E.join)

/-- What a statement counts. -/
def counted [DecidableEq υ] (p : CountSql) : ℕ :=
  let rows := (E.rows p).filter (E.holds p.where')
  if (Scanning.scan COUNT_ALL p.select).isSome then rows.length
  else (rows.filterMap (E.value p.select)).eraseDups.length

/-- The value of a count, where its text is one. -/
def count [DecidableEq υ] (sql : List Char) : Option ℕ := (parseCountSql sql).map E.counted

/-- Every column of the texts is qualified by its alias. -/
structure Qualified (p : CountSql) : Prop where
  where' : ∀ a, namesAlias p.where' a = false → Ignores (E.holds p.where') a
  select : ∀ a, namesAlias p.select a = false → Ignores (E.value p.select) a
  on : ∀ j ∈ p.joins, ∀ a, namesAlias j.on a = false → Ignores (E.holds j.on) a

/-- The keys of `UNIQUE_JOIN_KEYS` are unique. -/
def UniqueKeys : Prop := ∀ table key, uniqueKey table = some key → ((E.table table).filterMap (E.column key)).Nodup

/-- The `ON` of a join is one equality, of its key with what does not depend on its row. -/
def OneEquality (j : Join) : Prop := ∃ key, uniqueKey j.table = some key ∧ ∃ value : Env (List Char) ρ → Option υ,
  ∀ env r, E.holds j.on (env.bind j.alias' (some r)) = true ↔ ∃ v, E.column key r = some v ∧ value env = some v

end Engine

/-- One join taken out that can be dropped and that no other text names. -/
def Drops (p : CountSql) (kept kept' : List Join) : Prop := ∃ pre j post, kept = pre ++ j :: post ∧
  kept' = pre ++ post ∧ droppableJoin j = true ∧
    ∀ text ∈ [p.select, p.where'] ++ (pre ++ post).map (·.on), namesAlias text j.alias' = false

/-! ### The loop -/

section loop
variable {p : CountSql} {before kept kept' : List Join} {fuel : ℕ}

theorem drops_of_dropOne (h : dropOne p before kept = some kept') : Drops p (before ++ kept) kept' := by
  induction kept generalizing before with
  | nil => cases h
  | cons j after ih =>
    rw [dropOne] at h
    split_ifs at h with htest
    · obtain ⟨hdrop, hnamed⟩ := Bool.and_eq_true_iff.mp htest
      refine ⟨before, j, after, rfl, (Option.some.inj h).symm, hdrop, fun text htext => ?_⟩
      rw [Bool.not_eq_true', List.any_eq_false] at hnamed
      simpa using hnamed text htext
    · have hrest := ih h
      rwa [List.append_assoc] at hrest

theorem Drops.length (h : Drops p kept kept') : kept.length = kept'.length + 1 := by
  obtain ⟨pre, j, post, rfl, rfl, -⟩ := h
  simp only [List.length_append, List.length_cons]
  omega

theorem Drops.sublist (h : Drops p kept kept') : kept'.Sublist kept := by
  obtain ⟨pre, j, post, rfl, rfl, -⟩ := h
  exact List.Sublist.append_left (List.sublist_cons_self _ _) _

theorem keepJoins_drops (p : CountSql) (fuel : ℕ) (kept : List Join) :
    Relation.ReflTransGen (Drops p) kept (keepJoins p fuel kept) := by
  induction fuel generalizing kept with
  | zero => exact .refl
  | succ fuel ih =>
    rw [keepJoins]
    cases hdrop : dropOne p [] kept with
    | none => exact .refl
    | some kept' => exact .head (drops_of_dropOne hdrop) (ih kept')

/-- The loop ends within as many rounds as there are joins, with none left that could be dropped. -/
theorem dropOne_keepJoins (h : kept.length ≤ fuel) : dropOne p [] (keepJoins p fuel kept) = none := by
  induction fuel generalizing kept with
  | zero =>
    rw [Nat.le_zero, List.length_eq_zero_iff] at h
    subst h
    rfl
  | succ fuel ih =>
    rw [keepJoins]
    cases hdrop : dropOne p [] kept with
    | none => exact hdrop
    | some kept' =>
      have hlen : kept.length = kept'.length + 1 := (drops_of_dropOne hdrop).length
      exact ih (by omega)

theorem sublist_of_drops (h : Relation.ReflTransGen (Drops p) kept kept') : kept'.Sublist kept := by
  induction h with
  | refl => exact .refl _
  | tail _ hstep ih => exact hstep.sublist.trans ih

end loop

/-! ### The count -/

namespace Engine
variable {ρ υ : Type*} {E : Engine ρ υ} {p : CountSql} {kept kept' : List Join} {j : Join}

theorem neutral (hleft : j.kind = .LEFT) (hone : E.OneEquality j) (hunique : E.UniqueKeys) : (E.join j).Neutral := by
  obtain ⟨key, hkey, value, hon⟩ := hone
  refine ⟨decide_eq_true hleft, fun env => ?_⟩
  have hmatching : (E.join j).matching env = ((E.table j.table).filter fun r =>
      E.holds j.on (env.bind j.alias' (some r))).map fun r => env.bind j.alias' (some r) := List.filter_map
  rw [hmatching, List.length_map]
  have hnodup : (((E.table j.table).filter fun r => E.holds j.on (env.bind j.alias' (some r))).filterMap
      (E.column key)).Nodup := (hunique _ _ hkey).sublist (List.filter_sublist.filterMap _)
  have hall : ∀ r ∈ (E.table j.table).filter fun r => E.holds j.on (env.bind j.alias' (some r)),
      ∃ v, E.column key r = some v ∧ value env = some v := fun r hr => (hon env r).mp (List.mem_filter.mp hr).2
  generalize ((E.table j.table).filter fun r => E.holds j.on (env.bind j.alias' (some r))) = rows at hnodup hall ⊢
  rcases rows with _ | ⟨r, _ | ⟨r', rest⟩⟩
  · exact Nat.zero_le _
  · exact le_rfl
  · -- two rows of one key
    obtain ⟨v, hv, hvalue⟩ := hall r List.mem_cons_self
    obtain ⟨v', hv', hvalue'⟩ := hall r' (List.mem_cons_of_mem _ List.mem_cons_self)
    obtain rfl : v = v' := Option.some.inj (hvalue.symm.trans hvalue')
    rw [List.filterMap_cons_some hv, List.filterMap_cons_some hv'] at hnodup
    exact absurd List.mem_cons_self (List.nodup_cons.mp hnodup).1

/-- What is selected without a join that can be dropped is what was selected with it. -/
theorem select_drops {β : Type*} {pre post : List Join} {v : Env (List Char) ρ → β} (hp : p.Aliased)
    (hqual : E.Qualified p) (hunique : E.UniqueKeys) (hone : E.OneEquality j)
    (hkept : (pre ++ j :: post).Sublist p.joins) (hleft : j.kind = .LEFT)
    (hnamed : ∀ text ∈ [p.select, p.where'] ++ (pre ++ post).map (·.on), namesAlias text j.alias' = false)
    (hv : Ignores v j.alias') :
    ((E.rows { p with joins := pre ++ j :: post }).filter (E.holds p.where')).map v =
      ((E.rows { p with joins := pre ++ post }).filter (E.holds p.where')).map v := by
  have hnames : ((pre ++ j :: post).map (·.alias')).Nodup := (List.nodup_cons.mp hp).2.sublist (hkept.map _)
  have hpost : ∀ k ∈ post.map E.join, k.name ≠ (E.join j).name ∧ Ignores k.on (E.join j).name := by
    intro _ hmem
    obtain ⟨k, hk, rfl⟩ := List.mem_map.mp hmem
    constructor
    · intro heq
      rw [List.map_append, List.map_cons] at hnames
      refine (List.nodup_cons.mp (List.nodup_append.mp hnames).2.1).1 ?_
      exact List.mem_map.mpr ⟨k, hk, heq⟩
    · refine hqual.on k (hkept.subset ?_) _ (hnamed _ ?_)
      · exact List.mem_append_right _ (List.mem_cons_of_mem _ hk)
      · exact List.mem_append_right _ (List.mem_map_of_mem (List.mem_append_right _ hk))
  have hrows (l : List Join) : E.rows { p with joins := l } =
      joinAll (Env.table (fun _ => none) p.alias' (E.table p.table)) (l.map E.join) := rfl
  rw [hrows, hrows, List.map_append, List.map_append, List.map_cons]
  exact Joins.select_erase (neutral hleft hone hunique) hpost (hqual.where' _ (hnamed p.where' (by simp))) hv _

variable [DecidableEq υ]

theorem counted_drops (hp : p.Aliased) (hqual : E.Qualified p) (hunique : E.UniqueKeys)
    (hone : ∀ j ∈ p.joins, droppableJoin j = true → E.OneEquality j) (hkept : kept.Sublist p.joins)
    (h : Drops p kept kept') : E.counted { p with joins := kept' } = E.counted { p with joins := kept } := by
  obtain ⟨pre, j, post, rfl, rfl, hdrop, hnamed⟩ := h
  have hleft : j.kind = .LEFT := by
    rw [droppableJoin, Bool.and_assoc, Bool.and_eq_true] at hdrop
    exact of_decide_eq_true hdrop.1
  have hone : E.OneEquality j := hone j (hkept.subset (List.mem_append_right _ List.mem_cons_self)) hdrop
  have hlength := congrArg List.length
    (select_drops hp hqual hunique hone hkept hleft hnamed (v := fun _ => ()) fun _ _ => rfl)
  have hvalues := select_drops hp hqual hunique hone hkept hleft hnamed
    (hqual.select _ (hnamed p.select (by simp)))
  rw [List.length_map, List.length_map] at hlength
  have hdistinct (l : List (Env (List Char) ρ)) : l.filterMap (E.value p.select) =
      (l.map (E.value p.select)).filterMap id := by rw [List.filterMap_map]; rfl
  simp only [counted, hdistinct, hvalues, hlength]

/-- Every chain of joins that is taken out, in any order, leaves the count as it is. -/
theorem counted_chain (hp : p.Aliased) (hqual : E.Qualified p) (hunique : E.UniqueKeys)
    (hone : ∀ j ∈ p.joins, droppableJoin j = true → E.OneEquality j)
    (h : Relation.ReflTransGen (Drops p) p.joins kept) : E.counted { p with joins := kept } = E.counted p := by
  induction h with
  | refl => rfl
  | tail hchain hstep ih => exact (counted_drops hp hqual hunique hone (sublist_of_drops hchain) hstep).trans ih

end Engine

/-! ### The pruned statement -/

/-- Pruning leaves the count as it is, whatever the joins that are taken out and their order, as long as the `ON` of
    a join that can be dropped is one equality. The loop ends with nothing left to drop. -/
theorem count_pruneCountJoins {ρ υ : Type*} [DecidableEq υ] (E : Engine ρ υ) (sql : List Char) (p : CountSql)
    (hparse : parseCountSql sql = some p) (hp : p.Aliased) (hqual : E.Qualified p) (hunique : E.UniqueKeys)
    (hone : ∀ j ∈ p.joins, droppableJoin j = true → E.OneEquality j) :
    E.count (pruneCountJoins sql) = E.count sql ∧
      (∀ kept, Relation.ReflTransGen (Drops p) p.joins kept →
        E.count (p.render kept) = E.count sql) ∧ dropOne p [] (keptJoins p) = none := by
  have hchain (kept : List Join) (h : Relation.ReflTransGen (Drops p) p.joins kept) :
      E.count (p.render kept) = E.count sql := by
    rw [Engine.count, Engine.count, parse_render (read_of_parse hparse) (sublist_of_drops h).subset, hparse,
      Option.map_some, Option.map_some, Engine.counted_chain hp hqual hunique hone h]
  refine ⟨?_, hchain, dropOne_keepJoins le_rfl⟩
  rw [pruneCountJoins, hparse]
  dsimp only
  split_ifs
  · rfl
  · rfl
  · exact hchain _ (keepJoins_drops p _ _)

/-- `a.column`. -/
def isReference (value : List Char) : Bool :=
  (Scanning.scan [.run isWord, word ".", .run isWord] value).any fun x => x.2.isEmpty

/-- The `ON` compares its key with a column. -/
def comparesColumn (on : List Char) : Bool := (onKey on).any fun x => isReference x.2.2

/-- A send from the first of two addresses. An address is its id, a send its own and its source's. -/
def sendEngine : Engine (ℕ × ℕ) ℕ where
  table name := if name = "sends".toList then [(1, 7)] else if name = "index_addresses".toList then [(7, 0), (8, 0)] else []
  column name row :=
    if name = "id".toList then some row.1 else if name = "source_id".toList then some row.2 else none
  holds text env :=
    let same := decide ((env "a2".toList).map (·.1) = (env "m".toList).map (·.2)) && (env "a2".toList).isSome
    if text = "a2.id=m.source_id".toList then same else if text = "a2.id=m.source_id || 1".toList then same || true
    else true
  value _ _ := none

/-- A count of the sends over one join. -/
def sendsOf (on : String) : List Char :=
  ("SELECT count(*) as total FROM sends m LEFT JOIN index_addresses a2 ON (" ++ on ++ ") WHERE TRUE").toList

/-- It taken apart. -/
def sendsCount (on : String) : CountSql where
  select := "count(*)".toList
  table := "sends".toList
  alias' := "m".toList
  joins := [⟨.LEFT, "index_addresses".toList, "a2".toList, on.toList,
    ("LEFT JOIN index_addresses a2 ON (" ++ on ++ ")").toList⟩]
  where' := "WHERE TRUE".toList

theorem uniqueKeys_sendEngine : sendEngine.UniqueKeys := by
  intro table key hkey
  by_cases hsends : table = "sends".toList
  · have hnone : uniqueKey "sends".toList = none := by decide +kernel
    rw [hsends, hnone] at hkey
    cases hkey
  by_cases haddresses : table = "index_addresses".toList
  · have hid : uniqueKey "index_addresses".toList = some "id".toList := by decide +kernel
    rw [haddresses, hid] at hkey
    cases hkey
    rw [haddresses]
    decide +kernel
  · have hnil : sendEngine.table table = [] := by
      change (if _ then _ else if _ then _ else _) = _
      rw [if_neg hsends, if_neg haddresses]
    rw [hnil]
    exact List.nodup_nil

theorem holds_where (env : Env (List Char) (ℕ × ℕ)) : sendEngine.holds "WHERE TRUE".toList env = true := by
  unfold sendEngine
  dsimp only
  rw [if_neg, if_neg] <;> decide +kernel

theorem holds_or (env : Env (List Char) (ℕ × ℕ)) : sendEngine.holds "a2.id=m.source_id || 1".toList env = true := by
  unfold sendEngine
  dsimp only
  rw [if_neg, if_pos rfl, Bool.or_true]
  decide +kernel

theorem holds_equality (env : Env (List Char) (ℕ × ℕ)) : sendEngine.holds "a2.id=m.source_id".toList env =
    (decide ((env "a2".toList).map (·.1) = (env "m".toList).map (·.2)) && (env "a2".toList).isSome) := by
  unfold sendEngine
  dsimp only
  rw [if_pos rfl]

theorem qualified_sends {on : String} (hon : ∀ a, namesAlias on.toList a = false → Ignores (sendEngine.holds on.toList) a) :
    sendEngine.Qualified (sendsCount on) where
  where' a _ env x := by
    change sendEngine.holds "WHERE TRUE".toList _ = sendEngine.holds "WHERE TRUE".toList _
    rw [holds_where, holds_where]
  select _ _ _ _ := rfl
  on j hj := by
    obtain rfl := List.mem_singleton.mp hj
    exact hon

theorem count_pruneCountJoins_sends :
    sendEngine.count (pruneCountJoins (sendsOf "a2.id=m.source_id")) = sendEngine.count (sendsOf "a2.id=m.source_id") ∧
      dropOne (sendsCount "a2.id=m.source_id") [] (keptJoins (sendsCount "a2.id=m.source_id")) = none := by
  have h := count_pruneCountJoins sendEngine (sendsOf "a2.id=m.source_id") (sendsCount "a2.id=m.source_id")
    (by decide +kernel) (show List.Nodup _ by decide +kernel) (qualified_sends ?_) uniqueKeys_sendEngine ?_
  · exact ⟨h.1, h.2.2⟩
  · intro a ha env x
    have hjoined : a ≠ "a2".toList := by
      rintro rfl
      exact absurd ha (by decide +kernel)
    have hbase : a ≠ "m".toList := by
      rintro rfl
      exact absurd ha (by decide +kernel)
    rw [holds_equality, holds_equality, Joins.bind_of_ne hjoined.symm, Joins.bind_of_ne hbase.symm]
  · intro j hj _
    obtain rfl := List.mem_singleton.mp hj
    refine ⟨"id".toList, by decide +kernel, fun env => (env "m".toList).map (·.2), fun env r => ?_⟩
    have hne : "m".toList ≠ "a2".toList := by decide +kernel
    change sendEngine.holds "a2.id=m.source_id".toList (env.bind "a2".toList (some r)) = true ↔
      ∃ v, some r.1 = some v ∧ _
    rw [holds_equality, Joins.bind_self, Joins.bind_of_ne hne]
    simp [eq_comm]

/-- `||` is OR to the engine: the join matches both addresses. -/
theorem not_count_pruneCountJoins : ¬ ∀ (E : Engine (ℕ × ℕ) ℕ) (sql : List Char) (p : CountSql),
    parseCountSql sql = some p → p.Aliased → E.Qualified p → E.UniqueKeys →
      (∀ j ∈ p.joins, droppableJoin j = true → comparesColumn j.on = true → E.OneEquality j) →
        E.count (pruneCountJoins sql) = E.count sql := by
  intro h
  have hcount := h sendEngine (sendsOf "a2.id=m.source_id || 1") (sendsCount "a2.id=m.source_id || 1")
    (by decide +kernel) (show List.Nodup _ by decide +kernel)
    (qualified_sends fun a _ env x => by rw [holds_or, holds_or]) uniqueKeys_sendEngine ?_
  · have hone : sendEngine.count (pruneCountJoins (sendsOf "a2.id=m.source_id || 1")) = some 1 := by decide +kernel
    have htwo : sendEngine.count (sendsOf "a2.id=m.source_id || 1") = some 2 := by decide +kernel
    rw [hone, htwo] at hcount
    cases hcount
  · intro j hj _ hcompares
    obtain rfl := List.mem_singleton.mp hj
    exact absurd hcompares (by decide +kernel)

end CountJoins
