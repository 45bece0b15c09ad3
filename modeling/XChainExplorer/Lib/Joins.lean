import Mathlib.Data.List.Perm.Basic
import Mathlib.Logic.Function.Basic

/-! # Joins

    A `FROM` binds a row to each of its aliases, join by join, by nested loops. A left join that matches at most
    one row, whatever the rows before it are, and that nothing names, can be taken out: what is left of each row is
    the same. -/

namespace Joins

variable {α ρ β : Type*} [DecidableEq α]

/-- The rows that the aliases are bound to. An alias that is not bound, or whose left join found no row, has none. -/
abbrev Env (α ρ : Type*) := α → Option ρ

def Env.bind (env : Env α ρ) (a : α) (x : Option ρ) : Env α ρ := Function.update env a x

structure Join (α ρ : Type*) where
  left : Bool
  name : α
  rows : List ρ
  on : Env α ρ → Bool

/-- The rows of a table, each bound to the alias. -/
def Env.table (env : Env α ρ) (a : α) (rows : List ρ) : List (Env α ρ) := rows.map fun r => env.bind a (some r)

namespace Join
variable (j : Join α ρ)

def matching (env : Env α ρ) : List (Env α ρ) := (env.table j.name j.rows).filter j.on

/-- What one row becomes: the rows it matches, and for a left join the row alone where it matches none. -/
def expand (env : Env α ρ) : List (Env α ρ) :=
  if j.left && (j.matching env).isEmpty then [env.bind j.name none] else j.matching env

end Join

/-- `FROM` the rows that are bound so far, one join after the other. -/
def joinAll (base : List (Env α ρ)) (joins : List (Join α ρ)) : List (Env α ρ) :=
  joins.foldl (fun envs j => envs.flatMap j.expand) base

/-- What does not depend on the row of an alias. -/
def Ignores (f : Env α ρ → β) (a : α) : Prop := ∀ env x, f (env.bind a x) = f env

/-- The row without the alias. -/
def forget (a : α) (env : Env α ρ) : Env α ρ := env.bind a none

variable {a : α} {env : Env α ρ} {base envs envs' : List (Env α ρ)} {joins pre post : List (Join α ρ)} {j : Join α ρ}
  {x y : Option ρ} {r : ρ}

@[simp] theorem bind_self : env.bind a x a = x := Function.update_self _ _ _

@[simp] theorem bind_of_ne {b : α} (h : b ≠ a) : env.bind a x b = env b := Function.update_of_ne h _ _

@[simp] theorem bind_bind : (env.bind a x).bind a y = env.bind a y := Function.update_idem _ _ _

theorem bind_comm {b : α} (h : a ≠ b) : (env.bind a x).bind b y = (env.bind b y).bind a x :=
  Function.update_comm h _ _ _

@[simp] theorem forget_bind : forget a (env.bind a x) = forget a env := bind_bind

theorem Ignores.forget {f : Env α ρ → β} (h : Ignores f a) : f (forget a env) = f env := h env none

theorem joinAll_append (base : List (Env α ρ)) (pre post : List (Join α ρ)) :
    joinAll base (pre ++ post) = joinAll (joinAll base pre) post := List.foldl_append

@[simp] theorem joinAll_cons (base : List (Env α ρ)) (j : Join α ρ) (joins : List (Join α ρ)) :
    joinAll base (j :: joins) = joinAll (base.flatMap j.expand) joins := rfl

/-! ### Taking a join out -/

/-- The join neither drops a row nor makes two of one. -/
def Join.Neutral (j : Join α ρ) : Prop := j.left = true ∧ ∀ env, (j.matching env).length ≤ 1

theorem Join.Neutral.expand (h : j.Neutral) (env : Env α ρ) : ∃ x, j.expand env = [env.bind j.name x] := by
  obtain ⟨hleft, hone⟩ := h
  rw [Join.expand, hleft, Bool.true_and]
  split_ifs with hnone
  · exact ⟨none, rfl⟩
  · have hlen : (j.matching env).length = 1 := by
      have hpos : 0 < (j.matching env).length :=
        List.length_pos_of_ne_nil fun h => hnone (List.isEmpty_iff.mpr h)
      have := hone env
      omega
    obtain ⟨e, he⟩ := List.length_eq_one_iff.mp hlen
    have hmem : e ∈ j.matching env := he ▸ List.mem_singleton_self e
    obtain ⟨r, -, rfl⟩ := List.mem_map.mp (List.mem_filter.mp hmem).1
    exact ⟨some r, he⟩

theorem Join.Neutral.flatMap (h : j.Neutral) (envs : List (Env α ρ)) :
    (envs.flatMap j.expand).map (Joins.forget j.name) = envs.map (Joins.forget j.name) := by
  induction envs with
  | nil => rfl
  | cons env envs ih =>
    obtain ⟨x, hx⟩ := h.expand env
    rw [List.flatMap_cons, hx, List.map_append, ih, List.map_singleton, forget_bind]
    rfl

/-- A join of another alias that does not name this one does the same to a row with it and without it. -/
theorem Join.map_expand_bind (hne : j.name ≠ a) (hon : Ignores j.on a) (env : Env α ρ) (x : Option ρ) :
    j.expand (env.bind a x) = (j.expand env).map (·.bind a x) := by
  have htable : (env.bind a x).table j.name j.rows = (env.table j.name j.rows).map (·.bind a x) := by
    rw [Env.table, Env.table, List.map_map]
    exact List.map_congr_left fun r _ => bind_comm hne.symm
  have hmatching : j.matching (env.bind a x) = (j.matching env).map (·.bind a x) := by
    rw [Join.matching, Join.matching, htable, List.filter_map]
    congr 1
    exact List.filter_congr fun e _ => hon e x
  rw [Join.expand, Join.expand, hmatching, List.isEmpty_map]
  split_ifs
  · rw [List.map_singleton, bind_comm hne.symm]
  · rfl

theorem Join.map_forget_expand (hne : j.name ≠ a) (hon : Ignores j.on a) (envs : List (Env α ρ)) :
    (envs.flatMap j.expand).map (Joins.forget a) = (envs.map (Joins.forget a)).flatMap j.expand := by
  rw [List.map_flatMap, List.flatMap_map]
  exact List.flatMap_congr fun env _ => (Join.map_expand_bind hne hon env none).symm

theorem map_forget_joinAll (h : ∀ j ∈ joins, j.name ≠ a ∧ Ignores j.on a) (base : List (Env α ρ)) :
    (joinAll base joins).map (forget a) = joinAll (base.map (forget a)) joins := by
  induction joins generalizing base with
  | nil => rfl
  | cons j joins ih =>
    obtain ⟨hne, hon⟩ := h j List.mem_cons_self
    rw [joinAll_cons, joinAll_cons, ih fun k hk => h k (List.mem_cons_of_mem _ hk), Join.map_forget_expand hne hon]

/-- The rows with the join and without it are the same but for its alias. -/
theorem map_forget_erase (hneutral : j.Neutral) (hpost : ∀ k ∈ post, k.name ≠ j.name ∧ Ignores k.on j.name)
    (base : List (Env α ρ)) :
    (joinAll base (pre ++ j :: post)).map (forget j.name) = (joinAll base (pre ++ post)).map (forget j.name) := by
  rw [joinAll_append, joinAll_append, joinAll_cons, map_forget_joinAll hpost, map_forget_joinAll hpost, hneutral.flatMap]

/-- What is selected of rows that are the same but for an alias is the same where nothing names it. -/
theorem select_of_forget {w : Env α ρ → Bool} {v : Env α ρ → β} (hw : Ignores w a) (hv : Ignores v a)
    (h : envs.map (forget a) = envs'.map (forget a)) : (envs.filter w).map v = (envs'.filter w).map v := by
  have hforget (l : List (Env α ρ)) : (l.filter w).map v = ((l.map (forget a)).filter w).map v := by
    rw [List.filter_map, List.map_map]
    have hfilter : l.filter (w ∘ forget a) = l.filter w := List.filter_congr fun e _ => hw.forget
    rw [hfilter]
    exact List.map_congr_left fun e _ => hv.forget.symm
  rw [hforget envs, hforget envs', h]

theorem select_erase {w : Env α ρ → Bool} {v : Env α ρ → β} (hneutral : j.Neutral)
    (hpost : ∀ k ∈ post, k.name ≠ j.name ∧ Ignores k.on j.name) (hw : Ignores w j.name) (hv : Ignores v j.name)
    (base : List (Env α ρ)) :
    ((joinAll base (pre ++ j :: post)).filter w).map v = ((joinAll base (pre ++ post)).filter w).map v :=
  select_of_forget hw hv (map_forget_erase hneutral hpost base)

/-! ### The other way round -/

theorem flatMap_map_swap {σ τ γ : Type*} (f : σ → τ → γ) (l : List σ) (m : List τ) :
    (l.flatMap fun r => m.map fun s => f r s).Perm (m.flatMap fun s => l.map fun r => f r s) := by
  induction l with
  | nil =>
    have hnil : (m.flatMap fun s => ([] : List σ).map fun r => f r s) = [] :=
      List.flatMap_eq_nil_iff.mpr fun _ _ => rfl
    rw [hnil]
    exact .refl _
  | cons r l ih =>
    rw [List.flatMap_cons]
    exact (ih.append_left _).trans (List.map_append_flatMap_perm m (f r) _)

/-- Two tables that are joined by one condition, whichever is read first. -/
theorem joinAll_swap {b : α} {l m : List ρ} {p : Env α ρ → Bool} (hne : a ≠ b) (env : Env α ρ) :
    (joinAll (env.table a l) [⟨false, b, m, p⟩]).Perm (joinAll (env.table b m) [⟨false, a, l, p⟩]) := by
  have hpairs (a b : α) (l m : List ρ) : joinAll (env.table a l) [⟨false, b, m, p⟩] =
      (l.flatMap fun r => m.map fun s => (env.bind a (some r)).bind b (some s)).filter p := by
    rw [joinAll_cons, joinAll, List.foldl_nil, Env.table, List.flatMap_map, List.filter_flatMap]
    rfl
  rw [hpairs, hpairs]
  refine List.Perm.filter p ((flatMap_map_swap _ l m).trans (.of_eq ?_))
  exact List.flatMap_congr fun s _ => List.map_congr_left fun r _ => bind_comm hne

/-- What a join binds is its own alias. -/
theorem Join.mem_expand {e : Env α ρ} (h : e ∈ j.expand env) (hne : j.name ≠ a) : e a = env a := by
  rw [Join.expand] at h
  split_ifs at h
  · rw [List.mem_singleton.mp h, bind_of_ne hne.symm]
  · obtain ⟨r, -, rfl⟩ := List.mem_map.mp (List.mem_filter.mp h).1
    exact bind_of_ne hne.symm

theorem mem_joinAll {e : Env α ρ} (h : e ∈ joinAll base joins) :
    ∃ env ∈ base, ∀ a, (∀ j ∈ joins, j.name ≠ a) → e a = env a := by
  induction joins generalizing base with
  | nil => exact ⟨e, h, fun _ _ => rfl⟩
  | cons j joins ih =>
    obtain ⟨e', he', hkeeps⟩ := ih h
    obtain ⟨env, henv, he'⟩ := List.mem_flatMap.mp he'
    refine ⟨env, henv, fun a ha => ?_⟩
    rw [hkeeps a fun k hk => ha k (List.mem_cons_of_mem _ hk), Join.mem_expand he' (ha j List.mem_cons_self)]

theorem joinAll_perm {base base' : List (Env α ρ)} (h : base.Perm base') (joins : List (Join α ρ)) :
    (joinAll base joins).Perm (joinAll base' joins) := by
  induction joins generalizing base base' with
  | nil => exact h
  | cons j joins ih => exact ih (h.flatMap_right _)

end Joins
