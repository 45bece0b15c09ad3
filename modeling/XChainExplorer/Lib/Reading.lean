import Mathlib.Logic.Basic
import Mathlib.Data.List.Basic

/-! # Programs that await a database

    A program awaits queries of a database that does not change, asks for the responses of other indexes, and
    returns. What it does between the two is all that is left of it when its queries are answered. -/

/-- A program over the database `δ` that returns an `α`; what it asks of other indexes is a `ρ` for each. -/
inductive Reading (δ ι ρ α : Type) where
  | ret (a : α)
  | query (k : δ → Reading δ ι ρ α)
  | nested (indexes : List ι) (k : List ρ → Reading δ ι ρ α)

namespace Reading

variable {δ ι ρ α β : Type} (db : δ)

def bind : Reading δ ι ρ α → (α → Reading δ ι ρ β) → Reading δ ι ρ β
  | ret a, f => f a
  | query k, f => query fun db => (k db).bind f
  | nested indexes k, f => nested indexes fun out => (k out).bind f

instance instMonadReading : Monad (Reading δ ι ρ) where
  pure := ret
  bind := bind

/-- One query. -/
def ask (q : δ → α) : Reading δ ι ρ α := query fun db => ret (q db)

/-- The program with its queries answered. -/
def answered : Reading δ ι ρ α → Reading δ ι ρ α
  | ret a => ret a
  | query k => (k db).answered
  | nested indexes k => nested indexes fun out => (k out).answered

@[simp] theorem answered_ret (a : α) : (ret a : Reading δ ι ρ α).answered db = ret a := rfl

@[simp] theorem answered_pure (a : α) : (pure a : Reading δ ι ρ α).answered db = ret a := rfl

@[simp] theorem answered_query (k : δ → Reading δ ι ρ α) : (query k).answered db = (k db).answered db := rfl

@[simp] theorem answered_nested (indexes : List ι) (k : List ρ → Reading δ ι ρ α) :
    (nested indexes k).answered db = nested indexes fun out => (k out).answered db := rfl

@[simp] theorem answered_ask (q : δ → α) : (ask q : Reading δ ι ρ α).answered db = ret (q db) := rfl

variable {db}

theorem answered_bind (x : Reading δ ι ρ α) (f : α → Reading δ ι ρ β) :
    (x >>= f).answered db = (x.answered db).bind fun a => (f a).answered db := by
  change (x.bind f).answered db = _
  induction x with
  | ret a => rfl
  | query k ih => exact ih db
  | nested indexes k ih => exact congrArg (nested indexes) (funext ih)

/-- Two programs that go on alike go alike. -/
theorem answered_bind_congr {x y : Reading δ ι ρ α} {f g : α → Reading δ ι ρ β} (hxy : x.answered db = y.answered db)
    (hfg : ∀ a, (f a).answered db = (g a).answered db) : (x >>= f).answered db = (y >>= g).answered db := by
  rw [answered_bind, answered_bind, hxy, funext hfg]

/-- A program that only queries goes on with what it finds. -/
theorem answered_bind_of {x : Reading δ ι ρ α} {a : α} (h : x.answered db = ret a) (f : α → Reading δ ι ρ β) :
    (x >>= f).answered db = (f a).answered db := by
  rw [answered_bind, h]
  rfl

/-! ### What a program returns -/

/-- What a program returns when each index it asks for returns its own program's response. -/
inductive Reads (db : δ) (read : ι → Reading δ ι ρ ρ) : Reading δ ι ρ ρ → ρ → Prop
  | ret (d : ρ) : Reads db read (.ret d) d
  | query {k : δ → Reading δ ι ρ ρ} {d : ρ} (h : Reads db read (k db) d) : Reads db read (.query k) d
  | nested {indexes : List ι} {k : List ρ → Reading δ ι ρ ρ} {d : ρ} (out : ι → ρ)
      (hout : ∀ i ∈ indexes, Reads db read (read i) (out i)) (h : Reads db read (k (indexes.map out)) d) :
      Reads db read (.nested indexes k) d

variable {read : ι → Reading δ ι ρ ρ} {r r' : Reading δ ι ρ ρ} {d d' : ρ}

theorem reads_ret : Reads db read (.ret d) d' ↔ d' = d := by
  constructor
  · rintro ⟨⟩
    rfl
  · rintro rfl
    exact .ret d'

theorem reads_query {k : δ → Reading δ ι ρ ρ} : Reads db read (.query k) d ↔ Reads db read (k db) d := by
  constructor
  · rintro (_ | h)
    exact h
  · exact .query

/-- A program returns one response. -/
theorem Reads.unique (h : Reads db read r d) (h' : Reads db read r d') : d = d' := by
  induction h generalizing d' with
  | ret d => exact (reads_ret.mp h').symm
  | query _ ih => exact ih (reads_query.mp h')
  | @nested indexes k d out _ _ ihout ih =>
    cases h' with
    | nested out' hout' h' =>
      have hsame : indexes.map out' = indexes.map out := List.map_congr_left fun i hi => (ihout i hi (hout' i hi)).symm
      exact ih (hsame ▸ h')

theorem reads_nested {indexes : List ι} {k : List ρ → Reading δ ι ρ ρ} {out : ι → ρ}
    (hout : ∀ i ∈ indexes, Reads db read (read i) (out i)) :
    Reads db read (.nested indexes k) d ↔ Reads db read (k (indexes.map out)) d := by
  constructor
  · rintro (_ | _ | ⟨out', hout', h⟩)
    have hsame : indexes.map out' = indexes.map out :=
      List.map_congr_left fun i hi => (hout' i hi).unique (hout i hi)
    exact hsame ▸ h
  · exact .nested out hout

theorem reads_answered : Reads db read (r.answered db) d ↔ Reads db read r d := by
  constructor
  · intro h
    induction r generalizing d with
    | ret a => exact h
    | query k ih => exact .query (ih db h)
    | nested indexes k ih =>
      cases h with
      | nested out hout h => exact .nested out hout (ih _ h)
  · intro h
    induction h with
    | ret d => exact .ret d
    | query _ ih => exact ih
    | nested out hout _ _ ih => exact .nested out hout ih

theorem reads_congr (h : r.answered db = r'.answered db) : Reads db read r d ↔ Reads db read r' d := by
  rw [← reads_answered, h, reads_answered]

end Reading
