import Mathlib.Data.List.Dedup

/-! # Overlaying trees of string keys

    Objects as lists of named fields, and the overlay of one tree on another to a given depth: a branch
    is reused where it is an object, and made where it is not; keys that fail a test are left out. What
    a path leads to in the overlay is what it leads to in the upper tree, or else in the lower one. -/

namespace JsonTree

/-- A value that is no object is not looked into. -/
inductive Json where
  | leaf (text : String)
  | obj (fields : List (String × Json))

abbrev Fields := List (String × Json)

/-- An own property. -/
def get (fields : Fields) (key : String) : Option Json :=
  (fields.find? (·.1 = key)).map (·.2)

/-- An assignment: in place where the key is there, at the end where it is not. -/
def set (fields : Fields) (key : String) (value : Json) : Fields :=
  if fields.any (·.1 = key) then fields.map fun f => if f.1 = key then (key, value) else f
  else fields ++ [(key, value)]

def keys : Json → List String
  | .leaf _ => []
  | .obj fields => (fields.map (·.1)).dedup

/-- The property of a value; none of a value that is no object. -/
def child : Json → String → Option Json
  | .leaf _, _ => none
  | .obj fields, key => get fields key

/-- The object at a key, or a fresh one. -/
def branch (fields : Fields) (key : String) : Fields :=
  match get fields key with
  | some (.obj inner) => inner
  | _ => []

/-- Where a path leads. -/
def value : Json → List String → Option Json
  | j, [] => some j
  | j, key :: path => (child j key).bind (value · path)

/-- The upper tree's fields over the lower one's, `depth` levels of objects above the values. -/
def overlay (safe : String → Bool) : ℕ → Fields → Json → Fields
  | 0, base, upper => ((keys upper).filter safe).foldl (fun b key => match child upper key with
      | some v => set b key v
      | none => b) base
  | depth + 1, base, upper => ((keys upper).filter safe).foldl (fun b key => match child upper key with
      | some v => set b key (.obj (overlay safe depth (branch b key) v))
      | none => b) base

variable {fields base : Fields} {key other : String} {v upper : Json} {safe : String → Bool} {depth : ℕ}
  {path : List String}

theorem get_set (fields : Fields) (key other : String) (v : Json) :
    get (set fields key v) other = if other = key then some v else get fields other := by
  rw [set]
  split_ifs with hany heq heq
  · subst heq
    rw [get]
    induction fields with
    | nil => simp at hany
    | cons f fields ih =>
      rw [List.map_cons, List.find?_cons]
      by_cases hf : f.1 = other
      · simp [hf]
      · have hrest : (fields.any fun f => decide (f.1 = other)) = true := by simpa [hf] using hany
        simpa [hf] using ih hrest
  · rw [get, get]
    congr 1
    clear hany
    induction fields with
    | nil => rfl
    | cons f fields ih =>
      rw [List.map_cons, List.find?_cons, List.find?_cons, ih]
      by_cases hf : f.1 = key
      · have hne : ¬key = other := fun h => heq h.symm
        simp [hf, hne]
      · simp [hf]
  · subst heq
    have hnone : fields.find? (·.1 = other) = none := by
      rw [List.find?_eq_none]
      intro f hf hkey
      exact hany (List.any_eq_true.mpr ⟨f, hf, hkey⟩)
    rw [get, List.find?_append, hnone]
    simp
  · have hne : ¬key = other := fun h => heq h.symm
    rw [get, get, List.find?_append]
    simp [hne]

theorem value_single (key : String) (j : Json) (next : String) (path : List String) :
    value (.obj [(key, j)]) (next :: path) = if key = next then value j path else none := by
  rw [value, child, get, List.find?_cons]
  by_cases h : key = next <;> simp [h]

theorem mem_keys : key ∈ keys upper ↔ (child upper key).isSome = true := by
  cases upper with
  | leaf text => simp [keys, child]
  | obj fields =>
    rw [keys, child, get, Option.isSome_map, List.mem_dedup, List.mem_map, List.find?_isSome]
    simp

/-- A walk over distinct keys writes each of them once. -/
theorem get_foldl {f : Fields → String → Json → Json} (hf : ∀ b b' k v, get b k = get b' k → f b k v = f b' k v) :
    ∀ (ks : List String), ks.Nodup → ∀ base : Fields,
      get (ks.foldl (fun b key => match child upper key with
        | some v => set b key (f b key v)
        | none => b) base) key =
      if key ∈ ks then ((child upper key).map (f base key)).or (get base key) else get base key := by
  intro ks
  induction ks with
  | nil => exact fun _ base => rfl
  | cons k ks ih =>
    intro hnodup base
    obtain ⟨hk, hnodup⟩ := List.nodup_cons.mp hnodup
    rw [List.foldl_cons, ih hnodup]
    rcases eq_or_ne key k with rfl | hne
    · rw [if_neg hk, if_pos List.mem_cons_self]
      cases hc : child upper key with
      | none => rfl
      | some v => dsimp only; rw [get_set, if_pos rfl]; rfl
    · have hbase : get (match child upper k with
          | some v => set base k (f base k v)
          | none => base) key = get base key := by
        cases child upper k with
        | none => rfl
        | some v => dsimp only; rw [get_set, if_neg hne]
      have hmem : key ∈ k :: ks ↔ key ∈ ks := by rw [List.mem_cons, or_iff_right hne]
      simp only [hmem, hbase]
      split_ifs
      · cases child upper key with
        | none => rfl
        | some v =>
          dsimp only [Option.map_some, Option.some_or]
          rw [hf _ base key v hbase]
      · rfl

theorem keys_nodup (upper : Json) : (keys upper).Nodup := by
  cases upper with
  | leaf text => exact List.nodup_nil
  | obj fields => exact List.nodup_dedup _

theorem branch_congr {base' : Fields} (h : get base key = get base' key) : branch base key = branch base' key := by
  rw [branch, branch, h]

/-- A walk over the safe keys asks the upper tree for each of them. -/
theorem get_walk {f : Fields → String → Json → Json} (hf : ∀ b b' k v, get b k = get b' k → f b k v = f b' k v)
    (hsafe : safe key = true) (base : Fields) :
    get (((keys upper).filter safe).foldl (fun b key => match child upper key with
        | some v => set b key (f b key v)
        | none => b) base) key = ((child upper key).map (f base key)).or (get base key) := by
  rw [get_foldl hf _ ((keys_nodup upper).filter _)]
  simp only [List.mem_filter, hsafe, and_true, mem_keys]
  cases child upper key <;> simp

theorem get_overlay_zero (hsafe : safe key = true) :
    get (overlay safe 0 base upper) key = (child upper key).or (get base key) := by
  rw [overlay, get_walk (fun _ _ _ _ _ => rfl) hsafe base (f := fun _ _ v => v), Option.map_id']

theorem get_overlay_succ (hsafe : safe key = true) :
    get (overlay safe (depth + 1) base upper) key =
      ((child upper key).map fun v => Json.obj (overlay safe depth (branch base key) v)).or (get base key) := by
  rw [overlay, get_walk (fun b b' k v h => by rw [branch_congr h]) hsafe base
    (f := fun b k v => Json.obj (overlay safe depth (branch b k) v))]

/-- Below a key that is no object there is nothing, as in the fresh object made for it. -/
theorem value_branch (base : Fields) (key next : String) (path : List String) :
    value (.obj (branch base key)) (next :: path) = (get base key).bind (value · (next :: path)) := by
  rw [branch]
  cases h : get base key with
  | none => rfl
  | some j => cases j <;> rfl

/-- What a path as long as the overlay is deep leads to. -/
theorem value_overlay (hsafe : ∀ k ∈ path, safe k = true) (hlen : path.length = depth + 1) (base : Fields) (upper : Json) :
    value (.obj (overlay safe depth base upper)) path = (value upper path).or (value (.obj base) path) := by
  induction depth generalizing path base upper with
  | zero =>
    obtain ⟨key, rfl⟩ := List.length_eq_one_iff.mp hlen
    have hget : get (overlay safe 0 base upper) key = (child upper key).or (get base key) :=
      get_overlay_zero (hsafe key List.mem_cons_self)
    simp only [value, child, hget]
    cases child upper key <;> simp
  | succ depth ih =>
    obtain ⟨key, next, path, rfl⟩ : ∃ key next rest, path = key :: next :: rest := by
      match path, hlen with
      | key :: next :: rest, _ => exact ⟨key, next, rest, rfl⟩
    obtain ⟨hkey, hrest⟩ := List.forall_mem_cons.mp hsafe
    have hlen' : (next :: path).length = depth + 1 := Nat.succ.inj hlen
    rw [value, child, get_overlay_succ hkey, value, value, child]
    cases hc : child upper key with
    | none => simp
    | some v =>
      have hstep := ih hrest hlen' (branch base key) v
      rw [value_branch] at hstep
      simpa using hstep

end JsonTree
