import Mathlib.Data.List.Basic
import Mathlib.Data.List.Infix
import Mathlib.Data.Nat.Bitwise
import Mathlib.Logic.Function.Iterate
import Mathlib.Tactic.Ring

/-! # Paths through a binary hash tree

    A path from a leaf to the root is the list of its siblings, each with the side the leaf is on. Two
    paths over the same sides that reach one root are the same path over the same leaf, where the joined
    pairs of no level collide. The paths here start at the root; a tree is given by its layers, or by
    the entries of a sparse tree. -/

namespace HashPath

variable {D : Type*} (node : D → D → D)

/-- The two children of a step: the sibling stands left of a right child. -/
def children (right : Bool) (sibling below : D) : D × D :=
  if right then (sibling, below) else (below, sibling)

def join (p : D × D) : D := node p.1 p.2

/-- The root over a leaf and its path. -/
def climb (leaf : D) : List (Bool × D) → D
  | [] => leaf
  | (right, sibling) :: path => join node (children right sibling (climb leaf path))

/-- The pairs that are joined on the way. -/
def steps (leaf : D) : List (Bool × D) → List (D × D)
  | [] => []
  | (right, sibling) :: path => children right sibling (climb node leaf path) :: steps leaf path

/-- No level joins two pairs to one node. -/
def NoCollision (ps qs : List (D × D)) : Prop :=
  ∀ pq ∈ ps.zip qs, join node pq.1 = join node pq.2 → pq.1 = pq.2

variable {node}

theorem children_inj {right : Bool} {s s' b b' : D}
    (h : children right s b = children right s' b') : s = s' ∧ b = b' := by
  cases right with
  | false =>
    obtain ⟨hb, hs⟩ := Prod.mk.inj h
    exact ⟨hs, hb⟩
  | true => exact Prod.mk.inj h

/-- A path that starts lower: its lowest step is taken first. -/
theorem climb_concat (leaf : D) (path : List (Bool × D)) (step : Bool × D) :
    climb node leaf (path ++ [step]) = climb node (join node (children step.1 step.2 leaf)) path := by
  induction path with
  | nil => rfl
  | cons s path ih => simp only [List.cons_append, climb, ih]

theorem climb_append (leaf : D) (path lower : List (Bool × D)) :
    climb node leaf (path ++ lower) = climb node (climb node leaf lower) path := by
  induction path with
  | nil => rfl
  | cons s path ih => simp only [List.cons_append, climb, ih]

theorem steps_append (leaf : D) (path lower : List (Bool × D)) :
    steps node leaf (path ++ lower) = steps node (climb node leaf lower) path ++ steps node leaf lower := by
  induction path with
  | nil => rfl
  | cons s path ih => simp only [List.cons_append, steps, climb_append, ih]

theorem length_steps (leaf : D) (path : List (Bool × D)) : (steps node leaf path).length = path.length := by
  induction path with
  | nil => rfl
  | cons s path ih => rw [steps, List.length_cons, List.length_cons, ih]

/-- Paths over the same sides that reach one root are one path. -/
theorem climb_inj {leaf leaf' : D} {path path' : List (Bool × D)}
    (hsides : path.map Prod.fst = path'.map Prod.fst)
    (hfree : NoCollision node (steps node leaf path) (steps node leaf' path'))
    (h : climb node leaf path = climb node leaf' path') : leaf = leaf' ∧ path = path' := by
  induction path generalizing path' with
  | nil =>
    obtain rfl : path' = [] := by simpa using hsides.symm
    exact ⟨h, rfl⟩
  | cons step path ih =>
    cases path' with
    | nil => simp at hsides
    | cons step' path' =>
      obtain ⟨right, s⟩ := step
      obtain ⟨right', s'⟩ := step'
      simp only [List.map_cons, List.cons.injEq] at hsides
      obtain ⟨rfl, hsides⟩ := hsides
      have hpair := hfree (children right s (climb node leaf path), children right s' (climb node leaf' path'))
        (by simp [steps]) h
      obtain ⟨rfl, hbelow⟩ := children_inj hpair
      have hrest : NoCollision node (steps node leaf path) (steps node leaf' path') := by
        intro pq hpq
        exact hfree pq (List.mem_cons_of_mem _ hpq)
      obtain ⟨hleaf, rfl⟩ := ih hsides hrest hbelow
      exact ⟨hleaf, rfl⟩

/-! ### A tree by its layers -/

variable (node)

/-- The layer above: neighbours are joined. -/
def halve : List D → List D
  | l :: r :: rest => node l r :: halve rest
  | _ => []

variable {node}

theorem length_halve : ∀ layer : List D, (halve node layer).length = layer.length / 2
  | [] => by simp [halve]
  | [_] => by simp [halve]
  | l :: r :: rest => by
    have ih := length_halve rest
    simp only [halve, List.length_cons]
    omega

theorem getElem?_halve : ∀ (layer : List D) (j : ℕ), 2 * j + 1 < layer.length →
    ∃ l r, layer[2 * j]? = some l ∧ layer[2 * j + 1]? = some r ∧ (halve node layer)[j]? = some (node l r)
  | [], _, h => by simp at h
  | [_], _, h => by simp at h
  | l :: r :: rest, 0, _ => ⟨l, r, rfl, rfl, rfl⟩
  | l :: r :: rest, j + 1, h => by
    obtain ⟨a, b, ha, hb, hab⟩ := getElem?_halve rest j (by simp only [List.length_cons] at h; omega)
    have hl : 2 * (j + 1) = 2 * j + 1 + 1 := by ring
    refine ⟨a, b, ?_, ?_, ?_⟩
    · rw [hl, List.getElem?_cons_succ, List.getElem?_cons_succ, ha]
    · rw [hl, List.getElem?_cons_succ, List.getElem?_cons_succ, hb]
    · rw [halve, List.getElem?_cons_succ, hab]

/-- The pairs a layer is joined from. -/
def pairs : List D → List (D × D)
  | l :: r :: rest => (l, r) :: pairs rest
  | _ => []

/-- Layers of one even length are told apart by the layer above. -/
theorem halve_inj : ∀ {layer layer' : List D}, layer.length = layer'.length → layer.length % 2 = 0 →
    NoCollision node (pairs layer) (pairs layer') → halve node layer = halve node layer' → layer = layer'
  | [], [], _, _, _, _ => rfl
  | [], _ :: _, h, _, _, _ => by simp at h
  | _ :: _, [], h, _, _, _ => by simp at h
  | [_], _, _, heven, _, _ => by simp at heven
  | _ :: _ :: _, [_], h, _, _, _ => by simp at h
  | l :: r :: rest, l' :: r' :: rest', hlen, heven, hfree, h => by
    simp only [halve, List.cons.injEq] at h
    have hpair : (l, r) = (l', r') := hfree ((l, r), (l', r')) (by simp [pairs]) h.1
    have hrest : NoCollision node (pairs rest) (pairs rest') := by
      intro pq hpq
      exact hfree pq (List.mem_cons_of_mem _ hpq)
    obtain ⟨rfl, rfl⟩ := Prod.mk.inj hpair
    have heven : rest.length % 2 = 0 := by
      simp only [List.length_cons] at heven
      omega
    rw [halve_inj (by simpa using hlen) heven hrest h.2]

theorem length_halve_two_pow {n : ℕ} {layer : List D} (h : layer.length = 2 ^ (n + 1)) :
    (halve node layer).length = 2 ^ n := by
  rw [length_halve, h, pow_succ]
  omega

theorem length_pairs : ∀ layer : List D, (pairs layer).length = layer.length / 2
  | [] => by simp [pairs]
  | [_] => by simp [pairs]
  | l :: r :: rest => by
    have ih := length_pairs rest
    simp only [pairs, List.length_cons]
    omega

theorem NoCollision.left {ps qs ps' qs' : List (D × D)} (hlen : ps.length = qs.length)
    (h : NoCollision node (ps ++ ps') (qs ++ qs')) : NoCollision node ps qs := by
  intro pq hpq
  rw [NoCollision, List.zip_append hlen] at h
  exact h pq (List.mem_append_left _ hpq)

theorem NoCollision.right {ps qs ps' qs' : List (D × D)} (hlen : ps.length = qs.length)
    (h : NoCollision node (ps ++ ps') (qs ++ qs')) : NoCollision node ps' qs' := by
  intro pq hpq
  rw [NoCollision, List.zip_append hlen] at h
  exact h pq (List.mem_append_right _ hpq)

variable [Inhabited D] (node)

/-- The root over a layer of `2 ^ n` nodes. -/
def rootOf : ℕ → List D → D
  | 0, layer => layer.headD default
  | n + 1, layer => rootOf n (halve node layer)

/-- The place beside `j` under one parent. -/
def beside (j : ℕ) : ℕ := if j % 2 = 0 then j + 1 else j - 1

/-- The path of place `j`, from the leaf up. -/
def pathUp : ℕ → List D → ℕ → List (Bool × D)
  | 0, _, _ => []
  | n + 1, layer, j =>
    (decide (j % 2 = 1), layer.getD (beside j) default) :: pathUp n (halve node layer) (j / 2)

/-- Every pair that is joined between a layer and its root. -/
def allPairs : ℕ → List D → List (D × D)
  | 0, _ => []
  | n + 1, layer => pairs layer ++ allPairs n (halve node layer)

variable {node}

/-- The path of a place leads from what stands there to the root. -/
theorem climb_pathUp {n : ℕ} {layer : List D} {j : ℕ} {x : D} (hlen : layer.length = 2 ^ n)
    (hj : layer[j]? = some x) : climb node x (pathUp node n layer j).reverse = rootOf node n layer := by
  induction n generalizing layer j x with
  | zero =>
    obtain ⟨y, rfl⟩ := List.length_eq_one_iff.mp hlen
    obtain ⟨rfl, rfl⟩ : j = 0 ∧ y = x := by
      cases j with
      | zero => simpa using hj
      | succ j => simp at hj
    rfl
  | succ n ih =>
    have hlt : j < layer.length := (List.getElem?_eq_some_iff.mp hj).1
    rw [pow_succ] at hlen
    obtain ⟨l, r, hl, hr, hup⟩ := @getElem?_halve D node layer (j / 2) (by omega)
    have hjoin : join node (children (decide (j % 2 = 1)) (layer.getD (beside j) default) x) = node l r := by
      rcases Nat.mod_two_eq_zero_or_one j with heven | hodd
      · have hl' : 2 * (j / 2) = j := by omega
        rw [hl'] at hl hr
        obtain rfl := Option.some.inj (hj.symm.trans hl)
        simp [children, join, beside, heven, hr]
      · have hr' : 2 * (j / 2) + 1 = j := by omega
        have hl' : 2 * (j / 2) = j - 1 := by omega
        rw [hr'] at hr
        rw [hl'] at hl
        obtain rfl := Option.some.inj (hj.symm.trans hr)
        simp [children, join, beside, hodd, hl]
    rw [pathUp, List.reverse_cons, climb_concat, hjoin, rootOf]
    exact ih (length_halve_two_pow (by rw [hlen, pow_succ])) hup

/-- Layers of one width are told apart by their roots. -/
theorem rootOf_inj {n : ℕ} {layer layer' : List D} (hlen : layer.length = 2 ^ n)
    (hlen' : layer'.length = 2 ^ n)
    (hfree : NoCollision node (allPairs node n layer) (allPairs node n layer'))
    (h : rootOf node n layer = rootOf node n layer') : layer = layer' := by
  induction n generalizing layer layer' with
  | zero =>
    obtain ⟨y, rfl⟩ := List.length_eq_one_iff.mp hlen
    obtain ⟨z, rfl⟩ := List.length_eq_one_iff.mp hlen'
    have h : y = z := h
    rw [h]
  | succ n ih =>
    have hpairs : (pairs layer).length = (pairs layer').length := by
      rw [length_pairs, length_pairs, hlen, hlen']
    have hup := ih (length_halve_two_pow hlen) (length_halve_two_pow hlen') (hfree.right hpairs) h
    refine halve_inj (hlen.trans hlen'.symm) ?_ (hfree.left hpairs) hup
    rw [hlen, pow_succ]
    omega

end HashPath
