import Mathlib.Data.List.Basic
import Mathlib.Data.List.TakeWhile

/-! # Scanning a text

    A text is taken apart from its front, one piece after the other: words, and runs of characters of a class for
    as long as they go. What was taken is taken apart the same way in front of any other rest that does not carry
    its last run on. -/

namespace Scanning

variable {τ : Type*}

/-- A word is one test for each of its characters. -/
inductive Piece (τ : Type*) where
  | word (tests : List (τ → Bool))
  | run (p : τ → Bool)
  | runs (p : τ → Bool)

def takeWord : List (τ → Bool) → List τ → Option (List τ × List τ)
  | [], s => some ([], s)
  | _ :: _, [] => none
  | t :: tests, c :: s => if t c then (takeWord tests s).map fun x => (c :: x.1, x.2) else none

namespace Piece

def scan : Piece τ → List τ → Option (List τ × List τ)
  | word tests, s => takeWord tests s
  | run p, s => if (s.takeWhile p).isEmpty then none else some (s.takeWhile p, s.dropWhile p)
  | runs p, s => some (s.takeWhile p, s.dropWhile p)

/-- A piece that is never empty. -/
def solid : Piece τ → Bool
  | word tests => !tests.isEmpty
  | run _ => true
  | runs _ => false

/-- The rest does not carry the piece on. -/
def Stops : Piece τ → List τ → Prop
  | word _, _ => True
  | run p, r | runs p, r => ∀ c ∈ r.head?, p c = false

end Piece

def scan : List (Piece τ) → List τ → Option (List (List τ) × List τ)
  | [], s => some ([], s)
  | p :: ps, s => (p.scan s).bind fun x => (scan ps x.2).map fun y => (x.1 :: y.1, y.2)

/-! ### One piece -/

section piece
variable {p : Piece τ} {q : τ → Bool} {tests : List (τ → Bool)} {s a r r' : List τ}

theorem takeWord_eq (h : takeWord tests s = some (a, r)) : s = a ++ r ∧ a.length = tests.length ∧
    ∀ r', takeWord tests (a ++ r') = some (a, r') := by
  induction tests generalizing s a with
  | nil =>
    obtain ⟨rfl, rfl⟩ : [] = a ∧ s = r := by simpa [takeWord] using h
    exact ⟨rfl, rfl, fun _ => rfl⟩
  | cons t tests ih =>
    cases s with
    | nil => cases h
    | cons c s =>
      rw [takeWord] at h
      split_ifs at h with ht
      obtain ⟨⟨a', r''⟩, ha, hx⟩ := Option.map_eq_some_iff.mp h
      obtain ⟨rfl, rfl⟩ : c :: a' = a ∧ r'' = r := by simpa using hx
      obtain ⟨rfl, hlen, hagain⟩ := ih ha
      refine ⟨rfl, by rw [List.length_cons, List.length_cons, hlen], fun r' => ?_⟩
      rw [List.cons_append, takeWord, if_pos ht, hagain, Option.map_some]

/-- A word that is not there is not there in front of another rest, as long as the text is not shorter. -/
theorem takeWord_eq_none (h : takeWord tests (a ++ r) = none) (hlen : tests.length ≤ a.length) (r' : List τ) :
    takeWord tests (a ++ r') = none := by
  induction tests generalizing a with
  | nil => cases h
  | cons t tests ih =>
    cases a with
    | nil => cases hlen
    | cons c a =>
      rw [List.cons_append, takeWord] at h ⊢
      split_ifs at h ⊢ with ht
      · rw [ih (Option.map_eq_none_iff.mp h) (Nat.le_of_succ_le_succ hlen), Option.map_none]
      · rfl

theorem takeWhile_append_of_stops (ha : ∀ c ∈ a, q c = true) (hr : ∀ c ∈ r.head?, q c = false) :
    (a ++ r).takeWhile q = a ∧ (a ++ r).dropWhile q = r := by
  rw [List.takeWhile_append_of_pos ha, List.dropWhile_append_of_pos ha]
  cases r with
  | nil => exact ⟨List.append_nil _, rfl⟩
  | cons c r =>
    have hc : ¬ q c = true := by simp [hr c (by simp)]
    rw [List.takeWhile_cons_of_neg hc, List.dropWhile_cons_of_neg hc]
    exact ⟨List.append_nil _, rfl⟩

theorem stops_dropWhile (q : τ → Bool) (s : List τ) : ∀ c ∈ (s.dropWhile q).head?, q c = false := by
  intro c hc
  induction s with
  | nil => cases hc
  | cons d s ih =>
    rw [List.dropWhile_cons] at hc
    split_ifs at hc with hd
    · exact ih hc
    · obtain rfl : d = c := by simpa using hc
      simpa using hd

theorem Piece.scan_eq (h : p.scan s = some (a, r)) : s = a ++ r := by
  cases p with
  | word tests => exact (takeWord_eq h).1
  | run q =>
    rw [Piece.scan] at h
    split_ifs at h
    obtain ⟨rfl, rfl⟩ : s.takeWhile q = a ∧ s.dropWhile q = r := by simpa using h
    exact (List.takeWhile_append_dropWhile).symm
  | runs q =>
    obtain ⟨rfl, rfl⟩ : s.takeWhile q = a ∧ s.dropWhile q = r := by simpa [Piece.scan] using h
    exact (List.takeWhile_append_dropWhile).symm

theorem Piece.stops_of_scan (h : p.scan s = some (a, r)) : p.Stops r := by
  cases p with
  | word tests => trivial
  | run q =>
    rw [Piece.scan] at h
    split_ifs at h
    obtain ⟨-, rfl⟩ : s.takeWhile q = a ∧ s.dropWhile q = r := by simpa using h
    exact stops_dropWhile q s
  | runs q =>
    obtain ⟨-, rfl⟩ : s.takeWhile q = a ∧ s.dropWhile q = r := by simpa [Piece.scan] using h
    exact stops_dropWhile q s

theorem Piece.ne_nil_of_solid (h : p.scan s = some (a, r)) (hsolid : p.solid = true) : a ≠ [] := by
  rintro rfl
  cases p with
  | word tests =>
    have hlen := (takeWord_eq h).2.1
    rw [List.length_nil, eq_comm, List.length_eq_zero_iff] at hlen
    subst hlen
    cases hsolid
  | run q =>
    rw [Piece.scan] at h
    split_ifs at h with hempty
    obtain ⟨hnil, -⟩ : s.takeWhile q = [] ∧ s.dropWhile q = r := by simpa using h
    exact hempty (by rw [hnil]; rfl)
  | runs q => cases hsolid

/-- The piece is taken again, in front of another rest that does not carry it on. -/
theorem Piece.scan_again (h : p.scan s = some (a, r)) (hr : p.Stops r') : p.scan (a ++ r') = some (a, r') := by
  cases p with
  | word tests => exact (takeWord_eq h).2.2 r'
  | run q =>
    rw [Piece.scan] at h
    split_ifs at h with hempty
    obtain ⟨rfl, -⟩ : s.takeWhile q = a ∧ s.dropWhile q = r := by simpa using h
    have hall : ∀ c ∈ s.takeWhile q, q c = true := fun _ => List.mem_takeWhile_imp
    obtain ⟨htake, hdrop⟩ := takeWhile_append_of_stops hall hr
    rw [Piece.scan, htake, hdrop, if_neg hempty]
  | runs q =>
    obtain ⟨rfl, -⟩ : s.takeWhile q = a ∧ s.dropWhile q = r := by simpa [Piece.scan] using h
    have hall : ∀ c ∈ s.takeWhile q, q c = true := fun _ => List.mem_takeWhile_imp
    obtain ⟨htake, hdrop⟩ := takeWhile_append_of_stops hall hr
    rw [Piece.scan, htake, hdrop]

theorem Piece.Stops.of_head (h : p.Stops r) (hhead : r.head? = r'.head?) : p.Stops r' := by
  cases p with
  | word tests => trivial
  | run q | runs q => exact fun c hc => h c (hhead ▸ hc)

end piece

/-- What a piece takes. -/
def Piece.Took : Piece τ → List τ → Prop
  | word tests, a => a.length = tests.length
  | run p, a => a ≠ [] ∧ ∀ c ∈ a, p c = true
  | runs p, a => ∀ c ∈ a, p c = true

theorem Piece.took_of_scan {p : Piece τ} {s a r : List τ} (h : p.scan s = some (a, r)) : p.Took a := by
  cases p with
  | word tests => exact (takeWord_eq h).2.1
  | run q =>
    refine ⟨Piece.ne_nil_of_solid h rfl, ?_⟩
    rw [Piece.scan] at h
    split_ifs at h
    obtain ⟨rfl, -⟩ : s.takeWhile q = a ∧ s.dropWhile q = r := by simpa using h
    exact fun _ => List.mem_takeWhile_imp
  | runs q =>
    obtain ⟨rfl, -⟩ : s.takeWhile q = a ∧ s.dropWhile q = r := by simpa [Piece.scan] using h
    exact fun _ => List.mem_takeWhile_imp

/-- A run is taken from in front of what does not carry it on. -/
theorem scan_run {q : τ → Bool} {a r : List τ} (ha : (Piece.run q).Took a) (hr : (Piece.run q).Stops r) :
    (Piece.run q).scan (a ++ r) = some (a, r) := by
  obtain ⟨htake, hdrop⟩ := takeWhile_append_of_stops ha.2 hr
  rw [Piece.scan, htake, hdrop, if_neg (by simpa using ha.1)]

/-! ### One piece after the other -/

section pieces
variable {p : Piece τ} {ps : List (Piece τ)} {as : List (List τ)} {s r r' : List τ}

theorem scan_cons_eq_some (h : scan (p :: ps) s = some (as, r)) : ∃ a as' t, as = a :: as' ∧
    p.scan s = some (a, t) ∧ scan ps t = some (as', r) := by
  obtain ⟨⟨a, t⟩, ha, hrest⟩ := Option.bind_eq_some_iff.mp h
  obtain ⟨⟨as', r''⟩, has, hx⟩ := Option.map_eq_some_iff.mp hrest
  obtain ⟨rfl, rfl⟩ : a :: as' = as ∧ r'' = r := by simpa using hx
  exact ⟨a, as', t, rfl, ha, has⟩

theorem scan_cons_of_some {a : List τ} {t : List τ} (ha : p.scan s = some (a, t)) (has : scan ps t = some (as, r)) :
    scan (p :: ps) s = some (a :: as, r) := by
  rw [scan, ha, Option.bind_some, has, Option.map_some]

theorem scan_eq (h : scan ps s = some (as, r)) : s = as.flatten ++ r := by
  induction ps generalizing s as with
  | nil =>
    obtain ⟨rfl, rfl⟩ : [] = as ∧ s = r := by simpa [scan] using h
    rfl
  | cons p ps ih =>
    obtain ⟨a, as', t, rfl, ha, has⟩ := scan_cons_eq_some h
    rw [Piece.scan_eq ha, ih has, List.flatten_cons, List.append_assoc]

theorem flatten_ne_nil (h : scan ps s = some (as, r)) (hps : ps ≠ []) (hsolid : ∀ p ∈ ps.getLast?, p.solid = true) :
    as.flatten ≠ [] := by
  induction ps generalizing s as with
  | nil => exact absurd rfl hps
  | cons p ps ih =>
    obtain ⟨a, as', t, rfl, ha, has⟩ := scan_cons_eq_some h
    cases ps with
    | nil =>
      have hne := Piece.ne_nil_of_solid ha (hsolid p rfl)
      simp [hne]
    | cons p' ps =>
      have hne := ih has (List.cons_ne_nil _ _) (by simpa using hsolid)
      rw [List.flatten_cons]
      exact List.append_ne_nil_of_right_ne_nil _ hne

/-- The text is taken apart again, in front of another rest that does not carry the last piece on. -/
theorem scan_again (h : scan ps s = some (as, r)) (hsolid : ∀ p ∈ ps.getLast?, p.solid = true)
    (hstops : ∀ p ∈ ps.getLast?, p.Stops r') : scan ps (as.flatten ++ r') = some (as, r') := by
  induction ps generalizing s as with
  | nil =>
    obtain ⟨rfl, rfl⟩ : [] = as ∧ s = r := by simpa [scan] using h
    rfl
  | cons p ps ih =>
    obtain ⟨a, as', t, rfl, ha, has⟩ := scan_cons_eq_some h
    rw [List.flatten_cons, List.append_assoc]
    cases ps with
    | nil =>
      obtain ⟨rfl, rfl⟩ : [] = as' ∧ t = r := by simpa [scan] using has
      exact scan_cons_of_some (Piece.scan_again ha (hstops p rfl)) rfl
    | cons p' ps =>
      have hsolid' : ∀ p ∈ (p' :: ps).getLast?, p.solid = true := by simpa using hsolid
      have hne := flatten_ne_nil has (List.cons_ne_nil _ _) hsolid'
      have hhead : t.head? = (as'.flatten ++ r').head? := by
        rw [scan_eq has, List.head?_append_of_ne_nil _ hne, List.head?_append_of_ne_nil _ hne]
      have hstop : p.Stops (as'.flatten ++ r') := (Piece.stops_of_scan ha).of_head hhead
      exact scan_cons_of_some (Piece.scan_again ha hstop) (ih has hsolid' (by simpa using hstops))

theorem took_of_scan (h : scan ps s = some (as, r)) : List.Forall₂ Piece.Took ps as := by
  induction ps generalizing s as with
  | nil =>
    obtain ⟨rfl, -⟩ : [] = as ∧ s = r := by simpa [scan] using h
    exact .nil
  | cons p ps ih =>
    obtain ⟨a, as', t, rfl, ha, has⟩ := scan_cons_eq_some h
    exact .cons (Piece.took_of_scan ha) (ih has)

/-- What a scan leaves does not carry its last piece on. -/
theorem stops_of_scan (h : scan ps s = some (as, r)) : ∀ p ∈ ps.getLast?, p.Stops r := by
  induction ps generalizing s as with
  | nil => exact fun _ hp => nomatch hp
  | cons p ps ih =>
    obtain ⟨a, as', t, rfl, ha, has⟩ := scan_cons_eq_some h
    cases ps with
    | nil =>
      obtain ⟨rfl, rfl⟩ : [] = as' ∧ t = r := by simpa [scan] using has
      rintro _ ⟨⟩
      exact Piece.stops_of_scan ha
    | cons p' ps => simpa using ih has

theorem length_lt (h : scan ps s = some (as, r)) (hps : ps ≠ []) (hsolid : ∀ p ∈ ps.getLast?, p.solid = true) :
    r.length < s.length := by
  have hpos := List.length_pos_of_ne_nil (flatten_ne_nil h hps hsolid)
  rw [scan_eq h, List.length_append]
  omega

end pieces

end Scanning
