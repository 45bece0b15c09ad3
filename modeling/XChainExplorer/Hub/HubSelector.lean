import XChainExplorer.Lib.Runs
import Mathlib.Data.List.Rotate
import Mathlib.Data.List.Perm.Lattice

/-! # Which hub a mirror follows

    A selector holds the candidate hubs in a random order and an index into them. A move goes to the
    next one around. A hub list read from the followed hub adds candidates behind the followed one. A
    mirror with one configured hub and no seeds is pinned to it. What `new URL` makes of an address is a
    parameter; the order drawn is one number for each position, so any source of random numbers is
    covered. -/

namespace HubSelection

open Runs

/-! ### Addresses -/

/-- `unique`: every address normalised, the first of equal ones kept. An invalid address throws. -/
def unique (normalizeUrl : String → Option String) : List String → List String → Option (List String)
  | result, [] => some result
  | result, address :: rest =>
    match normalizeUrl address with
    | none => none
    | some normalized =>
      if normalized ∈ result then unique normalizeUrl result rest
      else unique normalizeUrl (result ++ [normalized]) rest

/-- The hubs that are known without being told. -/
def DEFAULT_HOSTS : List String :=
  ["validator01.xchain.io", "validator02.xchain.io", "validator03.xchain.io", "validator04.xchain.io",
    "validator05.xchain.io"]

/-- Their addresses on a network. -/
def defaultUrls (network : String) : Option (List String) :=
  let urls := fun port : String => DEFAULT_HOSTS.map fun host => "http://" ++ host ++ ":" ++ port
  if network = "mainnet" then some (urls "10001")
  else if network = "testnet" then some (urls "10002")
  else none

/-- The items of the seed list, `default` standing for the network's own hosts. -/
def parseSeeds (normalizeUrl : String → Option String) (network : String) (items : List String) :
    Option (List String) :=
  (items.mapM fun item => if item = "default" then defaultUrls network else some [item]).bind fun addresses =>
    unique normalizeUrl [] addresses.flatten

/-! ### The drawn order -/

/-- Two entries exchanged. -/
def swap (l : List String) (i j : ℕ) : List String :=
  match l[i]?, l[j]? with
  | some a, some b => (l.set i b).set j a
  | _, _ => l

/-- Positions `i` down to 1 each change places with the one drawn for them; a draw out of its range throws. -/
def shuffleFrom (draw : ℕ → ℕ) : ℕ → List String → Option (List String)
  | 0, l => some l
  | i + 1, l => if draw (i + 1) ≤ i + 1 then shuffleFrom draw i (swap l (i + 1) (draw (i + 1))) else none

/-- The addresses in a drawn order. -/
def shuffle (addresses : List String) (draw : ℕ → ℕ) : Option (List String) :=
  shuffleFrom draw (addresses.length - 1) addresses

/-! ### The selector -/

/-- The hubs to choose from and the one that is chosen. -/
structure HubSelector where
  mirrorSource : Option String
  pinned : Bool
  candidates : List String
  /-- None stands for -1. -/
  index : Option ℕ
  deriving DecidableEq

/-- The constructor, on the parsed seeds and the normalised hub address. -/
def new (seeds : List String) (mirrorSource : Option String) (draw : ℕ → ℕ) : Option HubSelector :=
  match seeds, mirrorSource with
  | [], some source => some ⟨some source, true, [source], some 0⟩
  | seeds, source =>
    (shuffle seeds draw).map fun candidates =>
      ⟨source, false, candidates, if candidates = [] then none else some 0⟩

/-- The hub that is followed. -/
def HubSelector.current (s : HubSelector) : Option String :=
  s.index.bind (s.candidates[·]?)

/-- Does a move go anywhere? -/
def HubSelector.advances (s : HubSelector) : Bool :=
  !s.pinned && 2 ≤ s.candidates.length

/-- The next of them. -/
def HubSelector.advance (s : HubSelector) : HubSelector :=
  if s.advances then
    { s with index := some (match s.index with
        | none => 0
        | some i => (i + 1) % s.candidates.length) }
  else s

/-- The followed hub stays in front, the rest is drawn again. Only a list with a new address changes anything. -/
def HubSelector.merge (normalizeUrl : String → Option String) (s : HubSelector) (addresses : List String)
    (draw : ℕ → ℕ) : Option HubSelector :=
  (unique normalizeUrl [] addresses).bind fun incoming =>
    if s.pinned then some s
    else
      let additions := incoming.filter (· ∉ s.candidates)
      if additions = [] then some s
      else
        let followed := s.current
        let remainder := s.candidates.filter (some · ≠ followed) ++ additions
        (shuffle remainder draw).map fun remainder =>
          let candidates := followed.toList ++ remainder
          { s with candidates := candidates, index := if candidates = [] then none else some 0 }

/-! ### Facts -/

variable {normalizeUrl : String → Option String} {l l' addresses : List String} {draw : ℕ → ℕ} {s t : HubSelector}

theorem unique_spec (h : unique normalizeUrl l addresses = some l') (hl : l.Nodup) :
    l'.Nodup ∧ ∀ c, c ∈ l' ↔ c ∈ l ∨ ∃ a ∈ addresses, normalizeUrl a = some c := by
  induction addresses generalizing l with
  | nil =>
    obtain rfl : l = l' := Option.some.inj h
    exact ⟨hl, by simp⟩
  | cons a rest ih =>
    rw [unique] at h
    cases hn : normalizeUrl a with
    | none => rw [hn] at h; cases h
    | some n =>
      rw [hn] at h
      dsimp only at h
      split_ifs at h with hmem
      · obtain ⟨hnodup, hiff⟩ := ih h hl
        refine ⟨hnodup, fun c => (hiff c).trans ?_⟩
        simp only [List.mem_cons, exists_eq_or_imp, hn, Option.some.injEq]
        constructor
        · rintro (hc | hc)
          · exact Or.inl hc
          · exact Or.inr (Or.inr hc)
        · rintro (hc | rfl | hc)
          · exact Or.inl hc
          · exact Or.inl hmem
          · exact Or.inr hc
      · have hl' : (l ++ [n]).Nodup :=
          List.nodup_append.mpr ⟨hl, List.nodup_singleton n, fun x hx y hy => by
            obtain rfl := List.mem_singleton.mp hy
            exact fun heq => hmem (heq ▸ hx)⟩
        obtain ⟨hnodup, hiff⟩ := ih h hl'
        refine ⟨hnodup, fun c => (hiff c).trans ?_⟩
        simp only [List.mem_append, List.mem_cons, List.not_mem_nil, or_false, exists_eq_or_imp, hn,
          Option.some.injEq]
        constructor
        · rintro ((hc | rfl) | hc)
          · exact Or.inl hc
          · exact Or.inr (Or.inl rfl)
          · exact Or.inr (Or.inr hc)
        · rintro (hc | rfl | hc)
          · exact Or.inl (Or.inl hc)
          · exact Or.inl (Or.inr rfl)
          · exact Or.inr hc

theorem swap_perm (l : List String) (i j : ℕ) : (swap l i j).Perm l := by
  rw [swap]
  split
  · rename_i a b ha hb
    obtain ⟨hi, rfl⟩ := List.getElem?_eq_some_iff.mp ha
    obtain ⟨hj, rfl⟩ := List.getElem?_eq_some_iff.mp hb
    exact List.set_set_perm hi hj
  · exact List.Perm.refl _

theorem shuffleFrom_perm : ∀ {i : ℕ} {l l' : List String}, shuffleFrom draw i l = some l' → l'.Perm l
  | 0, l, l', h => by obtain rfl : l = l' := Option.some.inj h; rfl
  | i + 1, l, l', h => by
    rw [shuffleFrom] at h
    split_ifs at h
    exact (shuffleFrom_perm h).trans (swap_perm ..)

/-- Whatever is drawn, the order holds the same addresses. -/
theorem shuffle_perm (h : shuffle addresses draw = some l) : l.Perm addresses :=
  shuffleFrom_perm h

/-- Draws within their ranges give an order. -/
theorem shuffle_isSome (hdraw : ∀ i, draw i ≤ i) : (shuffle addresses draw).isSome = true := by
  have hfrom : ∀ (i : ℕ) (l : List String), (shuffleFrom draw i l).isSome = true := by
    intro i
    induction i with
    | zero => exact fun l => rfl
    | succ i ih => exact fun l => by rw [shuffleFrom, if_pos (hdraw _)]; exact ih _
  exact hfrom _ _

/-- The candidates are distinct, the index points at one of them, and a pinned mirror has its hub only. -/
structure HubSelector.Valid (s : HubSelector) : Prop where
  nodup : s.candidates.Nodup
  inside : ∀ i, s.index = some i → i < s.candidates.length
  unset : s.index = none → s.candidates = []
  pinned : s.pinned = true → ∃ c, s.mirrorSource = some c ∧ s.candidates = [c]

theorem valid_new {seeds : List String} {source : Option String} (hseeds : seeds.Nodup)
    (h : new seeds source draw = some s) : s.Valid := by
  have hdrawn : ∀ candidates, shuffle seeds draw = some candidates →
      (⟨source, false, candidates, if candidates = [] then none else some 0⟩ : HubSelector).Valid := by
    intro candidates hc
    refine ⟨(shuffle_perm hc).nodup_iff.mpr hseeds, fun i hi => ?_, fun hi => ?_, fun hp => by cases hp⟩
    · dsimp only at hi
      split_ifs at hi with hnil
      obtain rfl := Option.some.inj hi
      exact List.length_pos_of_ne_nil hnil
    · dsimp only at hi
      split_ifs at hi with hnil
      exact hnil
  unfold new at h
  split at h
  · obtain rfl := Option.some.inj h
    exact ⟨List.nodup_singleton _, fun i hi => by obtain rfl := Option.some.inj hi; exact Nat.one_pos,
      fun hi => (Option.some_ne_none _ hi).elim, fun _ => ⟨_, rfl, rfl⟩⟩
  · obtain ⟨candidates, hc, rfl⟩ := Option.map_eq_some_iff.mp h
    exact hdrawn candidates hc

namespace HubSelector

variable {c : String}

theorem mem_of_current (hc : s.current = some c) : c ∈ s.candidates := by
  obtain ⟨i, -, hi⟩ := Option.bind_eq_some_iff.mp hc
  exact List.mem_of_getElem? hi

/-! ### Turns -/

/-- The candidates in the order of their turns, the followed one first. -/
def turns (s : HubSelector) : List String :=
  s.candidates.rotate (s.index.getD 0)

theorem turns_perm (s : HubSelector) : s.turns.Perm s.candidates :=
  List.rotate_perm ..

theorem Valid.current_eq (h : s.Valid) : s.current = s.turns.head? := by
  cases hi : s.index with
  | none => rw [current, hi, turns, hi, h.unset hi]; rfl
  | some i =>
    have hlt := h.inside i hi
    rw [current, hi, turns, hi, Option.bind_some, Option.getD_some, List.head?_rotate hlt]

theorem advances_iff : s.advances = true ↔ s.pinned = false ∧ 2 ≤ s.candidates.length := by
  simp [advances]

@[simp] theorem advance_candidates (s : HubSelector) : s.advance.candidates = s.candidates := by
  unfold advance
  split_ifs <;> rfl

@[simp] theorem advance_pinned (s : HubSelector) : s.advance.pinned = s.pinned := by
  unfold advance
  split_ifs <;> rfl

theorem Valid.advance (h : s.Valid) : s.advance.Valid := by
  unfold HubSelector.advance
  split_ifs with hmove
  · obtain ⟨hpin, hlen⟩ := advances_iff.mp hmove
    refine ⟨h.nodup, fun i hi => ?_, fun hi => (Option.some_ne_none _ hi).elim,
      fun hp => (Bool.false_ne_true (hpin.symm.trans hp)).elim⟩
    obtain rfl := Option.some.inj hi
    dsimp only
    split
    · omega
    · exact Nat.mod_lt _ (by omega)
  · exact h

/-- A move gives the next one its turn. -/
theorem Valid.turns_advance (h : s.Valid) (hmove : s.advances = true) : s.advance.turns = s.turns.rotate 1 := by
  obtain ⟨-, hlen⟩ := advances_iff.mp hmove
  cases hi : s.index with
  | none => rw [h.unset hi] at hlen; exact absurd hlen (by decide)
  | some i =>
    rw [HubSelector.advance, if_pos hmove, turns, turns, hi, List.rotate_rotate]
    exact List.rotate_mod ..

/-! ### The hub list -/

/-- A merge that adds something keeps the followed hub in front and draws the others again. -/
theorem merge_cases {s' : HubSelector} (h : s.merge normalizeUrl addresses draw = some s') :
    ∃ incoming, unique normalizeUrl [] addresses = some incoming ∧
      ((s' = s ∧ (s.pinned = true ∨ ∀ c ∈ incoming, c ∈ s.candidates)) ∨
        (s.pinned = false ∧ incoming.filter (· ∉ s.candidates) ≠ [] ∧ ∃ drawn, drawn.Perm (s.candidates.filter (some · ≠ s.current) ++
          incoming.filter (· ∉ s.candidates)) ∧ s' = { s with
            candidates := s.current.toList ++ drawn
            index := if s.current.toList ++ drawn = [] then none else some 0 })) := by
  obtain ⟨incoming, hin, h⟩ := Option.bind_eq_some_iff.mp h
  refine ⟨incoming, hin, ?_⟩
  dsimp only at h
  split_ifs at h with hpin hadd
  · exact Or.inl ⟨(Option.some.inj h).symm, Or.inl hpin⟩
  · refine Or.inl ⟨(Option.some.inj h).symm, Or.inr fun c hc => ?_⟩
    simpa using List.filter_eq_nil_iff.mp hadd c hc
  · obtain ⟨drawn, hdrawn, rfl⟩ := Option.map_eq_some_iff.mp h
    exact Or.inr ⟨eq_false_of_ne_true hpin, hadd, drawn, shuffle_perm hdrawn, rfl⟩

variable {s' : HubSelector}

/-- The followed hub and the others are the candidates. -/
theorem mem_followed :
    c ∈ s.current.toList ∨ c ∈ s.candidates.filter (some · ≠ s.current) ↔ c ∈ s.candidates := by
  rw [List.mem_filter, Option.mem_toList, decide_eq_true_eq]
  constructor
  · rintro (hc | hc)
    · exact mem_of_current hc
    · exact hc.1
  · intro hc
    rcases eq_or_ne s.current (some c) with hcur | hcur
    · exact Or.inl hcur
    · exact Or.inr ⟨hc, Ne.symm hcur⟩

theorem Valid.merge_mem (h : s.Valid) (hm : s.merge normalizeUrl addresses draw = some s') (hpin : s.pinned = false) :
    c ∈ s'.candidates ↔ c ∈ s.candidates ∨ ∃ a ∈ addresses, normalizeUrl a = some c := by
  obtain ⟨incoming, hin, hcases⟩ := merge_cases hm
  have hincoming : c ∈ incoming ↔ ∃ a ∈ addresses, normalizeUrl a = some c := by
    simpa using (unique_spec hin List.nodup_nil).2 c
  rw [← hincoming]
  rcases hcases with ⟨rfl, hnothing⟩ | ⟨-, -, drawn, hdrawn, rfl⟩
  · refine ⟨Or.inl, fun hc => hc.elim id fun hc => ?_⟩
    rcases hnothing with hp | hknown
    · exact (Bool.false_ne_true (hpin.symm.trans hp)).elim
    · exact hknown c hc
  · dsimp only
    rw [List.mem_append, hdrawn.mem_iff, List.mem_append, ← or_assoc, mem_followed, List.mem_filter, decide_eq_true_eq]
    tauto

theorem Valid.merge (h : s.Valid) (hm : s.merge normalizeUrl addresses draw = some s') : s'.Valid := by
  obtain ⟨incoming, hin, hcases⟩ := merge_cases hm
  rcases hcases with ⟨rfl, -⟩ | ⟨hpin, -, drawn, hdrawn, rfl⟩
  · exact h
  · have hfilter : (s.candidates.filter (some · ≠ s.current) ++ incoming.filter (· ∉ s.candidates)).Nodup := by
      refine List.nodup_append.mpr ⟨h.nodup.filter _, (unique_spec hin List.nodup_nil).1.filter _, ?_⟩
      intro a ha b hb hab
      have hb : b ∉ s.candidates := of_decide_eq_true (List.mem_filter.mp hb).2
      exact hb (hab ▸ (List.mem_filter.mp ha).1)
    refine ⟨?_, fun i hi => ?_, fun hi => ?_, fun hp => (Bool.false_ne_true (hpin.symm.trans hp)).elim⟩
    · refine List.nodup_append.mpr ⟨?_, hdrawn.nodup_iff.mpr hfilter, ?_⟩
      · cases s.current with
        | none => exact List.nodup_nil
        | some c => exact List.nodup_singleton c
      · intro a ha b hb hab
        have ha : s.current = some a := by simpa using ha
        rw [hdrawn.mem_iff, List.mem_append, List.mem_filter, List.mem_filter, ← hab] at hb
        rcases hb with ⟨-, hne⟩ | ⟨-, hnew⟩
        · exact of_decide_eq_true hne ha.symm
        · exact of_decide_eq_true hnew (mem_of_current ha)
    · dsimp only at hi
      split_ifs at hi with hnil
      obtain rfl := Option.some.inj hi
      exact List.length_pos_of_ne_nil hnil
    · dsimp only at hi
      split_ifs at hi with hnil
      exact hnil

/-- A merge does not move the mirror. -/
theorem Valid.merge_current (h : s.Valid) (hm : s.merge normalizeUrl addresses draw = some s')
    (hc : s.current = some c) : s'.current = some c := by
  obtain ⟨incoming, -, hcases⟩ := merge_cases hm
  rcases hcases with ⟨rfl, -⟩ | ⟨-, -, drawn, -, rfl⟩
  · exact hc
  · rw [current, hc]
    rfl

theorem merge_pinned (hm : s.merge normalizeUrl addresses draw = some s') : s'.pinned = s.pinned := by
  obtain ⟨incoming, -, hcases⟩ := merge_cases hm
  rcases hcases with ⟨rfl, -⟩ | ⟨-, -, drawn, -, rfl⟩ <;> rfl

end HubSelector

/-! ### Runs -/

/-- A move, or a hub list with the order drawn for it. -/
inductive Event where
  | advance
  | merge (addresses : List String) (draw : ℕ → ℕ)

/-- A merge that throws changes nothing. -/
def step (normalizeUrl : String → Option String) (s : HubSelector) : Event → Option HubSelector
  | .advance => some s.advance
  | .merge addresses draw => some ((s.merge normalizeUrl addresses draw).getD s)

variable {seeds items : List String} {source : Option String} {network : String} {es : List Event}

theorem unique_isSome (l : List String) (haddresses : ∀ a ∈ addresses, (normalizeUrl a).isSome = true) :
    (unique normalizeUrl l addresses).isSome = true := by
  induction addresses generalizing l with
  | nil => rfl
  | cons a rest ih =>
    have hrest : ∀ b ∈ rest, (normalizeUrl b).isSome = true := fun b hb => haddresses b (List.mem_cons_of_mem _ hb)
    obtain ⟨n, hn⟩ := Option.isSome_iff_exists.mp (haddresses a List.mem_cons_self)
    rw [unique, hn]
    dsimp only
    split_ifs
    · exact ih l hrest
    · exact ih (l ++ [n]) hrest

theorem normal_of_unique (h : unique normalizeUrl l addresses = some l') :
    ∀ a ∈ addresses, (normalizeUrl a).isSome = true := by
  induction addresses generalizing l with
  | nil => exact fun a ha => absurd ha List.not_mem_nil
  | cons a rest ih =>
    rw [unique] at h
    cases hn : normalizeUrl a with
    | none => rw [hn] at h; cases h
    | some n =>
      rw [hn] at h
      dsimp only at h
      refine List.forall_mem_cons.mpr ⟨by rw [hn]; rfl, ?_⟩
      split_ifs at h
      · exact ih h
      · exact ih h

/-- A list of valid addresses is merged, whatever is drawn. -/
theorem HubSelector.merge_isSome (haddresses : ∀ a ∈ addresses, (normalizeUrl a).isSome = true)
    (hdraw : ∀ i, draw i ≤ i) : (s.merge normalizeUrl addresses draw).isSome = true := by
  obtain ⟨incoming, hin⟩ := Option.isSome_iff_exists.mp (unique_isSome [] haddresses)
  rw [HubSelector.merge, hin, Option.bind_some]
  dsimp only
  split_ifs
  · rfl
  · rfl
  · rw [Option.isSome_map]
    exact shuffle_isSome hdraw

/-- The addresses a run's hub lists named, those with an invalid one left out. -/
def Named (normalizeUrl : String → Option String) (es : List Event) (c : String) : Prop :=
  ∃ addresses draw, Event.merge addresses draw ∈ es ∧ (∀ a ∈ addresses, (normalizeUrl a).isSome = true) ∧
    ∃ a ∈ addresses, normalizeUrl a = some c

/-- What a run has made of a selector that started with `seeds`. -/
structure Reached (normalizeUrl : String → Option String) (seeds : List String) (s : HubSelector) (es : List Event)
    (t : HubSelector) : Prop where
  valid : t.Valid
  pinned : t.pinned = s.pinned
  still : t.pinned = true → t = s
  known : t.pinned = false → ∀ c, c ∈ t.candidates ↔ c ∈ seeds ∨ Named normalizeUrl es c

/-- What a run keeps of a selector that started with `seeds`. -/
structure Follows (normalizeUrl : String → Option String) (seeds : List String) (s : HubSelector) (es : List Event)
    (t : HubSelector) : Prop extends Reached normalizeUrl seeds s es t where
  /-- between any two moments without a move the followed hub is the same -/
  kept : ∀ before quiet after, es = before ++ quiet ++ after → Event.advance ∉ quiet →
    ∀ u v, run (step normalizeUrl) s before = some u → run (step normalizeUrl) u quiet = some v →
      ∀ c, u.current = some c → v.current = some c

theorem named_append {e : Event} {c : String} :
    Named normalizeUrl (es ++ [e]) c ↔ Named normalizeUrl es c ∨ Named normalizeUrl [e] c := by
  constructor
  · rintro ⟨addresses, draw, hmem, hrest⟩
    rcases List.mem_append.mp hmem with hmem | hmem
    · exact Or.inl ⟨addresses, draw, hmem, hrest⟩
    · exact Or.inr ⟨addresses, draw, hmem, hrest⟩
  · rintro (⟨addresses, draw, hmem, hrest⟩ | ⟨addresses, draw, hmem, hrest⟩)
    · exact ⟨addresses, draw, List.mem_append_left _ hmem, hrest⟩
    · exact ⟨addresses, draw, List.mem_append_right _ hmem, hrest⟩

theorem HubSelector.advance_of_pinned (h : s.pinned = true) : s.advance = s := by
  have hno : ¬s.advances = true := fun hmove => Bool.false_ne_true ((advances_iff.mp hmove).1.symm.trans h)
  rw [HubSelector.advance, if_neg hno]

theorem Reached.advance (h : Reached normalizeUrl seeds s es t) :
    Reached normalizeUrl seeds s (es ++ [.advance]) t.advance where
  valid := h.valid.advance
  pinned := (t.advance_pinned).trans h.pinned
  still hp := by
    rw [HubSelector.advance_pinned] at hp
    rw [HubSelector.advance_of_pinned hp, h.still hp]
  known hp c := by
    have hno : ¬Named normalizeUrl [.advance] c := fun ⟨_, _, hmem, _⟩ => by cases List.mem_singleton.mp hmem
    rw [HubSelector.advance_pinned] at hp
    rw [HubSelector.advance_candidates, h.known hp, named_append, or_iff_left hno]

theorem Reached.merge (h : Reached normalizeUrl seeds s es t) (hdraw : ∀ i, draw i ≤ i) :
    Reached normalizeUrl seeds s (es ++ [.merge addresses draw]) ((t.merge normalizeUrl addresses draw).getD t) := by
  cases hm : t.merge normalizeUrl addresses draw with
  | none =>
    -- an address of the list is invalid, so it names nothing
    rw [Option.getD_none]
    refine ⟨h.valid, h.pinned, h.still, fun hp c => ?_⟩
    have hno : ¬Named normalizeUrl [.merge addresses draw] c := by
      rintro ⟨addresses', draw', hmem, hvalid, -⟩
      obtain ⟨rfl, rfl⟩ : addresses' = addresses ∧ draw' = draw := by simpa using hmem
      have hsome := HubSelector.merge_isSome (s := t) hvalid hdraw
      rw [hm] at hsome
      cases hsome
    rw [h.known hp, named_append, or_iff_left hno]
  | some t' =>
    rw [Option.getD_some]
    obtain ⟨incoming, hin, hcases⟩ := HubSelector.merge_cases hm
    refine ⟨h.valid.merge hm, (HubSelector.merge_pinned hm).trans h.pinned, fun hp => ?_, fun hp c => ?_⟩
    · rcases hcases with ⟨rfl, -⟩ | ⟨hpin, -⟩
      · exact h.still hp
      · rw [HubSelector.merge_pinned hm, hpin] at hp
        cases hp
    · rw [HubSelector.merge_pinned hm] at hp
      have hnamed : Named normalizeUrl [.merge addresses draw] c ↔ ∃ a ∈ addresses, normalizeUrl a = some c := by
        constructor
        · rintro ⟨addresses', draw', hmem, -, ha⟩
          obtain ⟨rfl, rfl⟩ : addresses' = addresses ∧ draw' = draw := by simpa using hmem
          exact ha
        · exact fun ha => ⟨addresses, draw, List.mem_cons_self, normal_of_unique hin, ha⟩
      rw [h.valid.merge_mem hm hp, h.known hp, named_append, hnamed, or_assoc]

theorem reached_run (hparse : parseSeeds normalizeUrl network items = some seeds)
    (hnew : new seeds source draw = some s)
    (hdraws : ∀ addresses draw, Event.merge addresses draw ∈ es → ∀ i, draw i ≤ i)
    (hrun : run (step normalizeUrl) s es = some t) : Reached normalizeUrl seeds s es t := by
  have hseeds : seeds.Nodup := by
    obtain ⟨addresses, -, hunique⟩ := Option.bind_eq_some_iff.mp hparse
    exact (unique_spec hunique List.nodup_nil).1
  have hstart : Reached normalizeUrl seeds s [] s := by
    refine ⟨valid_new hseeds hnew, rfl, fun _ => rfl, fun hp c => ?_⟩
    have hno : ¬Named normalizeUrl [] c := fun ⟨_, _, hmem, _⟩ => List.not_mem_nil hmem
    rw [or_iff_left hno]
    unfold new at hnew
    split at hnew
    · obtain rfl := Option.some.inj hnew
      cases hp
    · obtain ⟨candidates, hc, rfl⟩ := Option.map_eq_some_iff.mp hnew
      exact (shuffle_perm hc).mem_iff
  induction es using List.reverseRecOn generalizing t with
  | nil => obtain rfl := Option.some.inj hrun; exact hstart
  | append_singleton es e ih =>
    obtain ⟨u, hu, hlast⟩ := run_append.mp hrun
    obtain ⟨v, hv, hnil⟩ := run_cons.mp hlast
    obtain rfl := Option.some.inj hnil
    have hreached := ih (fun a d hmem => hdraws a d (List.mem_append_left _ hmem)) hu
    cases e with
    | advance => obtain rfl := Option.some.inj hv; exact hreached.advance
    | merge addresses draw =>
      obtain rfl := Option.some.inj hv
      exact hreached.merge (hdraws addresses draw (List.mem_append_right _ List.mem_cons_self))

/-- Hub lists alone keep the followed hub. -/
theorem HubSelector.Valid.current_run {quiet : List Event} {c : String} (h : s.Valid) (hno : Event.advance ∉ quiet)
    (hrun : run (step normalizeUrl) s quiet = some t) (hc : s.current = some c) : t.current = some c := by
  induction quiet generalizing s with
  | nil =>
    obtain rfl := Option.some.inj hrun
    exact hc
  | cons e quiet ih =>
    obtain ⟨u, hu, hrest⟩ := run_cons.mp hrun
    have hquiet : Event.advance ∉ quiet := fun hmem => hno (List.mem_cons_of_mem _ hmem)
    cases e with
    | advance => exact absurd List.mem_cons_self hno
    | merge addresses draw =>
      obtain rfl := Option.some.inj hu
      cases hm : s.merge normalizeUrl addresses draw with
      | none =>
        rw [hm, Option.getD_none] at hrest
        exact ih h hquiet hrest hc
      | some u =>
        rw [hm, Option.getD_some] at hrest
        exact ih (h.merge hm) hquiet hrest (h.merge_current hm hc)

/-- Over every run of moves and hub lists: the candidates are distinct and are the seeds and the listed hubs,
    no more and no fewer; whoever is followed is one of them; only a move changes who is followed; a pinned
    mirror never changes. -/
theorem selector_run (hparse : parseSeeds normalizeUrl network items = some seeds)
    (hnew : new seeds source draw = some s)
    (hdraws : ∀ addresses draw, Event.merge addresses draw ∈ es → ∀ i, draw i ≤ i)
    (hrun : run (step normalizeUrl) s es = some t) : Follows normalizeUrl seeds s es t where
  toReached := reached_run hparse hnew hdraws hrun
  kept before quiet after hes hno u v hu hv c hc := by
    have hbefore : ∀ addresses draw, Event.merge addresses draw ∈ before → ∀ i, draw i ≤ i := fun a d hmem =>
      hdraws a d (by simp [hes, hmem])
    exact (reached_run hparse hnew hbefore hu).valid.current_run hno hv hc

theorem selector_run_seeds : parseSeeds some "mainnet" ["a", "b", "a"] = some ["a", "b"] ∧
    Follows some ["a", "b"] ⟨none, false, ["b", "a"], some 0⟩
      [.advance, .merge ["c", "b"] (fun _ => 0), .advance] ⟨none, false, ["a", "c", "b"], some 1⟩ :=
  have hnew : new ["a", "b"] none (fun _ => 0) = some ⟨none, false, ["b", "a"], some 0⟩ := by decide
  ⟨by decide, selector_run (by decide : parseSeeds some "mainnet" ["a", "b", "a"] = some ["a", "b"]) hnew (by simp)
    (by decide)⟩

end HubSelection
