import XChainExplorer.Hub.RowUpserts
import Mathlib.Data.Prod.Lex
import Mathlib.Order.Bounds.Basic

/-! # A match converges whatever the delivery order

    Versions of one match are ordered by effective time and, at one effective time, by whether they
    are finalized. The upsert takes a version that is not older whole, so two mirrors that were
    delivered the same versions hold the same row; the fences only rise and the first anchor stamp
    stays. -/

namespace HubDbSync

open OnDuplicate

/-- The order of the versions. -/
def versionKey (row : MirrorRow) : ℕ ×ₗ ℕ := toLex (row .effective_time, statusRank (row .status))

theorem matchWins_iff (values row : MirrorRow) :
    matchWins values row = true ↔ versionKey row ≤ versionKey values := by
  simp only [matchWins, versionKey, Prod.Lex.toLex_le_toLex, Bool.or_eq_true, Bool.and_eq_true,
    decide_eq_true_eq]
  rw [eq_comm (a := values .effective_time)]

/-- Neither a copied column nor the status shuts the gate; the effective time may. -/
theorem matchWins_copy {c : Column} (hc : c ≠ .effective_time) (values row : MirrorRow)
    (hwins : matchWins values row = true) : matchWins values (copy c values row) = true := by
  rw [matchWins_iff] at hwins ⊢
  simp only [versionKey, Prod.Lex.toLex_le_toLex, copy_apply, if_neg hc.symm] at hwins ⊢
  rcases hwins with hlt | ⟨heq, hle⟩
  · exact .inl hlt
  · refine .inr ⟨heq, ?_⟩
    split_ifs
    · exact le_rfl
    · exact hle

/-! ### One delivery -/

section delivery

variable {cols : List Column}

/-- What the statement of a match does, column by column. -/
structure MatchDelivery (cols : List Column) (values row result : MirrorRow) : Prop where
  content : ∀ c ∈ cols, c ∉ PINNED_MATCH_COLUMNS →
    result c = if matchWins values row then values c else row c
  match_id : result .match_id = row .match_id
  a_fence : .a_push_generation ∈ cols →
    result .a_push_generation = max (row .a_push_generation) (values .a_push_generation)
  b_fence : .b_push_generation ∈ cols →
    result .b_push_generation = max (row .b_push_generation) (values .b_push_generation)
  stamp : result .anchor_txid = (row .anchor_txid).or (values .anchor_txid)

/-- The gate says the same for every column of one delivery. -/
theorem assign_matchWins {G : List Column} (hG : .effective_time ∉ G) (values row : MirrorRow)
    (d : Column) :
    assign ((G ++ [Column.status, .effective_time]).map fun c => gated matchWins (copy c)) values
        row d =
      if matchWins values row = true ∧ d ∈ G ++ [Column.status, .effective_time] then values d
      else row d := by
  have hsplit : (G ++ [Column.status, .effective_time]).map (fun c => gated matchWins (copy c)) =
      ((G ++ [Column.status]).map copy ++ [copy .effective_time]).map (gated matchWins) := by
    simp
  have hcopies : (G ++ [Column.status]).map copy ++ [copy .effective_time] =
      (G ++ [Column.status, .effective_time]).map copy := by
    simp
  have hopen : ∀ set ∈ (G ++ [Column.status]).map copy, ∀ values row,
      matchWins values row = true → matchWins values (set values row) = true := by
    intro set hset values row hwins
    obtain ⟨c, hc, rfl⟩ := List.mem_map.mp hset
    refine matchWins_copy ?_ values row hwins
    rintro rfl
    simp [hG] at hc
  rw [hsplit, assign_gated_concat hopen, hcopies]
  by_cases hwins : matchWins values row = true
  · rw [if_pos hwins, assign_copy]
    simp only [hwins, true_and]
  · rw [if_neg hwins, if_neg fun h => hwins h.1]

theorem assign_raise (p : Prop) [Decidable p] (f : Column) (hf : f.Value = ℤ)
    (values row : MirrorRow) {d : Column} (hd : d ≠ f) :
    assign (if p then [raise f hf] else []) values row d = row d := by
  split_ifs
  · exact raise_of_ne hf hd values row
  · rfl

theorem matchDelivery (he : .effective_time ∈ cols) (hs : .status ∈ cols)
    (ha : .anchor_txid ∈ cols) (values row : MirrorRow) :
    MatchDelivery cols values row
      (assign (mirrorUpsertSql .cross_chain_matches cols) values row) := by
  have hmem {c : Column} (hc : c ≠ .id) : c ∈ cols.filter (· ≠ .id) ↔ c ∈ cols := by
    simp [hc]
  have hsql : mirrorUpsertSql .cross_chain_matches cols =
      crossChainMatchUpsertSql (cols.filter (· ≠ .id)) := by
    simp only [mirrorUpsertSql, hmem (show Column.anchor_txid ≠ .id by decide), ha, if_true]
  rw [hsql, crossChainMatchUpsertSql]
  simp only [hmem (show Column.effective_time ≠ .id by decide),
    hmem (show Column.status ≠ .id by decide), he, hs, and_self, if_true]
  have hG : .effective_time ∉ gatedMatchColumns (cols.filter (· ≠ .id)) := by
    simp [gatedMatchColumns]
  have hin (d : Column) : d ∈ gatedMatchColumns (cols.filter (· ≠ .id)) ++
      [Column.status, .effective_time] ↔ d ∈ cols ∧ d ∉ PINNED_MATCH_COLUMNS := by
    simp only [gatedMatchColumns, List.mem_append, List.mem_filter, decide_eq_true_eq,
      List.mem_cons, List.not_mem_nil, or_false]
    constructor
    · rintro (⟨⟨⟨hd, -⟩, hpin⟩, -⟩ | rfl | rfl)
      · exact ⟨hd, hpin⟩
      · exact ⟨hs, by decide⟩
      · exact ⟨he, by decide⟩
    · rintro ⟨hd, hpin⟩
      by_cases h1 : d = .status
      · exact .inr (.inl h1)
      by_cases h2 : d = .effective_time
      · exact .inr (.inr h2)
      · refine .inl ⟨⟨⟨hd, ?_⟩, hpin⟩, h1, h2⟩
        rintro rfl
        exact hpin (by decide)
  simp only [assign_append]
  generalize hrow : assign ((gatedMatchColumns (cols.filter (· ≠ .id)) ++
    [Column.status, .effective_time]).map fun c => gated matchWins (copy c)) values row = row'
  have hrow' (d : Column) : row' d =
      if matchWins values row = true ∧ d ∈ cols ∧ d ∉ PINNED_MATCH_COLUMNS then values d
      else row d := by
    rw [← hrow, assign_matchWins hG]
    simp only [hin]
  have hkept {d : Column} (hd : d ∈ PINNED_MATCH_COLUMNS) : row' d = row d := by
    rw [hrow', if_neg fun h => h.2.2 hd]
  simp only [assign_cons, assign_nil, hmem (show Column.a_push_generation ≠ .id by decide),
    hmem (show Column.b_push_generation ≠ .id by decide)]
  refine ⟨fun c hc hpin => ?_, ?_, fun hf => ?_, fun hf => ?_, ?_⟩
  · have hne {d : Column} (hd : d ∈ PINNED_MATCH_COLUMNS) : c ≠ d := fun h => hpin (h ▸ hd)
    rw [Function.update_of_ne (hne (by decide)), assign_raise _ _ _ _ _ (hne (by decide)),
      assign_raise _ _ _ _ _ (hne (by decide)), hrow']
    simp only [hc, hpin, not_false_eq_true, and_self, and_true]
  · rw [Function.update_of_ne (by decide), assign_raise _ _ _ _ _ (by decide),
      assign_raise _ _ _ _ _ (by decide), hkept (by decide)]
  · rw [Function.update_of_ne (by decide), assign_raise _ _ _ _ _ (by decide), if_pos hf]
    have ha' : row' .a_push_generation = row .a_push_generation := hkept (by decide)
    rw [← ha']
    exact raise_apply (f := .a_push_generation) rfl values row'
  · rw [Function.update_of_ne (by decide), if_pos hf]
    have hb : assign (if Column.a_push_generation ∈ cols then [raise .a_push_generation rfl] else [])
        values row' .b_push_generation = row .b_push_generation := by
      rw [assign_raise _ _ _ _ _ (by decide), hkept (by decide)]
    rw [← hb]
    exact raise_apply (f := .b_push_generation) rfl values _
  · rw [Function.update_self, assign_raise _ _ _ _ _ (by decide),
      assign_raise _ _ _ _ _ (by decide), hkept (by decide)]

end delivery

/-! ### Every order of delivery -/

/-- A local row after the versions of one match were delivered in turn to an empty mirror. -/
def deliverMatches (cols : List Column) (vs : List MirrorRow) : Option MirrorRow :=
  vs.foldl (applyRow .cross_chain_matches cols) none

/-- The two versions say the same in every column that belongs to a version. -/
def SameVersion (cols : List Column) (u v : MirrorRow) : Prop :=
  ∀ c ∈ cols, c ∉ PINNED_MATCH_COLUMNS → u c = v c

theorem deliverMatches_cons (cols : List Column) (v : MirrorRow) (vs : List MirrorRow) :
    deliverMatches cols (v :: vs) = some (vs.foldl
      (fun row values => assign (mirrorUpsertSql .cross_chain_matches cols) values row) v) := by
  rw [deliverMatches, List.foldl_cons]
  change vs.foldl (applyRow .cross_chain_matches cols) (some v) = _
  induction vs generalizing v with
  | nil => rfl
  | cons u vs ih => exact ih _

/-- What a mirror holds that was delivered some versions of one match. -/
structure Converged (cols : List Column) (vs : List MirrorRow) (row : MirrorRow) : Prop where
  newest : ∃ v ∈ vs, (∀ u ∈ vs, versionKey u ≤ versionKey v) ∧ SameVersion cols row v
  match_id : ∃ v ∈ vs, row .match_id = v .match_id
  a_fence : .a_push_generation ∈ cols →
    IsGreatest {g | ∃ v ∈ vs, v .a_push_generation = g} (row .a_push_generation)
  b_fence : .b_push_generation ∈ cols →
    IsGreatest {g | ∃ v ∈ vs, v .b_push_generation = g} (row .b_push_generation)
  stamp : ∀ t, row .anchor_txid = some t → ∃ v ∈ vs, v .anchor_txid = some t
  stamped : ∀ v ∈ vs, v .anchor_txid ≠ none → row .anchor_txid ≠ none

theorem converged {cols : List Column} (he : .effective_time ∈ cols) (hs : .status ∈ cols)
    (ha : .anchor_txid ∈ cols) (v : MirrorRow) (vs : List MirrorRow) :
    ∃ row, deliverMatches cols (v :: vs) = some row ∧ Converged cols (v :: vs) row := by
  refine ⟨_, deliverMatches_cons cols v vs, ?_⟩
  have hd := matchDelivery he hs ha
  generalize mirrorUpsertSql .cross_chain_matches cols = sets at hd
  -- a version is what the row says in the columns the gate decides
  let content (row : MirrorRow) (c : {c // c ∈ cols ∧ c ∉ PINNED_MATCH_COLUMNS}) := row c.1
  let key (x : (c : {c // c ∈ cols ∧ c ∉ PINNED_MATCH_COLUMNS}) → c.1.Value) : ℕ ×ₗ ℕ :=
    toLex (x ⟨.effective_time, he, by decide⟩, statusRank (x ⟨.status, hs, by decide⟩))
  have hcontent (row values : MirrorRow) : content (assign sets values row) =
      if key (content row) ≤ key (content values) then content values else content row := by
    funext c
    have hc := (hd values row).content c.1 c.2.1 c.2.2
    by_cases hwins : matchWins values row = true
    · rw [if_pos hwins] at hc
      have hle : key (content row) ≤ key (content values) := (matchWins_iff values row).mp hwins
      rw [if_pos hle]
      exact hc
    · rw [if_neg hwins] at hc
      have hle : ¬ key (content row) ≤ key (content values) :=
        fun hle => hwins ((matchWins_iff values row).mpr hle)
      rw [if_neg hle]
      exact hc
  obtain ⟨⟨u, hu, hnew⟩, hmax⟩ := foldl_newest content key hcontent v vs
  refine ⟨⟨u, hu, fun y hy => ?_, fun c hc hpin => congrFun hnew ⟨c, hc, hpin⟩⟩, ?_, fun hf => ?_,
    fun hf => ?_, ?_, ?_⟩
  · have := hmax y hy
    rw [hnew] at this
    exact this
  · exact ⟨v, by simp, foldl_frame (fun row : MirrorRow => row .match_id)
      (fun row values => (hd values row).match_id) v vs⟩
  · obtain ⟨⟨x, hx, hmem⟩, hmax⟩ := foldl_highest (fun row : MirrorRow => row .a_push_generation)
      (fun row values => (hd values row).a_fence hf) v vs
    refine ⟨⟨x, hx, hmem.symm⟩, ?_⟩
    rintro _ ⟨y, hy, rfl⟩
    exact hmax y hy
  · obtain ⟨⟨x, hx, hmem⟩, hmax⟩ := foldl_highest (fun row : MirrorRow => row .b_push_generation)
      (fun row values => (hd values row).b_fence hf) v vs
    refine ⟨⟨x, hx, hmem.symm⟩, ?_⟩
    rintro _ ⟨y, hy, rfl⟩
    exact hmax y hy
  · exact (foldl_first (fun row : MirrorRow => row .anchor_txid)
      (fun row values => (hd values row).stamp) v vs).1
  · exact (foldl_first (fun row : MirrorRow => row .anchor_txid)
      (fun row values => (hd values row).stamp) v vs).2

/-- The versions that carry an anchor stamp carry one and the same. -/
def StampsAgree (vs : List MirrorRow) : Prop := ∃ t, ∀ v ∈ vs, ∀ t' ∈ v .anchor_txid, t' = t

/-- Versions that agree on the stamp leave one value for it. -/
theorem Converged.stamp_eq {cols : List Column} {vs : List MirrorRow} {r s : MirrorRow}
    (hr : Converged cols vs r) (hs : Converged cols vs s) (hagree : StampsAgree vs) :
    r .anchor_txid = s .anchor_txid := by
  obtain ⟨t, ht⟩ := hagree
  have hor {row : MirrorRow} (h : Converged cols vs row) :
      row .anchor_txid = none ∨ row .anchor_txid = some t := by
    cases hrow : row .anchor_txid with
    | none => exact .inl rfl
    | some x =>
      obtain ⟨v, hv, hx⟩ := h.stamp x hrow
      exact .inr (by rw [ht v hv x hx])
  rcases hor hr with hr0 | hrt
  · rcases hor hs with hs0 | hst
    · rw [hr0, hs0]
    · obtain ⟨v, hv, hx⟩ := hs.stamp t hst
      exact absurd hr0 (hr.stamped v hv (by rw [hx]; simp))
  · rcases hor hs with hs0 | hst
    · obtain ⟨v, hv, hx⟩ := hr.stamp t hrt
      exact absurd hs0 (hs.stamped v hv (by rw [hx]; simp))
    · rw [hrt, hst]

/-- Two mirrors that were delivered the same versions of one match, each version any number of
    times and in any order, hold the same row: the newest version, with the fences at their maxima
    and, when the versions agree on it, the anchor stamp. -/
theorem match_converges {cols : List Column} (he : .effective_time ∈ cols) (hs : .status ∈ cols)
    (ha : .anchor_txid ∈ cols) {vs ws : List MirrorRow} (hne : vs ≠ [])
    (hsame : ∀ v, v ∈ vs ↔ v ∈ ws)
    (hmatch : ∀ u ∈ vs, ∀ v ∈ vs, u .match_id = v .match_id)
    (hdistinct : ∀ u ∈ vs, ∀ v ∈ vs, versionKey u = versionKey v → SameVersion cols u v) :
    ∃ r s, deliverMatches cols vs = some r ∧ deliverMatches cols ws = some s ∧
      (∀ c ∈ cols, c ≠ .id → (c = .anchor_txid → StampsAgree vs) → r c = s c) ∧
      Converged cols vs r ∧ Converged cols vs s := by
  obtain ⟨v, vs, rfl⟩ := List.exists_cons_of_ne_nil hne
  obtain ⟨w, ws, rfl⟩ := List.exists_cons_of_ne_nil (l := ws) fun h => by
    simpa [h] using (hsame v).mp List.mem_cons_self
  obtain ⟨r, hr, hrc⟩ := converged he hs ha v vs
  obtain ⟨s, hs', hsc⟩ := converged he hs ha w ws
  have hsc : Converged cols (v :: vs) s := by
    obtain ⟨h1, h2, h3, h4, h5, h6⟩ := hsc
    simp only [← hsame] at h1 h2 h3 h4 h5 h6
    exact ⟨h1, h2, h3, h4, h5, h6⟩
  refine ⟨r, s, hr, hs', fun c hc hid hstamp => ?_, hrc, hsc⟩
  by_cases hpin : c ∈ PINNED_MATCH_COLUMNS
  · simp only [PINNED_MATCH_COLUMNS, List.mem_cons, List.not_mem_nil, or_false] at hpin
    rcases hpin with rfl | rfl | rfl | rfl | rfl
    · exact absurd rfl hid
    · obtain ⟨x, hx, hrx⟩ := hrc.match_id
      obtain ⟨y, hy, hsy⟩ := hsc.match_id
      rw [hrx, hsy, hmatch x hx y hy]
    · exact hrc.stamp_eq hsc (hstamp rfl)
    · exact (hrc.a_fence hc).unique (hsc.a_fence hc)
    · exact (hrc.b_fence hc).unique (hsc.b_fence hc)
  · obtain ⟨x, hx, hxmax, hrx⟩ := hrc.newest
    obtain ⟨y, hy, hymax, hsy⟩ := hsc.newest
    have hkey : versionKey x = versionKey y := le_antisymm (hymax x hx) (hxmax y hy)
    rw [hrx c hc hpin, hsy c hc hpin, hdistinct x hx y hy hkey c hc hpin]

/-- A version of a match in the columns its statement reads. -/
def matchVersion (effective_time : ℕ) (status : String) (a_push_generation : ℤ)
    (anchor_txid : Option String) : MirrorRow :=
  Function.update (Function.update (Function.update (Function.update defaultRow
    .effective_time effective_time) .status status) .a_push_generation a_push_generation)
    .anchor_txid anchor_txid

def matchColumns : List Column :=
  [.match_id, .effective_time, .status, .a_push_generation, .b_push_generation, .anchor_txid]

theorem match_converges_revived : ∃ r s,
    deliverMatches matchColumns
        [matchVersion 5 "retracted" 1 none, matchVersion 7 "finalized" 2 (some "t")] = some r ∧
      deliverMatches matchColumns [matchVersion 7 "finalized" 2 (some "t"),
        matchVersion 5 "retracted" 1 none, matchVersion 7 "finalized" 2 (some "t")] = some s ∧
      ∀ c ∈ matchColumns, c ≠ .id → r c = s c := by
  have hdistinct : ∀ u ∈ [matchVersion 5 "retracted" 1 none, matchVersion 7 "finalized" 2 (some "t")],
      ∀ v ∈ [matchVersion 5 "retracted" 1 none, matchVersion 7 "finalized" 2 (some "t")],
      versionKey u = versionKey v → SameVersion matchColumns u v := by
    simp only [List.mem_cons, List.not_mem_nil, or_false, forall_eq_or_imp, forall_eq]
    refine ⟨⟨fun _ _ _ _ => rfl, fun h => absurd h (by decide)⟩,
      fun h => absurd h (by decide), fun _ _ _ _ => rfl⟩
  have hagree : StampsAgree
      [matchVersion 5 "retracted" 1 none, matchVersion 7 "finalized" 2 (some "t")] :=
    ⟨"t", by decide⟩
  have hsame : ∀ v,
      v ∈ [matchVersion 5 "retracted" 1 none, matchVersion 7 "finalized" 2 (some "t")] ↔
      v ∈ [matchVersion 7 "finalized" 2 (some "t"), matchVersion 5 "retracted" 1 none,
        matchVersion 7 "finalized" 2 (some "t")] := by
    intro v
    simp only [List.mem_cons, List.not_mem_nil, or_false]
    tauto
  obtain ⟨r, s, hr, hs, hrs, -⟩ := match_converges (by decide) (by decide) (by decide) (by simp)
    hsame (by decide) hdistinct
  exact ⟨r, s, hr, hs, fun c hc hid => hrs c hc hid fun _ => hagree⟩

end HubDbSync
