import Mathlib.Data.Finset.Powerset
import Mathlib.Data.List.Sort
import XChainExplorer.Consensus.QuorumSafety

/-! # The order of the rows

    A key that stands under several sources signs for the source of its last row, a source of several
    weights weighs what its first row says, and the rows come in no order. The verdict then turns on
    the order exactly where one such row is pivotal: exchanged for another of its key, or of its
    source, it makes a quorum of signers that was none. -/

namespace Consensus

open JsNumber Quorum

def Validator.key (v : Validator) : String := v.pubkey.toLower

/-- One verdict for every order of the rows, and for every order, spelling and repetition of the
    signers. -/
def OrderFree (snapshot : Snapshot) : Prop :=
  ∀ rows : List Validator, rows.Perm snapshot.validators → ∀ A B : List String,
    (∀ key, key ∈ A.map String.toLower ↔ key ∈ B.map String.toLower) →
      meetsStakeThreshold { snapshot with validators := rows } A = meetsStakeThreshold snapshot B

/-! ### Readings -/

/-- A row for each source and a row for each of some keys, which can be read first for their sources
    and last for their keys at once. -/
structure Reading (validators firsts lasts : List Validator) : Prop where
  first_mem : firsts ⊆ validators
  last_mem : lasts ⊆ validators
  covers : ∀ v ∈ validators, ∃ f ∈ firsts, f.namedSource = v.namedSource
  source_once : (firsts.map (·.namedSource)).Nodup
  key_once : (lasts.map Validator.key).Nodup
  /-- the rows have places that put each of the former before, each of the latter behind the others -/
  placed : ∃ place : Validator → ℕ,
    (∀ f ∈ firsts, ∀ v ∈ validators, v.namedSource = f.namedSource → v ≠ f → place f < place v) ∧
    ∀ l ∈ lasts, ∀ v ∈ validators, v.key = l.key → v ≠ l → place v < place l

/-- The sources weigh what these rows say, and the keys reach two thirds from the sources of theirs. -/
structure Accepted (firsts lasts : List Validator) : Prop where
  weighable : Weighable firsts
  heavy : Heavy (weightOf firsts) (sources firsts) (sources lasts)

/-- One row, of a key or of a source, exchanged for another makes or breaks a quorum. -/
inductive Pivotal (validators : List Validator) : Prop
  | key (r r' : Validator) (firsts others : List Validator) (same : r.key = r'.key)
      (reading : Reading validators firsts (r :: others)) (reading' : Reading validators firsts (r' :: others))
      (accepted : Accepted firsts (r :: others)) (refused : ¬ Accepted firsts (r' :: others))
  | source (r r' : Validator) (others lasts : List Validator) (same : r.namedSource = r'.namedSource)
      (reading : Reading validators (r :: others) lasts) (reading' : Reading validators (r' :: others) lasts)
      (accepted : Accepted (r :: others) lasts) (refused : ¬ Accepted (r' :: others) lasts)

/-! ### First and last rows -/

def firstRow (validators : List Validator) (src : Option String) : Option Validator :=
  validators.find? fun v => v.namedSource = src

def lastRow (validators : List Validator) (key : String) : Option Validator :=
  validators.reverse.find? fun v => v.key = key

section rows
variable {validators rows firsts lasts : List Validator} {v : Validator} {key : String} {src : Option String}

theorem firstRow_eq_some (h : firstRow rows src = some v) : v ∈ rows ∧ v.namedSource = src :=
  ⟨List.mem_of_find?_eq_some h, by simpa using List.find?_some h⟩

theorem lastRow_eq_some (h : lastRow rows key = some v) : v ∈ rows ∧ v.key = key :=
  ⟨List.mem_reverse.mp (List.mem_of_find?_eq_some h), by simpa using List.find?_some h⟩

theorem exists_firstRow (hv : v ∈ rows) : ∃ f, firstRow rows v.namedSource = some f :=
  Option.isSome_iff_exists.mp (List.find?_isSome.mpr ⟨v, hv, decide_eq_true rfl⟩)

theorem exists_lastRow_key (hv : v ∈ rows) : ∃ l, lastRow rows v.key = some l :=
  Option.isSome_iff_exists.mp (List.find?_isSome.mpr ⟨v, List.mem_reverse.mpr hv, decide_eq_true rfl⟩)

theorem firstRow_of_mem {srcs : List (Option String)} (h : v ∈ srcs.filterMap (firstRow rows)) :
    v ∈ rows ∧ firstRow rows v.namedSource = some v := by
  obtain ⟨src, -, hsrc⟩ := List.mem_filterMap.mp h
  obtain ⟨hmem, rfl⟩ := firstRow_eq_some hsrc
  exact ⟨hmem, hsrc⟩

theorem lastRow_of_mem {keys : List String} (h : v ∈ keys.filterMap (lastRow rows)) :
    v ∈ rows ∧ lastRow rows v.key = some v := by
  obtain ⟨key, -, hkey⟩ := List.mem_filterMap.mp h
  obtain ⟨hmem, rfl⟩ := lastRow_eq_some hkey
  exact ⟨hmem, hkey⟩

/-- The signers sign for the sources of their last rows. -/
theorem signed_eq_sources {A : List String} {keys : List String} (hkeys : ∀ key, key ∈ keys ↔ key ∈ A.map String.toLower) :
    signed rows A = sources (keys.filterMap (lastRow rows)) := by
  ext src
  rw [mem_signed, mem_sources]
  constructor
  · rintro ⟨key, hkey, hsrc⟩
    obtain ⟨v, hv, hnamed⟩ := Option.bind_eq_some_iff.mp hsrc
    exact ⟨v, List.mem_filterMap.mpr ⟨key, (hkeys key).mpr hkey, hv⟩, hnamed⟩
  · rintro ⟨v, hv, hnamed⟩
    obtain ⟨key, hkey, hlast⟩ := List.mem_filterMap.mp hv
    exact ⟨key, (hkeys key).mp hkey, Option.bind_eq_some_iff.mpr ⟨v, hlast, hnamed⟩⟩

/-- Rows that cover the sources once each, and are first in the order, are what the order weighs by. -/
theorem firstWeight_eq (hcovers : ∀ v ∈ rows, ∃ f ∈ firsts, f.namedSource = v.namedSource)
    (honce : (firsts.map (·.namedSource)).Nodup)
    (hfirst : ∀ f ∈ firsts, firstRow rows f.namedSource = some f) (src : String) :
    firstWeight rows src = firstWeight firsts src := by
  by_cases hsrc : src ∈ sources rows
  · obtain ⟨v, hv, hnamed⟩ := mem_sources.mp hsrc
    obtain ⟨f, hf, hfv⟩ := hcovers v hv
    rw [hnamed] at hfv
    obtain ⟨u, hu⟩ := exists_firstRow hf
    obtain ⟨hmem, hsame⟩ := firstRow_eq_some hu
    obtain rfl := List.inj_on_of_nodup_map honce hmem hf hsame
    have hrow := hfirst u hf
    rw [hfv] at hu hrow
    exact congrArg (Option.bind · _) (hrow.trans hu.symm)
  · have hnot : src ∉ sources firsts := fun hmem => by
      obtain ⟨f, hf, hnamed⟩ := mem_sources.mp hmem
      exact hsrc (mem_sources.mpr ⟨f, (firstRow_eq_some (hfirst f hf)).1, hnamed⟩)
    rw [firstWeight_eq_none_of_notMem hsrc, firstWeight_eq_none_of_notMem hnot]

theorem sources_eq (hcovers : ∀ v ∈ rows, ∃ f ∈ firsts, f.namedSource = v.namedSource) (hsub : firsts ⊆ rows) :
    sources rows = sources firsts := by
  ext src
  rw [mem_sources, mem_sources]
  constructor
  · rintro ⟨v, hv, hnamed⟩
    obtain ⟨f, hf, hfv⟩ := hcovers v hv
    exact ⟨f, hf, hfv.trans hnamed⟩
  · rintro ⟨f, hf, hnamed⟩
    exact ⟨f, hsub hf, hnamed⟩

theorem sourced_iff (hcovers : ∀ v ∈ rows, ∃ f ∈ firsts, f.namedSource = v.namedSource) (hsub : firsts ⊆ rows)
    (hweight : ∀ src, firstWeight rows src = firstWeight firsts src) : Sourced rows ↔ Sourced firsts := by
  have hsources := sources_eq hcovers hsub
  constructor
  · intro h
    exact ⟨fun f hf => h.named f (hsub hf), fun src hsrc => hweight src ▸ h.weighed src (hsources ▸ hsrc)⟩
  · intro h
    refine ⟨fun v hv => ?_, fun src hsrc => hweight src ▸ h.weighed src (hsources ▸ hsrc)⟩
    obtain ⟨f, hf, hfv⟩ := hcovers v hv
    exact hfv ▸ h.named f hf

/-- The verdict on an order of the rows, in the terms of the rows that are first and last in it. -/
theorem meetsStakeThreshold_rows {snapshot : Snapshot} {A : List String} (hsub : firsts ⊆ rows)
    (hcovers : ∀ v ∈ rows, ∃ f ∈ firsts, f.namedSource = v.namedSource)
    (honce : (firsts.map (·.namedSource)).Nodup)
    (hfirst : ∀ f ∈ firsts, firstRow rows f.namedSource = some f) (hlasts : signed rows A = sources lasts) :
    meetsStakeThreshold { snapshot with validators := rows } A = true ↔
      snapshot.truncated = false ∧ Accepted firsts lasts := by
  have hweight := firstWeight_eq hcovers honce hfirst
  have hweights : weightOf rows = weightOf firsts := funext fun src => congrArg (Option.getD · 0) (hweight src)
  have hsources := sources_eq hcovers hsub
  have hweighable : Weighable rows ↔ Weighable firsts := by
    constructor
    · rintro ⟨hsourced, hnonneg, hstaked⟩
      rw [hweights, hsources] at hnonneg hstaked
      exact ⟨(sourced_iff hcovers hsub hweight).mp hsourced, hnonneg, hstaked⟩
    · rintro ⟨hsourced, hnonneg, hstaked⟩
      rw [← hweights, ← hsources] at hnonneg hstaked
      exact ⟨(sourced_iff hcovers hsub hweight).mpr hsourced, hnonneg, hstaked⟩
  rw [meetsStakeThreshold_iff, hweighable, hweights, hsources, hlasts]
  exact and_congr_right fun _ => ⟨fun h => ⟨h.1, h.2⟩, fun h => ⟨h.weighable, h.heavy⟩⟩

end rows

/-! ### Readings are orders -/

section orders
variable {validators rows firsts lasts : List Validator} {v u : Validator} {p : Validator → Bool}

/-- The row that comes before the others of its kind is found first. -/
theorem find_of_before (before : Validator → Validator → Prop) (hsorted : rows.Pairwise fun a b => ¬ before b a)
    (hv : v ∈ rows) (hp : p v = true) (hbefore : ∀ u ∈ rows, p u = true → u ≠ v → before v u) :
    rows.find? p = some v := by
  obtain ⟨u, hu⟩ := Option.isSome_iff_exists.mp (List.find?_isSome.mpr ⟨v, hv, hp⟩)
  obtain ⟨hpu, front, back, rfl, hfront⟩ := List.find?_eq_some_iff_append.mp hu
  by_cases huv : u = v
  · rw [hu, huv]
  · have hback : v ∈ back := by
      rcases List.mem_append.mp hv with hv | hv
      · exact absurd hp (by simpa using hfront v hv)
      · exact (List.mem_cons.mp hv).resolve_left fun h => huv h.symm
    have hnot := List.rel_of_pairwise_cons (List.pairwise_append.mp hsorted).2.1 hback
    exact absurd (hbefore u (by simp) hpu huv) hnot

theorem Reading.exists_order (h : Reading validators firsts lasts) : ∃ rows : List Validator, rows.Perm validators ∧
    (∀ f ∈ firsts, firstRow rows f.namedSource = some f) ∧ ∀ l ∈ lasts, lastRow rows l.key = some l := by
  obtain ⟨place, hfirst, hlast⟩ := h.placed
  let rows := validators.insertionSort fun a b => place a ≤ place b
  have hperm : rows.Perm validators := List.perm_insertionSort _ _
  have hsorted : rows.Pairwise fun a b => place a ≤ place b := List.pairwise_insertionSort _ _
  refine ⟨rows, hperm, fun f hf => ?_, fun l hl => ?_⟩
  · refine find_of_before (fun a b => place a < place b) (hsorted.imp fun hle => not_lt.mpr hle)
      (hperm.mem_iff.mpr (h.first_mem hf)) (decide_eq_true rfl) fun u hu hp huf => ?_
    exact hfirst f hf u (hperm.mem_iff.mp hu) (of_decide_eq_true hp) huf
  · refine find_of_before (fun a b => place b < place a)
      (List.pairwise_reverse.mpr (hsorted.imp fun hle => not_lt.mpr hle))
      (List.mem_reverse.mpr (hperm.mem_iff.mpr (h.last_mem hl))) (decide_eq_true rfl) fun u hu hp hul => ?_
    exact hlast l hl u (hperm.mem_iff.mp (List.mem_reverse.mp hu)) (of_decide_eq_true hp) hul

theorem idxOf_lt_of_find (hnodup : rows.Nodup) (hfind : rows.find? p = some v) (hu : u ∈ rows) (hp : p u = true)
    (huv : u ≠ v) : rows.idxOf v < rows.idxOf u := by
  obtain ⟨-, front, back, rfl, hfront⟩ := List.find?_eq_some_iff_append.mp hfind
  have hnot : u ∉ front := fun hmem => by simpa [hp] using hfront u hmem
  have hv : v ∉ front := fun hmem => (List.nodup_append.mp hnodup).2.2 v hmem v (by simp) rfl
  rw [List.idxOf_append_of_notMem hv, List.idxOf_append_of_notMem hnot, List.idxOf_cons_self,
    List.idxOf_cons_ne _ huv.symm]
  omega

theorem idxOf_lt_of_find_reverse (hnodup : rows.Nodup) (hfind : rows.reverse.find? p = some v) (hu : u ∈ rows)
    (hp : p u = true) (huv : u ≠ v) : rows.idxOf u < rows.idxOf v := by
  obtain ⟨-, front, back, hrows, hfront⟩ := List.find?_eq_some_iff_append.mp hfind
  obtain rfl : rows = back.reverse ++ v :: front.reverse := by
    rw [← List.reverse_reverse rows, hrows]
    simp
  have hback : u ∈ back.reverse := by
    rcases List.mem_append.mp hu with hu | hu
    · exact hu
    · have hmem := (List.mem_cons.mp hu).resolve_left huv
      simpa [hp] using hfront u (List.mem_reverse.mp hmem)
  have hv : v ∉ back.reverse := fun hmem => (List.nodup_append.mp hnodup).2.2 v hmem v (by simp) rfl
  rw [List.idxOf_append_of_mem hback, List.idxOf_append_of_notMem hv, List.idxOf_cons_self, Nat.add_zero]
  exact List.idxOf_lt_length_of_mem hback

/-- The rows that were found under some names, named again. -/
theorem map_filterMap_sublist {α : Type*} {found : α → Option Validator} {name : Validator → α}
    (h : ∀ a r, found a = some r → name r = a) (names : List α) :
    ((names.filterMap found).map name).Sublist names := by
  induction names with
  | nil => exact List.Sublist.refl _
  | cons a names ih =>
    cases hfound : found a with
    | none =>
      rw [List.filterMap_cons_none hfound]
      exact ih.cons a
    | some r =>
      rw [List.filterMap_cons_some hfound, List.map_cons, h a r hfound]
      exact ih.cons_cons a

theorem reading_of_order (hperm : rows.Perm validators) (hnodup : validators.Nodup) {srcs : List (Option String)}
    (hsrcs : srcs.Nodup) (hcovers : ∀ v ∈ validators, v.namedSource ∈ srcs) {keys : List String} (hkeys : keys.Nodup) :
    Reading validators (srcs.filterMap (firstRow rows)) (keys.filterMap (lastRow rows)) := by
  have hrows := hperm.nodup_iff.mpr hnodup
  refine ⟨fun f hf => hperm.mem_iff.mp (firstRow_of_mem hf).1, fun l hl => hperm.mem_iff.mp (lastRow_of_mem hl).1,
    fun v hv => ?_, ?_, ?_, rows.idxOf, ?_, ?_⟩
  · obtain ⟨f, hf⟩ := exists_firstRow (hperm.mem_iff.mpr hv)
    exact ⟨f, List.mem_filterMap.mpr ⟨_, hcovers v hv, hf⟩, (firstRow_eq_some hf).2⟩
  · exact hsrcs.sublist (map_filterMap_sublist (fun _ _ h => (firstRow_eq_some h).2) srcs)
  · exact hkeys.sublist (map_filterMap_sublist (fun _ _ h => (lastRow_eq_some h).2) keys)
  · intro f hf v hv hsame hne
    exact idxOf_lt_of_find hrows (firstRow_of_mem hf).2 (hperm.mem_iff.mpr hv) (decide_eq_true hsame) hne
  · intro l hl v hv hsame hne
    exact idxOf_lt_of_find_reverse hrows (lastRow_of_mem hl).2 (hperm.mem_iff.mpr hv) (decide_eq_true hsame) hne

end orders

/-! ### The verdict and the order -/

section order
variable {snapshot : Snapshot} {firsts lasts : List Validator}

/-- In some order of the rows the signers of these keys are judged by this reading. -/
theorem Reading.exists_verdict (h : Reading snapshot.validators firsts lasts) :
    ∃ rows : List Validator, rows.Perm snapshot.validators ∧
      ∀ A : List String, (∀ key, key ∈ A.map String.toLower ↔ key ∈ lasts.map Validator.key) →
        (meetsStakeThreshold { snapshot with validators := rows } A = true ↔
          snapshot.truncated = false ∧ Accepted firsts lasts) := by
  obtain ⟨rows, hperm, hfirst, hlast⟩ := h.exists_order
  refine ⟨rows, hperm, fun A hA => meetsStakeThreshold_rows (fun f hf => hperm.mem_iff.mpr (h.first_mem hf))
    (fun v hv => h.covers v (hperm.mem_iff.mp hv)) h.source_once hfirst ?_⟩
  have hfound : lasts.filterMap (lastRow rows ∘ Validator.key) = lasts.map id :=
    List.filterMap_eq_map_iff_forall_eq_some.mpr fun l hl => hlast l hl
  rw [signed_eq_sources fun key => (hA key).symm, List.filterMap_map, hfound, List.map_id]

/-- Every order of the rows judges some signers by the reading it makes of them. -/
theorem meetsStakeThreshold_order {rows : List Validator} (hperm : rows.Perm snapshot.validators)
    {srcs : List (Option String)} (hsrcs : srcs.Nodup) (hcovers : ∀ v ∈ snapshot.validators, v.namedSource ∈ srcs)
    {keys A : List String} (hkeys : ∀ key, key ∈ keys ↔ key ∈ A.map String.toLower) :
    meetsStakeThreshold { snapshot with validators := rows } A = true ↔ snapshot.truncated = false ∧
      Accepted (srcs.filterMap (firstRow rows)) (keys.filterMap (lastRow rows)) := by
  refine meetsStakeThreshold_rows (fun f hf => (firstRow_of_mem hf).1) (fun v hv => ?_)
    (hsrcs.sublist (map_filterMap_sublist (fun _ _ h => (firstRow_eq_some h).2) srcs))
    (fun f hf => (firstRow_of_mem hf).2) (signed_eq_sources hkeys)
  obtain ⟨f, hf⟩ := exists_firstRow hv
  exact ⟨f, List.mem_filterMap.mpr ⟨_, hcovers v (hperm.mem_iff.mp hv), hf⟩, (firstRow_eq_some hf).2⟩

theorem not_pivotal_key {validators firsts others : List Validator} {r r' : Validator} (h : ¬ Pivotal validators)
    (same : r.key = r'.key) (reading : Reading validators firsts (r :: others))
    (reading' : Reading validators firsts (r' :: others)) :
    Accepted firsts (r :: others) ↔ Accepted firsts (r' :: others) :=
  ⟨fun haccepted => by_contra fun hrefused => h (.key r r' firsts others same reading reading' haccepted hrefused),
    fun haccepted => by_contra fun hrefused => h (.key r' r firsts others same.symm reading' reading haccepted hrefused)⟩

theorem not_pivotal_source {validators others lasts : List Validator} {r r' : Validator} (h : ¬ Pivotal validators)
    (same : r.namedSource = r'.namedSource) (reading : Reading validators (r :: others) lasts)
    (reading' : Reading validators (r' :: others) lasts) :
    Accepted (r :: others) lasts ↔ Accepted (r' :: others) lasts :=
  ⟨fun haccepted => by_contra fun hrefused => h (.source r r' others lasts same reading reading' haccepted hrefused),
    fun haccepted => by_contra fun hrefused => h (.source r' r others lasts same.symm reading' reading haccepted hrefused)⟩

section exchange
variable {rows rows' : List Validator} (hnodup : snapshot.validators.Nodup) (hpivotal : ¬ Pivotal snapshot.validators)
  (hperm : rows.Perm snapshot.validators) (hperm' : rows'.Perm snapshot.validators)
include hnodup hpivotal hperm hperm'

/-- Orders with the same first rows, and the same last rows for all keys but one. -/
theorem verdict_exchange_key (key : String) (hfirst : firstRow rows = firstRow rows')
    (hlast : ∀ k ≠ key, lastRow rows k = lastRow rows' k) (A : List String) :
    meetsStakeThreshold { snapshot with validators := rows } A =
      meetsStakeThreshold { snapshot with validators := rows' } A := by
  let srcs := (snapshot.validators.map (·.namedSource)).dedup
  have hcovers : ∀ v ∈ snapshot.validators, v.namedSource ∈ srcs := fun v hv =>
    List.mem_dedup.mpr (List.mem_map_of_mem hv)
  have hsrcs : srcs.Nodup := List.nodup_dedup _
  let keys := (A.map String.toLower).dedup
  have hkeys : ∀ k, k ∈ keys ↔ k ∈ A.map String.toLower := fun k => List.mem_dedup
  by_cases hkey : key ∈ keys ∧ ∃ v ∈ snapshot.validators, v.key = key
  · obtain ⟨hkey, v, hv, rfl⟩ := hkey
    obtain ⟨r, hr⟩ := exists_lastRow_key (hperm.mem_iff.mpr hv)
    obtain ⟨r', hr'⟩ := exists_lastRow_key (hperm'.mem_iff.mpr hv)
    let others := keys.erase v.key
    have hmem : ∀ k, k ∈ v.key :: others ↔ k ∈ A.map String.toLower := fun k =>
      ((List.perm_cons_erase hkey).mem_iff.symm).trans (hkeys k)
    have hdistinct : (v.key :: others).Nodup := (List.perm_cons_erase hkey).nodup_iff.mp (List.nodup_dedup _)
    have hsame : others.filterMap (lastRow rows') = others.filterMap (lastRow rows) :=
      List.filterMap_congr fun k hk => (hlast k fun heq => (List.nodup_cons.mp hdistinct).1 (heq ▸ hk)).symm
    have hreading := reading_of_order hperm hnodup hsrcs hcovers hdistinct
    have hreading' := reading_of_order hperm' hnodup hsrcs hcovers hdistinct
    rw [Bool.eq_iff_iff, meetsStakeThreshold_order hperm hsrcs hcovers hmem,
      meetsStakeThreshold_order hperm' hsrcs hcovers hmem]
    rw [List.filterMap_cons_some hr] at hreading ⊢
    rw [List.filterMap_cons_some hr', hsame, ← hfirst] at hreading' ⊢
    exact and_congr_right fun _ =>
      not_pivotal_key hpivotal ((lastRow_eq_some hr).2.trans (lastRow_eq_some hr').2.symm) hreading hreading'
  · have hsame : keys.filterMap (lastRow rows) = keys.filterMap (lastRow rows') := by
      refine List.filterMap_congr fun k hk => ?_
      by_cases heq : k = key
      · subst heq
        have hnone : ∀ {order : List Validator}, order.Perm snapshot.validators → lastRow order k = none := by
          intro order horder
          rw [Option.eq_none_iff_forall_ne_some]
          intro v hv
          exact hkey ⟨hk, v, horder.mem_iff.mp (lastRow_eq_some hv).1, (lastRow_eq_some hv).2⟩
        rw [hnone hperm, hnone hperm']
      · exact hlast k heq
    rw [Bool.eq_iff_iff, meetsStakeThreshold_order hperm hsrcs hcovers hkeys,
      meetsStakeThreshold_order hperm' hsrcs hcovers hkeys, hfirst, hsame]

/-- Orders with the same last rows, and the same first rows for all sources but one. -/
theorem verdict_exchange_source {v : Validator} (hv : v ∈ snapshot.validators)
    (hfirst : ∀ src ≠ v.namedSource, firstRow rows src = firstRow rows' src) (hlast : lastRow rows = lastRow rows')
    (A : List String) :
    meetsStakeThreshold { snapshot with validators := rows } A =
      meetsStakeThreshold { snapshot with validators := rows' } A := by
  let srcs := (snapshot.validators.map (·.namedSource)).dedup
  have hsrc : v.namedSource ∈ srcs := List.mem_dedup.mpr (List.mem_map_of_mem hv)
  let others := srcs.erase v.namedSource
  have hdistinct : (v.namedSource :: others).Nodup :=
    (List.perm_cons_erase hsrc).nodup_iff.mp (List.nodup_dedup _)
  have hcovers : ∀ u ∈ snapshot.validators, u.namedSource ∈ v.namedSource :: others := fun u hu =>
    (List.perm_cons_erase hsrc).mem_iff.mp (List.mem_dedup.mpr (List.mem_map_of_mem hu))
  let keys := (A.map String.toLower).dedup
  have hkeys : ∀ k, k ∈ keys ↔ k ∈ A.map String.toLower := fun k => List.mem_dedup
  obtain ⟨r, hr⟩ := exists_firstRow (hperm.mem_iff.mpr hv)
  obtain ⟨r', hr'⟩ := exists_firstRow (hperm'.mem_iff.mpr hv)
  have hsame : others.filterMap (firstRow rows') = others.filterMap (firstRow rows) :=
    List.filterMap_congr fun src hmem => (hfirst src fun heq => (List.nodup_cons.mp hdistinct).1 (heq ▸ hmem)).symm
  have hreading := reading_of_order hperm hnodup hdistinct hcovers (List.nodup_dedup _ : keys.Nodup)
  have hreading' := reading_of_order hperm' hnodup hdistinct hcovers (List.nodup_dedup _ : keys.Nodup)
  rw [Bool.eq_iff_iff, meetsStakeThreshold_order hperm hdistinct hcovers hkeys,
    meetsStakeThreshold_order hperm' hdistinct hcovers hkeys]
  rw [List.filterMap_cons_some hr] at hreading ⊢
  rw [List.filterMap_cons_some hr', hsame, ← hlast] at hreading' ⊢
  exact and_congr_right fun _ =>
    not_pivotal_source hpivotal ((firstRow_eq_some hr).2.trans (firstRow_eq_some hr').2.symm) hreading hreading'

end exchange

/-- Two neighbours are found in either order, unless both are looked for. -/
theorem find_swap {pre post : List Validator} {a b : Validator} {p : Validator → Bool} (h : ¬ (p a = true ∧ p b = true)) :
    (pre ++ a :: b :: post).find? p = (pre ++ b :: a :: post).find? p := by
  rw [List.find?_append, List.find?_append, List.find?_cons, List.find?_cons, List.find?_cons, List.find?_cons]
  cases hp : p a <;> cases hq : p b <;> simp_all

theorem firstRow_swap {pre post : List Validator} {a b : Validator} {src : Option String}
    (h : ¬ (a.namedSource = src ∧ b.namedSource = src)) :
    firstRow (pre ++ a :: b :: post) src = firstRow (pre ++ b :: a :: post) src :=
  find_swap fun hfound => h ⟨of_decide_eq_true hfound.1, of_decide_eq_true hfound.2⟩

theorem lastRow_swap {pre post : List Validator} {a b : Validator} {key : String}
    (h : ¬ (a.key = key ∧ b.key = key)) : lastRow (pre ++ a :: b :: post) key = lastRow (pre ++ b :: a :: post) key := by
  have hrev : ∀ c d : Validator, (pre ++ c :: d :: post).reverse = post.reverse ++ d :: c :: pre.reverse := by simp
  rw [lastRow, lastRow, hrev, hrev]
  exact find_swap fun hfound => h ⟨of_decide_eq_true hfound.2, of_decide_eq_true hfound.1⟩

/-- With no row pivotal, two neighbours in the order can be exchanged. -/
theorem verdict_swap (hadmitted : (snapshot.validators.map fun v => (v.key, v.source)).Nodup)
    (hnamed : ∀ v ∈ snapshot.validators, v.namedSource.isSome) (hpivotal : ¬ Pivotal snapshot.validators)
    {pre post : List Validator} {a b : Validator} (hperm : (pre ++ a :: b :: post).Perm snapshot.validators)
    (A : List String) :
    meetsStakeThreshold { snapshot with validators := pre ++ a :: b :: post } A =
      meetsStakeThreshold { snapshot with validators := pre ++ b :: a :: post } A := by
  have hperm' : (pre ++ b :: a :: post).Perm snapshot.validators :=
    ((List.Perm.swap a b post).append_left pre).trans hperm
  have hnodup : snapshot.validators.Nodup := List.Nodup.of_map _ hadmitted
  have ha : a ∈ snapshot.validators := hperm.mem_iff.mp (by simp)
  have hb : b ∈ snapshot.validators := hperm.mem_iff.mp (by simp)
  by_cases hkey : a.key = b.key
  · -- a key has one row for each source
    have hsrc : a.namedSource ≠ b.namedSource := by
      intro hsrc
      obtain ⟨src, ha'⟩ := Option.isSome_iff_exists.mp (hnamed a ha)
      have hsource := (source_of_namedSource ha').trans (source_of_namedSource (hsrc ▸ ha')).symm
      have heq := List.inj_on_of_nodup_map hadmitted ha hb (Prod.ext hkey hsource)
      have hrows := (List.nodup_append.mp (hperm.nodup_iff.mpr hnodup)).2.1
      exact (List.nodup_cons.mp hrows).1 (heq ▸ List.mem_cons_self)
    refine verdict_exchange_key hnodup hpivotal hperm hperm' a.key (funext fun src => firstRow_swap ?_)
      (fun k hk => lastRow_swap fun h => hk h.1.symm) A
    exact fun h => hsrc (h.1.trans h.2.symm)
  · refine verdict_exchange_source hnodup hpivotal hperm hperm' ha (fun src hsrc => firstRow_swap fun h => hsrc h.1.symm)
      (funext fun k => lastRow_swap fun h => hkey (h.1.trans h.2.symm)) A

theorem verdict_perm (hadmitted : (snapshot.validators.map fun v => (v.key, v.source)).Nodup)
    (hnamed : ∀ v ∈ snapshot.validators, v.namedSource.isSome) (hpivotal : ¬ Pivotal snapshot.validators)
    (A : List String) {rows rows' : List Validator} (h : rows.Perm rows') (pre : List Validator)
    (hperm : (pre ++ rows).Perm snapshot.validators) :
    meetsStakeThreshold { snapshot with validators := pre ++ rows } A =
      meetsStakeThreshold { snapshot with validators := pre ++ rows' } A := by
  induction h generalizing pre with
  | nil => rfl
  | @cons v rows rows' _ ih =>
    rw [List.append_cons pre v rows, List.append_cons pre v rows']
    exact ih (pre ++ [v]) (List.append_cons pre v rows ▸ hperm)
  | swap a b rows => exact verdict_swap hadmitted hnamed hpivotal hperm A
  | trans h _ ih ih' => exact (ih pre hperm).trans (ih' pre ((h.symm.append_left pre).trans hperm))

theorem refused_of_blank {v : Validator} (hv : v ∈ snapshot.validators) (hblank : v.namedSource = none) (A : List String) :
    meetsStakeThreshold snapshot A = false := by
  rw [← Bool.not_eq_true, meetsStakeThreshold_iff]
  rintro ⟨-, hweighable, -⟩
  have hnamed := hweighable.sourced.named v hv
  rw [hblank] at hnamed
  cases hnamed

theorem orderFree_of_not_pivotal (hadmitted : (snapshot.validators.map fun v => (v.key, v.source)).Nodup)
    (hpivotal : ¬ Pivotal snapshot.validators) : OrderFree snapshot := by
  intro rows hrows A B hAB
  by_cases hnamed : ∀ v ∈ snapshot.validators, v.namedSource.isSome
  · have hsame := verdict_perm hadmitted hnamed hpivotal A hrows [] hrows
    simp only [List.nil_append] at hsame
    have hsigned : signed snapshot.validators A = signed snapshot.validators B :=
      (signed_mono fun key => (hAB key).mp).antisymm (signed_mono fun key => (hAB key).mpr)
    rw [hsame, Bool.eq_iff_iff, meetsStakeThreshold_iff, meetsStakeThreshold_iff, ← hsigned]
  · push Not at hnamed
    obtain ⟨v, hv, hblank⟩ := hnamed
    replace hblank := Option.not_isSome_iff_eq_none.mp hblank
    rw [refused_of_blank hv hblank]
    exact @refused_of_blank { snapshot with validators := rows } v (hrows.mem_iff.mpr hv) hblank A

theorem OrderFree.verdict_eq (h : OrderFree snapshot) {rows rows' : List Validator}
    (hrows : rows.Perm snapshot.validators) (hrows' : rows'.Perm snapshot.validators) (A : List String) :
    meetsStakeThreshold { snapshot with validators := rows } A =
      meetsStakeThreshold { snapshot with validators := rows' } A :=
  (h rows hrows A A fun _ => Iff.rfl).trans (h rows' hrows' A A fun _ => Iff.rfl).symm

theorem OrderFree.not_pivotal (h : OrderFree snapshot) (htruncated : snapshot.truncated = false) :
    ¬ Pivotal snapshot.validators := by
  rintro (⟨r, r', firsts, others, hkey, hreading, hreading', haccepted, hrefused⟩ |
    ⟨r, r', others, lasts, hsrc, hreading, hreading', haccepted, hrefused⟩)
  · obtain ⟨rows, hrows, hverdict⟩ := hreading.exists_verdict
    obtain ⟨rows', hrows', hverdict'⟩ := hreading'.exists_verdict
    let A := (r :: others).map (·.pubkey)
    have hA : ∀ key, key ∈ A.map String.toLower ↔ key ∈ (r :: others).map Validator.key := by
      intro key
      rw [List.map_map]
      rfl
    have hA' : ∀ key, key ∈ A.map String.toLower ↔ key ∈ (r' :: others).map Validator.key := by
      intro key
      rw [hA, List.map_cons, List.map_cons, hkey]
    have hsame := h.verdict_eq hrows hrows' A
    rw [Bool.eq_iff_iff, hverdict A hA, hverdict' A hA'] at hsame
    exact hrefused (hsame.mp ⟨htruncated, haccepted⟩).2
  · obtain ⟨rows, hrows, hverdict⟩ := hreading.exists_verdict
    obtain ⟨rows', hrows', hverdict'⟩ := hreading'.exists_verdict
    let A := lasts.map (·.pubkey)
    have hA : ∀ key, key ∈ A.map String.toLower ↔ key ∈ lasts.map Validator.key := by
      intro key
      rw [List.map_map]
      rfl
    have hsame := h.verdict_eq hrows hrows' A
    rw [Bool.eq_iff_iff, hverdict A hA, hverdict' A hA] at hsame
    exact hrefused (hsame.mp ⟨htruncated, haccepted⟩).2

end order

/-- The verdict depends on the snapshot as a set exactly where the snapshot is truncated or no row of it is
    pivotal. -/
theorem stake_verdict_order_free {snapshot : Snapshot}
    (hadmitted : (snapshot.validators.map fun v => (v.key, v.source)).Nodup) :
    OrderFree snapshot ↔ snapshot.truncated = true ∨ ¬ Pivotal snapshot.validators := by
  constructor
  · intro h
    by_cases htruncated : snapshot.truncated = true
    · exact .inl htruncated
    · exact .inr (h.not_pivotal (Bool.not_eq_true _ ▸ htruncated))
  · rintro (htruncated | hpivotal)
    · intro rows _ A B _
      rw [meetsStakeThreshold, if_pos htruncated, meetsStakeThreshold, if_pos htruncated]
    · exact orderFree_of_not_pivotal hadmitted hpivotal

/-- A key under two small sources, next to a source that holds two thirds without them. -/
def smallSources : Snapshot where
  validators := [⟨"a", some "s", some "1"⟩, ⟨"a", some "t", some "1"⟩, ⟨"b", some "u", some "10"⟩]

def largeRow : Validator := ⟨"b", some "u", some "10"⟩

/-- Whichever source the first key signs for, the second key decides. -/
theorem accepted_smallSources {firsts lasts : List Validator} (h : Reading smallSources.validators firsts lasts) :
    Accepted firsts lasts ↔ Weighable firsts ∧ largeRow ∈ lasts := by
  let rows := smallSources.validators
  have hfirst : ∀ f ∈ firsts, firstRow rows f.namedSource = some f := fun f hf =>
    (by decide : ∀ f ∈ rows, firstRow rows f.namedSource = some f) f (h.first_mem hf)
  have hweights : weightOf rows = weightOf firsts :=
    funext fun src => congrArg (Option.getD · 0) (firstWeight_eq h.covers h.source_once hfirst src)
  have hsources : sources rows = sources firsts := sources_eq h.covers h.first_mem
  have hheavy : ∀ part ∈ (sources rows).powerset,
      (∑ src ∈ sources rows, weightOf rows src) * 2 < (∑ src ∈ part, weightOf rows src) * 3 ↔ "u" ∈ part := by
    decide +kernel
  have hpart : sources lasts ∈ (sources rows).powerset := by
    refine Finset.mem_powerset.mpr fun src hsrc => ?_
    obtain ⟨l, hl, hnamed⟩ := mem_sources.mp hsrc
    exact mem_sources.mpr ⟨l, h.last_mem hl, hnamed⟩
  have hlarge : "u" ∈ sources lasts ↔ largeRow ∈ lasts := by
    rw [mem_sources]
    constructor
    · rintro ⟨l, hl, hnamed⟩
      have hrow := (by decide : ∀ l ∈ rows, l.namedSource = some "u" → l = largeRow) l (h.last_mem hl) hnamed
      exact hrow ▸ hl
    · intro hl
      exact ⟨largeRow, hl, by decide⟩
  rw [← hlarge, ← hheavy _ hpart, hweights, hsources]
  exact ⟨fun haccepted => ⟨haccepted.weighable, haccepted.heavy⟩, fun hparts => ⟨hparts.1, hparts.2⟩⟩

theorem not_pivotal_smallSources : ¬ Pivotal smallSources.validators := by
  rintro (⟨r, r', firsts, others, hkey, hreading, hreading', haccepted, hrefused⟩ |
    ⟨r, r', others, lasts, hsrc, hreading, hreading', haccepted, hrefused⟩)
  · obtain ⟨hweighable, hlarge⟩ := (accepted_smallSources hreading).mp haccepted
    refine hrefused ((accepted_smallSources hreading').mpr ⟨hweighable, ?_⟩)
    rcases List.mem_cons.mp hlarge with rfl | hothers
    · have hrow := (by decide +kernel : ∀ v ∈ smallSources.validators, largeRow.key = v.key → v = largeRow) r'
        (hreading'.last_mem List.mem_cons_self) hkey
      exact hrow ▸ List.mem_cons_self
    · exact List.mem_cons_of_mem _ hothers
  · have hrow := (by decide : ∀ v ∈ smallSources.validators, ∀ u ∈ smallSources.validators,
      v.namedSource = u.namedSource → v = u) r (hreading.first_mem List.mem_cons_self) r'
      (hreading'.first_mem List.mem_cons_self) hsrc
    exact hrefused (hrow ▸ haccepted)

theorem stake_verdict_order_free_small : OrderFree smallSources :=
  (stake_verdict_order_free (by decide +kernel)).mpr (.inr not_pivotal_smallSources)

/-- One key under a large source and a small one, which alone are the snapshot. -/
def delegatedTwice : List Validator := [⟨"a", some "s", some "7"⟩, ⟨"a", some "t", some "3"⟩]

/-- The key finalizes alone when the row of its large source is read last. -/
theorem not_stake_verdict_order_free : ¬ ∀ snapshot : Snapshot,
    (snapshot.validators.map fun v => (v.key, v.source)).Nodup → OrderFree snapshot := by
  intro h
  have hsame := h { validators := delegatedTwice } (by decide +kernel) delegatedTwice.reverse
    (List.reverse_perm _) ["a"] ["a"] fun _ => Iff.rfl
  revert hsame
  decide +kernel

end Consensus
