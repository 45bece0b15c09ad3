import XChainExplorer.Lib.Page
import Mathlib.Data.Nat.Find

/-! # The hub a mirror follows

    The hub as a log: every commit of a row, and every height it publishes for a table and a chain.
    A snapshot page reads the rows as they stand; a height it serves carries the place of its
    publication in the log, which nothing reads. -/

namespace HubDbSync

/-- The mirrored tables. -/
inductive MirrorTable where
  | price_snapshots
  | oracle_prices
  | cross_chain_matches
  | cross_chain_calls
  | capability_snapshots
  | bridge_transfers
  | policy_snapshots
  | list_snapshots
  | remote_token_snapshots
  | state_checkpoints
  | anchor_reward_attestations
  | attestation_responses
  deriving DecidableEq

open MirrorTable

def CROSS_CHAIN_TABLES : List MirrorTable :=
  [cross_chain_matches, cross_chain_calls, capability_snapshots, bridge_transfers,
    policy_snapshots, list_snapshots]

def HUB_STATE_TABLES : List MirrorTable :=
  [state_checkpoints, anchor_reward_attestations, attestation_responses]

def HEIGHT_MIRROR_TABLES : List MirrorTable := [remote_token_snapshots]

def MIRRORED_TABLES : List MirrorTable :=
  [price_snapshots, oracle_prices, cross_chain_matches, cross_chain_calls, capability_snapshots,
    bridge_transfers, policy_snapshots, list_snapshots, remote_token_snapshots, state_checkpoints,
    anchor_reward_attestations, attestation_responses]

/-- The tables every new connection pages again from the start. -/
def REPAGE_PER_CONNECTION_TABLES : List MirrorTable :=
  [price_snapshots, oracle_prices, cross_chain_matches, cross_chain_calls, bridge_transfers]

/-- The order `drainEveryTable` drains in. -/
def drainOrder : List MirrorTable :=
  oracle_prices :: CROSS_CHAIN_TABLES ++ HUB_STATE_TABLES ++ HEIGHT_MIRROR_TABLES ++ [price_snapshots]

theorem mem_drainOrder (T : MirrorTable) : T ∈ drainOrder := by cases T <;> decide

theorem mem_MIRRORED_TABLES (T : MirrorTable) : T ∈ MIRRORED_TABLES := by cases T <;> decide

/-! ### The log -/

/-- One thing the hub did: a commit of a row under its wire id, the first one or a change in
    place, or a height published for a table and a chain. -/
inductive HubWrite (K : Type*) where
  | row (T : MirrorTable) (id : ℕ)
  | height (T : MirrorTable) (chain : K) (h : ℕ)
  deriving DecidableEq

/-- A published height, and where in the log it was first published. -/
structure Published where
  height : ℕ
  logged : ℕ
  deriving DecidableEq

/-- A `heights` object. -/
abbrev Heights (K : Type*) := MirrorTable → K → Option Published

variable {K : Type*}

/-- Write a row's newest version into a table held in id order. -/
def putRow : List (ℕ × ℕ) → ℕ → ℕ → List (ℕ × ℕ)
  | [], id, version => [(id, version)]
  | (i, w) :: rows, id, version =>
    if id < i then (id, version) :: (i, w) :: rows
    else if id = i then (id, version) :: rows
    else (i, w) :: putRow rows id version

/-- A table of the hub, in id order. The version of a row is the place of its last commit. -/
def tableRows [DecidableEq K] (T : MirrorTable) (log : List (HubWrite K)) : List (ℕ × ℕ) :=
  log.zipIdx.foldl (fun rows e => match e.1 with
    | .row U id => if U = T then putRow rows id e.2 else rows
    | .height .. => rows) []

/-- Publish a height; publishing the same one again is no news. -/
def publish [DecidableEq K] (heights : Heights K) (T : MirrorTable) (chain : K) (h logged : ℕ) :
    Heights K := fun U c =>
  if U = T ∧ c = chain then
    if (heights T chain).any fun p => p.height = h then heights T chain else some ⟨h, logged⟩
  else heights U c

/-! ### The rows of a table -/

theorem putRow_pairwise {rows : List (ℕ × ℕ)} (hs : rows.Pairwise (·.1 < ·.1)) (id version : ℕ) :
    (putRow rows id version).Pairwise (·.1 < ·.1) ∧
      ∀ e ∈ putRow rows id version, e = (id, version) ∨ e ∈ rows := by
  induction rows with
  | nil => simp [putRow]
  | cons e rows ih =>
    obtain ⟨he, hs⟩ := List.pairwise_cons.mp hs
    obtain ⟨hsort, hmem⟩ := ih hs
    unfold putRow
    split_ifs with h1 h2
    · refine ⟨List.pairwise_cons.mpr ⟨?_, List.pairwise_cons.mpr ⟨he, hs⟩⟩, ?_⟩
      · intro a ha
        rcases List.mem_cons.mp ha with rfl | ha
        · exact h1
        · exact h1.trans (he a ha)
      · intro a ha
        simpa using ha
    · refine ⟨List.pairwise_cons.mpr ⟨fun a ha => by simpa [h2] using he a ha, hs⟩, fun a ha => ?_⟩
      rcases List.mem_cons.mp ha with rfl | ha
      · exact .inl rfl
      · exact .inr (List.mem_cons_of_mem _ ha)
    · refine ⟨List.pairwise_cons.mpr ⟨fun a ha => ?_, hsort⟩, fun a ha => ?_⟩
      · rcases hmem a ha with rfl | ha
        · exact lt_of_le_of_ne (not_lt.mp h1) (Ne.symm h2)
        · exact he a ha
      · rcases List.mem_cons.mp ha with rfl | ha
        · exact .inr (by simp)
        · exact (hmem a ha).imp_right (List.mem_cons_of_mem _)

/-- After a write the row stands at its new version and every other row as before. -/
theorem mem_putRow {rows : List (ℕ × ℕ)} (hs : rows.Pairwise (·.1 < ·.1)) {id version i v : ℕ} :
    (i, v) ∈ putRow rows id version ↔ if i = id then v = version else (i, v) ∈ rows := by
  induction rows with
  | nil =>
    simp only [putRow, List.mem_singleton, Prod.mk.injEq, List.not_mem_nil]
    split_ifs with h <;> simp [h]
  | cons e rows ih =>
    obtain ⟨j, w⟩ := e
    obtain ⟨he, hs⟩ := List.pairwise_cons.mp hs
    unfold putRow
    split_ifs with h1 h2 h3 h4 h5
    · subst h2
      constructor
      · intro h
        rcases List.mem_cons.mp h with h | h
        · exact (Prod.mk.inj h).2
        · exfalso
          rcases List.mem_cons.mp h with h | h
          · exact h1.ne (Prod.mk.inj h).1
          · exact (h1.trans (he _ h)).false
      · rintro rfl
        simp
    · simp [h2]
    · subst h3 h4
      constructor
      · intro h
        rcases List.mem_cons.mp h with h | h
        · exact (Prod.mk.inj h).2
        · exact absurd (he _ h) (lt_irrefl _)
      · rintro rfl
        simp
    · subst h3
      simp only [List.mem_cons, Prod.mk.injEq, h4, false_and, false_or]
    · subst h5
      rw [List.mem_cons, ih hs, if_pos rfl]
      simp [h3]
    · rw [List.mem_cons, ih hs, if_neg h5, List.mem_cons]

variable [DecidableEq K]

theorem tableRows_concat (T : MirrorTable) (log : List (HubWrite K)) (w : HubWrite K) :
    tableRows T (log ++ [w]) = match w with
      | .row U id => if U = T then putRow (tableRows T log) id log.length else tableRows T log
      | .height .. => tableRows T log := by
  simp only [tableRows, List.zipIdx_append, List.foldl_append]
  cases w <;> simp

theorem tableRows_pairwise (T : MirrorTable) (log : List (HubWrite K)) :
    (tableRows T log).Pairwise (·.1 < ·.1) := by
  induction log using List.reverseRecOn with
  | nil => exact List.Pairwise.nil
  | append_singleton log w ih =>
    rw [tableRows_concat]
    cases w with
    | row U id =>
      simp only
      split_ifs
      · exact (putRow_pairwise ih id log.length).1
      · exact ih
    | height => exact ih

/-- A row of the table stands at the place of its last commit. -/
theorem mem_tableRows {T : MirrorTable} {log : List (HubWrite K)} {id v : ℕ} :
    (id, v) ∈ tableRows T log ↔
      log[v]? = some (.row T id) ∧ ∀ q, log[q]? = some (.row T id) → q ≤ v := by
  induction log using List.reverseRecOn with
  | nil => simp [tableRows]
  | append_singleton log w ih =>
    have hget (q : ℕ) : (log ++ [w])[q]? = some (.row T id) ↔
        log[q]? = some (.row T id) ∨ q = log.length ∧ w = .row T id := by
      rcases lt_trichotomy q log.length with hq | hq | hq
      · rw [List.getElem?_append_left hq]
        exact ⟨.inl, fun h => h.resolve_right fun h => hq.ne h.1⟩
      · subst hq
        simp
      · rw [List.getElem?_eq_none (by simp; omega), List.getElem?_eq_none (by omega)]
        simp [hq.ne']
    have hlt {q : ℕ} (hq : log[q]? = some (.row T id)) : q < log.length :=
      (List.getElem?_eq_some_iff.mp hq).1
    simp only [hget]
    rw [tableRows_concat]
    by_cases hw : w = .row T id
    · subst hw
      simp only [if_true, mem_putRow (tableRows_pairwise T log)]
      constructor
      · rintro rfl
        exact ⟨.inr ⟨rfl, trivial⟩, fun q hq => hq.elim (fun h => (hlt h).le) fun h => h.1.le⟩
      · rintro ⟨hv, hmax⟩
        have := hmax log.length (.inr ⟨rfl, trivial⟩)
        rcases hv with hv | hv
        · exact absurd (hlt hv) (by omega)
        · exact hv.1
    · simp only [hw, and_false, or_false]
      rw [← ih]
      cases w with
      | height => rfl
      | row U i =>
        simp only
        split_ifs with hU
        · subst hU
          have hne : id ≠ i := fun h => hw (by rw [h])
          rw [mem_putRow (tableRows_pairwise _ log), if_neg hne]
        · rfl

/-- A row that was committed is in the table. -/
theorem exists_mem_tableRows {T : MirrorTable} {log : List (HubWrite K)} {id q : ℕ}
    (hq : log[q]? = some (.row T id)) : ∃ v, (id, v) ∈ tableRows T log := by
  have hlt {p : ℕ} (hp : log[p]? = some (.row T id)) : p ≤ log.length :=
    (List.getElem?_eq_some_iff.mp hp).1.le
  refine ⟨Nat.findGreatest (fun p => log[p]? = some (.row T id)) log.length,
    mem_tableRows.mpr ⟨?_, fun p hp => Nat.le_findGreatest (hlt hp) hp⟩⟩
  exact Nat.findGreatest_spec (P := fun p => log[p]? = some (.row T id)) (hlt hq) hq

end HubDbSync
