import XChainExplorer.Lib.Runs
import Mathlib.Data.List.Basic

/-! # The chain identity fence

    Which Bitcoin chain the mirrored cross-chain rows must belong to: how the expectation is learned and
    moved, the purge that follows, and the test every applied row passes first. The test and the write of a
    row are apart, a purge waits for each of its deletes, and any number of both may be under way. -/

namespace ChainIdentity
open Runs

/-- `CHAIN_ID_FENCED_TABLES`. -/
inductive Table where
  | cross_chain_matches
  | cross_chain_calls
  | capability_snapshots
  | bridge_transfers
  | policy_snapshots
  | list_snapshots
  | remote_token_snapshots
  deriving DecidableEq

/-- The tables of what crosses chains. -/
def CROSS_CHAIN_TABLES : List Table :=
  [.cross_chain_matches, .cross_chain_calls, .capability_snapshots, .bridge_transfers, .policy_snapshots, .list_snapshots]

/-- The tables whose rows carry the id of their chain. -/
def CHAIN_ID_FENCED_TABLES : List Table := CROSS_CHAIN_TABLES ++ [.remote_token_snapshots]

/-- The tables whose rows do not name a chain. -/
inductive LegacyTable where
  | state_checkpoints
  | anchor_reward_attestations
  deriving DecidableEq

/-- The tables whose rows do not. -/
def LEGACY_TABLES : List LegacyTable := [.state_checkpoints, .anchor_reward_attestations]

/-- `'local'` (this node's own chain) and `'hub'`. -/
inductive Source where
  | localChain
  | hub
  deriving DecidableEq

variable (χ κ : Type)

/-- A mirrored row: its content key, and the chain it names. -/
structure Row where
  key : κ
  btc_chain_id : Option χ
  deriving DecidableEq

/-- A purge waits for the delete of its first table; `answer` is what that delete reported, once the database
    ran it. -/
inductive Stage where
  | scoped (tables : List Table) (answer : Option Bool)
  | legacy (tables : List LegacyTable) (answer : Option Bool) (failed : Bool)
  | done
  deriving DecidableEq

/-- A purge under way. -/
structure Purge where
  expected : χ
  stage : Stage
  deriving DecidableEq

/-- What a delete does: it may throw, or delete and report nothing. -/
inductive Outcome where
  | ok
  | failed
  | unreported
  deriving DecidableEq

/-- `applying` are the rows past the test and not yet written, `probing` the ids the hub is asked about. A row
    of a legacy table is the number of moves before it was written. Nothing reads `moves`, `measured` (the
    last local id) and `purged` (the ids of the rows deleted). -/
structure World where
  expectedBtcChainId : Option χ := none
  btcChainIdSource : Option Source := none
  chainIdPurgePending : Bool := false
  chainIdPurgeLegacyDue : Bool := false
  chainIdProbedIds : List χ := []
  rows : Table → List (Row χ κ)
  legacy : LegacyTable → List ℕ := fun _ => []
  purges : List (Purge χ) := []
  applying : List (Table × Row χ κ) := []
  probing : List χ := []
  moves : ℕ := 0
  measured : Option χ := none
  purged : List (Option χ) := []

/-- What can happen to the mirror. -/
inductive Label where
  /-- No id where it is null or malformed. -/
  | setExpectedBtcChainId (id : Option χ) (source : Source)
  | delete (purge : ℕ) (outcome : Outcome)
  | resume (purge : ℕ)
  | applyRow (table : Table) (row : Row χ κ)
  /-- The write, which may fail, or be withheld by a later test. -/
  | write (table : Table) (row : Row χ κ) (lands : Bool) (overwrites : Bool)
  | maybeAdoptHubChainId (row : Row χ κ)
  | advertise (id : χ) (advertised : Option χ)
  | writeLegacy (table : LegacyTable)
  deriving DecidableEq

variable {χ κ} [DecidableEq χ] [DecidableEq κ]

namespace World

/-- The start of `purgeForeignChainIdRows`, up to its first await. -/
def purgeForeignChainIdRows (w : World χ κ) (expected : χ) (previous : Option χ) : World χ κ :=
  { w with
    chainIdPurgePending := false
    chainIdPurgeLegacyDue := w.chainIdPurgeLegacyDue || previous.isSome
    moves := if previous.isSome then w.moves + 1 else w.moves
    purges := w.purges ++ [⟨expected, .scoped CHAIN_ID_FENCED_TABLES none⟩] }

/-- Up to its first await. -/
def setExpectedBtcChainId (w : World χ κ) (id : Option χ) (source : Source) : World χ κ :=
  match id with
  | none => w
  | some next =>
    if source = .hub ∧ w.btcChainIdSource = some .localChain then w
    else
      let w' : World χ κ := { w with
        btcChainIdSource := some source
        measured := if source = .localChain then some next else w.measured }
      if w.expectedBtcChainId = some next then
        if w.chainIdPurgePending then w'.purgeForeignChainIdRows next none else w'
      else
        purgeForeignChainIdRows { w' with expectedBtcChainId := some next, chainIdProbedIds := [] } next
          w.expectedBtcChainId

/-- The expectation moves. -/
def movesTo (w : World χ κ) (id : Option χ) (source : Source) : Bool :=
  id.isSome && !(decide (source = .hub) && decide (w.btcChainIdSource = some .localChain)) &&
    decide (w.expectedBtcChainId ≠ id)

/-- A row of another chain than the expected one. -/
def refuseForeignChainRow (w : World χ κ) (row : Row χ κ) : Bool :=
  match w.expectedBtcChainId, row.btc_chain_id with
  | some expected, some rowChainId => rowChainId ≠ expected
  | _, _ => false

/-- The id a live row makes the mirror ask the hub about. -/
def asksAbout (w : World χ κ) (row : Row χ κ) : Option χ :=
  match w.expectedBtcChainId, row.btc_chain_id with
  | some expected, some rowChainId =>
    if rowChainId ≠ expected ∧ w.btcChainIdSource = some .hub ∧ rowChainId ∉ w.chainIdProbedIds then some rowChainId
    else none
  | _, _ => none

/-- A purge at another stage. -/
def setPurge (w : World χ κ) (i : ℕ) (p : Purge χ) (stage : Stage) : World χ κ :=
  { w with purges := w.purges.set i { p with stage := stage } }

/-- The database runs the delete a purge waits for. -/
def delete (w : World χ κ) (i : ℕ) (p : Purge χ) (outcome : Outcome) : Option (World χ κ) :=
  match p.stage with
  | .scoped (t :: ts) none =>
    let w' := w.setPurge i p (.scoped (t :: ts) (some (outcome = .ok)))
    let foreign : Row χ κ → Bool := fun r => r.btc_chain_id ≠ none && r.btc_chain_id ≠ some p.expected
    if outcome = .failed then some w' else some { w' with
      rows := Function.update w.rows t ((w.rows t).filter fun r => !foreign r)
      purged := w.purged ++ ((w.rows t).filter foreign).map (·.btc_chain_id) }
  | .legacy (t :: ts) none failed =>
    let w' := w.setPurge i p (.legacy (t :: ts) (some (outcome = .ok)) failed)
    if outcome = .failed then some w' else some { w' with legacy := Function.update w.legacy t [] }
  | _ => none

/-- The code after a delete. -/
def resume (w : World χ κ) (i : ℕ) (p : Purge χ) : Option (World χ κ) :=
  match p.stage with
  | .scoped (_ :: ts) (some reported) =>
    let w' : World χ κ := { w with chainIdPurgePending := w.chainIdPurgePending || !reported }
    some (w'.setPurge i p (match ts with
      | [] => if w.chainIdPurgeLegacyDue then .legacy LEGACY_TABLES none false else .done
      | ts => .scoped ts none))
  | .legacy (_ :: ts) (some reported) failed =>
    let failed := failed || !reported
    match ts with
    | [] => some ({ w with
        chainIdPurgePending := w.chainIdPurgePending || failed
        chainIdPurgeLegacyDue := w.chainIdPurgeLegacyDue && failed } |>.setPurge i p .done)
    | ts => some (w.setPurge i p (.legacy ts none failed))
  | _ => none

end World

/-- An `INSERT` on the content key, which overwrites or leaves what is there. -/
def store (rows : List (Row χ κ)) (row : Row χ κ) (overwrites : Bool) : List (Row χ κ) :=
  if rows.any (·.key = row.key) then
    if overwrites then rows.map fun r => if r.key = row.key then row else r else rows
  else rows ++ [row]

/-- A step, if it can be taken. -/
def step (w : World χ κ) : Label χ κ → Option (World χ κ)
  | .setExpectedBtcChainId id source => some (w.setExpectedBtcChainId id source)
  | .delete i outcome => w.purges[i]?.bind (w.delete i · outcome)
  | .resume i => w.purges[i]?.bind (w.resume i)
  | .applyRow table row =>
    if w.refuseForeignChainRow row then none else some { w with applying := (table, row) :: w.applying }
  | .write table row lands overwrites =>
    if (table, row) ∈ w.applying then
      some { w with
        applying := w.applying.erase (table, row)
        rows := if lands then Function.update w.rows table (store (w.rows table) row overwrites) else w.rows }
    else none
  | .maybeAdoptHubChainId row => (w.asksAbout row).map fun id =>
      { w with chainIdProbedIds := id :: w.chainIdProbedIds, probing := id :: w.probing }
  | .advertise id advertised =>
    if id ∈ w.probing then
      let w' : World χ κ := { w with probing := w.probing.erase id }
      some (if advertised = some id then w'.setExpectedBtcChainId advertised .hub else w')
    else none
  | .writeLegacy table => some { w with legacy := Function.update w.legacy table (w.moves :: w.legacy table) }

/-! ### What the fence promises -/

/-- The row names no other chain. -/
def Row.Of (c : χ) (r : Row χ κ) : Prop := ∀ c', r.btc_chain_id = some c' → c' = c

/-- What the fence promises of a world at rest. -/
structure Fenced (w : World χ κ) : Prop where
  clean : ∀ c, w.expectedBtcChainId = some c → w.chainIdPurgePending = false →
    (∀ p ∈ w.purges, p.stage = .done) → w.applying = [] → ∀ t, ∀ r ∈ w.rows t, r.Of c
  measured : ∀ c, w.measured = some c → w.expectedBtcChainId = some c ∧ w.btcChainIdSource = some .localChain
  nulls : none ∉ w.purged
  owed : w.chainIdPurgeLegacyDue = false → ∀ t, ∀ m ∈ w.legacy t, m = w.moves

/-- The tables a purge has yet to clear of other chains' rows. -/
def Purge.covers (p : Purge χ) : List Table :=
  match p.stage with
  | .scoped tables (some true) => tables.tail
  | .scoped tables _ => tables
  | _ => []

/-- The legacy tables a purge has cleared, while none of its deletes has failed. -/
def Purge.cleared (p : Purge χ) : List LegacyTable :=
  match p.stage with
  | .legacy tables (some true) false => LEGACY_TABLES.filter (· ∉ tables.tail)
  | .legacy tables _ false => LEGACY_TABLES.filter (· ∉ tables)
  | _ => []

/-- The expectation moves to `id` only where every row past the test can stay, and no purge is between its
    deletes of the legacy tables. -/
def allows (w : World χ κ) (id : Option χ) (source : Source) : Bool :=
  !w.movesTo id source || (w.applying.all fun x => x.2.btc_chain_id = none || x.2.btc_chain_id = id) &&
    w.purges.all (·.cleared = [])

/-- The expected id moves at this step only where it may. -/
def settled (w : World χ κ) : Label χ κ → Bool
  | .setExpectedBtcChainId id source => allows w id source
  | .advertise id advertised => advertised ≠ some id || allows w advertised .hub
  | _ => true

variable {w w' : World χ κ} {e : Label χ κ} {c : χ} {i : ℕ} {p : Purge χ} {r row : Row χ κ} {t : Table}

/-- What holds of every reachable world. -/
structure Inv (w : World χ κ) : Prop where
  applying : ∀ c, w.expectedBtcChainId = some c → ∀ x ∈ w.applying, x.2.Of c
  rows : ∀ c, w.expectedBtcChainId = some c → w.chainIdPurgePending = true ∨
    ∀ t, (∀ r ∈ w.rows t, r.Of c) ∨ ∃ p ∈ w.purges, p.expected = c ∧ t ∈ p.covers
  measured : ∀ c, w.measured = some c → w.expectedBtcChainId = some c ∧ w.btcChainIdSource = some .localChain
  nulls : none ∉ w.purged
  owed : w.chainIdPurgeLegacyDue = false → ∀ t, ∀ m ∈ w.legacy t, m = w.moves
  cleared : ∀ p ∈ w.purges, ∀ t ∈ p.cleared, ∀ m ∈ w.legacy t, m = w.moves

theorem mem_fenced (t : Table) : t ∈ CHAIN_ID_FENCED_TABLES := by cases t <;> decide

theorem mem_legacy (t : LegacyTable) : t ∈ LEGACY_TABLES := by cases t <;> decide

omit [DecidableEq χ] in
theorem mem_store {rows : List (Row χ κ)} {overwrites : Bool} (h : r ∈ store rows row overwrites) : r ∈ rows ∨ r = row := by
  rw [store] at h
  split_ifs at h
  · obtain ⟨q, hq, rfl⟩ := List.mem_map.mp h
    split_ifs
    · exact Or.inr rfl
    · exact Or.inl hq
  · exact Or.inl h
  · exact (List.mem_append.mp h).imp_right List.mem_singleton.mp

namespace Inv

omit [DecidableEq χ] [DecidableEq κ] in
theorem fenced (h : Inv w) : Fenced w where
  clean c hc hpending hdone _ t r hr := by
    rcases h.rows c hc with hp | hrows
    · rw [hpending] at hp
      cases hp
    rcases hrows t with hclean | ⟨p, hp, -, ht⟩
    · exact hclean r hr
    · rw [Purge.covers, hdone p hp] at ht
      cases ht
  measured := h.measured
  nulls := h.nulls
  owed := h.owed

omit [DecidableEq χ] [DecidableEq κ] in
/-- A purge starts, for an expectation that is in place; where it follows a move, the legacy slice is owed. -/
theorem start {previous : Option χ} (hexpected : w.expectedBtcChainId = some c)
    (happlying : ∀ x ∈ w.applying, x.2.Of c)
    (hmeasured : ∀ c, w.measured = some c → w.expectedBtcChainId = some c ∧ w.btcChainIdSource = some .localChain)
    (hnulls : none ∉ w.purged) (howed : w.chainIdPurgeLegacyDue = false → ∀ t, ∀ m ∈ w.legacy t, m = w.moves)
    (hcleared : ∀ p ∈ w.purges, ∀ t ∈ p.cleared, ∀ m ∈ w.legacy t, m = w.moves)
    (hmoves : previous.isSome = true → ∀ p ∈ w.purges, p.cleared = []) :
    Inv (w.purgeForeignChainIdRows c previous) where
  applying c' hc' := by
    obtain rfl := Option.some.inj (hexpected.symm.trans hc')
    exact happlying
  rows c' hc' := by
    obtain rfl := Option.some.inj (hexpected.symm.trans hc')
    exact Or.inr fun t => Or.inr ⟨_, List.mem_append_right _ List.mem_cons_self, rfl, mem_fenced t⟩
  measured := hmeasured
  nulls := hnulls
  owed hdue t m hm := by
    obtain ⟨hdue, hprevious⟩ := Bool.or_eq_false_iff.mp hdue
    rw [World.purgeForeignChainIdRows, hprevious]
    exact howed hdue t m hm
  cleared p hp t ht m hm := by
    rcases List.mem_append.mp hp with hp | hp
    · cases hprevious : previous.isSome with
      | true =>
        rw [hmoves hprevious p hp] at ht
        cases ht
      | false =>
        rw [World.purgeForeignChainIdRows, hprevious]
        exact hcleared p hp t ht m hm
    · obtain rfl := List.mem_singleton.mp hp
      cases ht

omit [DecidableEq κ] in
theorem set {id : Option χ} {source : Source} (h : Inv w) (hallows : allows w id source = true) :
    Inv (w.setExpectedBtcChainId id source) := by
  cases id with
  | none => exact h
  | some next =>
    rw [World.setExpectedBtcChainId]
    dsimp only
    generalize hm : (if source = .localChain then some next else w.measured) = m
    split_ifs with houtranked hsame hpending
    · exact h
    all_goals
      have hmeasured : ∀ c, m = some c → some next = some c ∧ some source = some Source.localChain := by
        rintro c rfl
        cases source with
        | localChain => exact ⟨hm, rfl⟩
        | hub => exact absurd ⟨rfl, (h.measured c hm).2⟩ houtranked
    · -- the id is stated again, and a delete failed before
      refine start hsame (h.applying next hsame) (fun c hc => ?_) h.nulls h.owed h.cleared fun hno => by cases hno
      exact ⟨hsame.trans (hmeasured c hc).1, (hmeasured c hc).2⟩
    · refine ⟨h.applying, h.rows, fun c hc => ?_, h.nulls, h.owed, h.cleared⟩
      exact ⟨hsame.trans (hmeasured c hc).1, (hmeasured c hc).2⟩
    · -- the expectation moves
      have hmoves : w.movesTo (some next) source = true := by
        have hsource : (decide (source = .hub) && decide (w.btcChainIdSource = some .localChain)) = false := by
          rw [← Bool.decide_and]
          exact decide_eq_false houtranked
        rw [World.movesTo, hsource, decide_eq_true hsame]
        rfl
      rw [allows, hmoves, Bool.not_true, Bool.false_or, Bool.and_eq_true_iff] at hallows
      refine start rfl ?_ hmeasured h.nulls h.owed h.cleared fun _ p hp => ?_
      · intro x hx c hc
        have hstays := List.all_eq_true.mp hallows.1 x hx
        simp only [Bool.or_eq_true, decide_eq_true_eq] at hstays
        rcases hstays with hnull | hid
        · cases hnull.symm.trans hc
        · exact Option.some.inj (hc.symm.trans hid)
      · exact of_decide_eq_true (List.all_eq_true.mp hallows.2 p hp)

omit [DecidableEq χ] [DecidableEq κ] in
theorem mem_set_of_mem {q new : Purge χ} (hp : w.purges[i]? = some p) (hq : q ∈ w.purges) :
    q = p ∨ q ∈ w.purges.set i new := by
  obtain ⟨j, hj⟩ := List.mem_iff_getElem?.mp hq
  rcases eq_or_ne i j with rfl | hij
  · exact Or.inl (Option.some.inj (hj.symm.trans hp))
  · exact Or.inr (List.mem_of_getElem? ((List.getElem?_set_ne hij).trans hj))

omit [DecidableEq χ] [DecidableEq κ] in
/-- What every step of a purge keeps: it removes rows only, and of the tables it leaves uncleared it either
    still has to do them or has left a retry. -/
theorem advance {stage : Stage} {pending due : Bool} {rows : Table → List (Row χ κ)} {legacy : LegacyTable → List ℕ}
    {purged : List (Option χ)} (h : Inv w) (hp : w.purges[i]? = some p)
    (hpending : w.chainIdPurgePending = true → pending = true) (hrows : ∀ t, ∀ r ∈ rows t, r ∈ w.rows t)
    (hcovers : pending = true ∨ ∀ t ∈ p.covers,
      (∀ r ∈ rows t, r.Of p.expected) ∨ t ∈ ({ p with stage := stage } : Purge χ).covers)
    (hnulls : none ∉ purged) (hlegacy : ∀ t, ∀ m ∈ legacy t, m ∈ w.legacy t)
    (howed : due = false → w.chainIdPurgeLegacyDue = true → ∀ t, ∀ m ∈ legacy t, m = w.moves)
    (hcleared : ∀ t ∈ ({ p with stage := stage } : Purge χ).cleared, t ∈ p.cleared ∨ legacy t = []) :
    Inv { w with
      chainIdPurgePending := pending, chainIdPurgeLegacyDue := due, rows := rows, legacy := legacy, purged := purged
      purges := w.purges.set i { p with stage := stage } } where
  applying := h.applying
  rows c hc := by
    rcases hcovers with hcovers | hcovers
    · exact Or.inl hcovers
    rcases h.rows c hc with hpend | hall
    · exact Or.inl (hpending hpend)
    refine Or.inr fun t => ?_
    rcases hall t with hclean | ⟨q, hq, rfl, ht⟩
    · exact Or.inl fun r hr => hclean r (hrows t r hr)
    rcases mem_set_of_mem hp hq with rfl | hq
    · have hi := (List.getElem?_eq_some_iff.mp hp).1
      refine (hcovers t ht).imp_right fun ht => ⟨_, List.mem_set hi _, rfl, ht⟩
    · exact Or.inr ⟨q, hq, rfl, ht⟩
  measured := h.measured
  nulls := hnulls
  owed hdue t m hm := by
    cases hold : w.chainIdPurgeLegacyDue with
    | true => exact howed hdue hold t m hm
    | false => exact h.owed hold t m (hlegacy t m hm)
  cleared q hq t ht m hm := by
    rcases List.mem_or_eq_of_mem_set hq with hq | rfl
    · exact h.cleared q hq t ht m (hlegacy t m hm)
    rcases hcleared t ht with ht | hnone
    · exact h.cleared p (List.mem_of_getElem? hp) t ht m (hlegacy t m hm)
    · have hm : m ∈ legacy t := hm
      rw [hnone] at hm
      cases hm

omit [DecidableEq κ] in
theorem delete {outcome : Outcome} (h : Inv w) (hp : w.purges[i]? = some p) (hs : w.delete i p outcome = some w') :
    Inv w' := by
  obtain ⟨expected, stage⟩ := p
  rw [World.delete] at hs
  dsimp only at hs
  split at hs
  · next t ts =>
    have hclean : ∀ r ∈ (w.rows t).filter fun r => !(decide (r.btc_chain_id ≠ none) && decide (r.btc_chain_id ≠ some expected)),
        r.Of expected := by
      intro r hr c hc
      have hkept := (List.mem_filter.mp hr).2
      rw [hc] at hkept
      simpa using hkept
    have hsub : ∀ t', ∀ r ∈ Function.update w.rows t
        ((w.rows t).filter fun r => !(decide (r.btc_chain_id ≠ none) && decide (r.btc_chain_id ≠ some expected))) t',
        r ∈ w.rows t' := by
      intro t' r hr
      rcases eq_or_ne t' t with rfl | hne
      · rw [Function.update_self] at hr
        exact (List.mem_filter.mp hr).1
      · rwa [Function.update_of_ne hne] at hr
    have hnulls : none ∉ w.purged ++ ((w.rows t).filter fun r =>
        decide (r.btc_chain_id ≠ none) && decide (r.btc_chain_id ≠ some expected)).map (·.btc_chain_id) := by
      rw [List.mem_append, not_or]
      refine ⟨h.nulls, fun hnone => ?_⟩
      obtain ⟨r, hr, hid⟩ := List.mem_map.mp hnone
      have hforeign := (List.mem_filter.mp hr).2
      rw [hid] at hforeign
      cases hforeign
    cases outcome with
    | failed =>
      obtain rfl := Option.some.inj hs
      exact h.advance hp id (fun _ _ hr => hr) (Or.inr fun _ ht => Or.inr ht) h.nulls (fun _ _ hm => hm)
        (fun hno hyes => by cases hno.symm.trans hyes) fun _ ht => by cases ht
    | ok =>
      obtain rfl := Option.some.inj hs
      refine h.advance hp id hsub (Or.inr fun t' ht => ?_) hnulls (fun _ _ hm => hm)
        (fun hno hyes => by cases hno.symm.trans hyes) fun _ ht => by cases ht
      rcases List.mem_cons.mp ht with rfl | ht
      · rw [Function.update_self]
        exact Or.inl hclean
      · exact Or.inr ht
    | unreported =>
      obtain rfl := Option.some.inj hs
      exact h.advance hp id hsub (Or.inr fun _ ht => Or.inr ht) hnulls (fun _ _ hm => hm)
        (fun hno hyes => by cases hno.symm.trans hyes) fun _ ht => by cases ht
  · next t ts failed =>
    have hsub : ∀ t', ∀ m ∈ Function.update w.legacy t [] t', m ∈ w.legacy t' := by
      intro t' m hm
      rcases eq_or_ne t' t with rfl | hne
      · rw [Function.update_self] at hm
        cases hm
      · rwa [Function.update_of_ne hne] at hm
    have hkept : ∀ t' ∈ ({ expected := expected, stage := .legacy (t :: ts) (some false) failed } : Purge χ).cleared,
        t' ∈ ({ expected := expected, stage := .legacy (t :: ts) none failed } : Purge χ).cleared := by
      cases failed <;> exact fun _ ht => ht
    cases outcome with
    | failed =>
      obtain rfl := Option.some.inj hs
      exact h.advance hp id (fun _ _ hr => hr) (Or.inr fun _ ht => by cases ht) h.nulls (fun _ _ hm => hm)
        (fun hno hyes => by cases hno.symm.trans hyes) fun t' ht => Or.inl (hkept t' ht)
    | ok =>
      obtain rfl := Option.some.inj hs
      refine h.advance hp id (fun _ _ hr => hr) (Or.inr fun _ ht => by cases ht) h.nulls hsub
        (fun hno hyes => by cases hno.symm.trans hyes) fun t' ht => ?_
      rcases eq_or_ne t' t with rfl | hne
      · exact Or.inr (Function.update_self ..)
      cases failed with
      | true => cases ht
      | false =>
        refine Or.inl (List.mem_filter.mpr ⟨mem_legacy t', decide_eq_true fun hmem => ?_⟩)
        have hout := of_decide_eq_true (List.mem_filter.mp ht).2
        exact (List.mem_cons.mp hmem).elim hne hout
    | unreported =>
      obtain rfl := Option.some.inj hs
      exact h.advance hp id (fun _ _ hr => hr) (Or.inr fun _ ht => by cases ht) h.nulls hsub
        (fun hno hyes => by cases hno.symm.trans hyes) fun t' ht => Or.inl (hkept t' ht)
  · cases hs

omit [DecidableEq χ] [DecidableEq κ] in
theorem resume (h : Inv w) (hp : w.purges[i]? = some p) (hs : w.resume i p = some w') : Inv w' := by
  obtain ⟨expected, stage⟩ := p
  rw [World.resume] at hs
  dsimp only at hs
  split at hs
  · next t ts reported =>
    obtain rfl := Option.some.inj hs
    refine h.advance hp (fun hpending => by rw [hpending, Bool.true_or]) (fun _ _ hr => hr) ?_ h.nulls
      (fun _ _ hm => hm) (fun hno hyes => by cases hno.symm.trans hyes) fun t' ht => ?_
    · -- a delete that reported leaves the rest of the tables, another one a retry
      cases reported with
      | false => exact Or.inl (Bool.or_true _)
      | true =>
        refine Or.inr fun t' ht => Or.inr ?_
        cases ts with
        | nil => cases ht
        | cons t₂ ts => exact ht
    · cases ts with
      | cons t₂ ts => cases ht
      | nil =>
        cases hdue : w.chainIdPurgeLegacyDue with
        | false =>
          rw [hdue] at ht
          cases ht
        | true =>
          rw [hdue] at ht
          exact absurd (mem_legacy t') (of_decide_eq_true (List.mem_filter.mp ht).2)
  · next t ts reported failed =>
    have hreported : (failed || !reported) = false → failed = false ∧ reported = true := by
      cases failed <;> cases reported <;> decide
    cases ts with
    | nil =>
      obtain rfl := Option.some.inj hs
      refine h.advance hp (fun hpending => by rw [hpending, Bool.true_or]) (fun _ _ hr => hr)
        (Or.inr fun _ ht => by cases ht) h.nulls (fun _ _ hm => hm) (fun hno hyes t' m hm => ?_)
        fun t' ht => by cases ht
      -- the last table is done and no delete of the pass failed
      rw [hyes, Bool.true_and] at hno
      obtain ⟨rfl, rfl⟩ := hreported hno
      exact h.cleared _ (List.mem_of_getElem? hp) t'
        (List.mem_filter.mpr ⟨mem_legacy t', decide_eq_true List.not_mem_nil⟩) m hm
    | cons t₂ ts =>
      obtain rfl := Option.some.inj hs
      refine h.advance hp id (fun _ _ hr => hr) (Or.inr fun _ ht => by cases ht) h.nulls (fun _ _ hm => hm)
        (fun hno hyes => by cases hno.symm.trans hyes) fun t' ht => ?_
      cases hfailed : failed || !reported with
      | true =>
        rw [hfailed] at ht
        cases ht
      | false =>
        rw [hfailed] at ht
        obtain ⟨rfl, rfl⟩ := hreported hfailed
        exact Or.inl ht
  · cases hs

omit [DecidableEq χ] [DecidableEq κ] in
/-- Rows that a covered or clean table still holds after rows of the followed chain were written. -/
theorem written {applying : List (Table × Row χ κ)} {rows : Table → List (Row χ κ)} (h : Inv w)
    (happlying : ∀ x ∈ applying, x ∈ w.applying)
    (hrows : ∀ t, ∀ r ∈ rows t, r ∈ w.rows t ∨ (t, r) ∈ w.applying) :
    Inv { w with applying := applying, rows := rows } where
  applying c hc x hx := h.applying c hc x (happlying x hx)
  rows c hc := by
    refine (h.rows c hc).imp_right fun hall t => (hall t).imp_left fun hclean r hr => ?_
    rcases hrows t r hr with hold | hnew
    · exact hclean r hold
    · exact h.applying c hc (t, r) hnew
  measured := h.measured
  nulls := h.nulls
  owed := h.owed
  cleared := h.cleared

omit [DecidableEq χ] [DecidableEq κ] in
theorem asked {ids probing : List χ} (h : Inv w) : Inv { w with chainIdProbedIds := ids, probing := probing } :=
  ⟨h.applying, h.rows, h.measured, h.nulls, h.owed, h.cleared⟩

theorem step (h : Inv w) (hsettled : settled w e = true) (hs : step w e = some w') : Inv w' := by
  cases e with
  | setExpectedBtcChainId id source =>
    obtain rfl := Option.some.inj hs
    exact h.set hsettled
  | delete i outcome =>
    obtain ⟨p, hp, hs⟩ := Option.bind_eq_some_iff.mp hs
    exact h.delete hp hs
  | resume i =>
    obtain ⟨p, hp, hs⟩ := Option.bind_eq_some_iff.mp hs
    exact h.resume hp hs
  | applyRow table row =>
    rw [ChainIdentity.step] at hs
    split_ifs at hs with hrefuse
    obtain rfl := Option.some.inj hs
    refine ⟨fun c hc x hx => ?_, h.rows, h.measured, h.nulls, h.owed, h.cleared⟩
    rcases List.mem_cons.mp hx with rfl | hx
    · intro c' hc'
      have hc : w.expectedBtcChainId = some c := hc
      have hc' : row.btc_chain_id = some c' := hc'
      rw [World.refuseForeignChainRow, hc, hc'] at hrefuse
      exact not_not.mp fun hne => hrefuse (decide_eq_true hne)
    · exact h.applying c hc x hx
  | write table row lands overwrites =>
    rw [ChainIdentity.step] at hs
    split_ifs at hs with hpast hlands
    all_goals obtain rfl := Option.some.inj hs
    · refine h.written (fun x hx => List.mem_of_mem_erase hx) fun t r hr => ?_
      rcases eq_or_ne t table with rfl | hne
      · rw [Function.update_self] at hr
        rcases mem_store hr with hold | rfl
        · exact Or.inl hold
        · exact Or.inr hpast
      · rw [Function.update_of_ne hne] at hr
        exact Or.inl hr
    · exact h.written (fun x hx => List.mem_of_mem_erase hx) fun t r hr => Or.inl hr
  | maybeAdoptHubChainId row =>
    obtain ⟨id, -, rfl⟩ := Option.map_eq_some_iff.mp hs
    exact h.asked
  | advertise id advertised =>
    rw [ChainIdentity.step] at hs
    split_ifs at hs with hmem hid
    all_goals obtain rfl := Option.some.inj hs
    · refine Inv.set h.asked ?_
      rw [settled, hid, decide_eq_false (not_not.mpr rfl), Bool.false_or] at hsettled
      rw [hid]
      exact hsettled
    · exact h.asked
  | writeLegacy table =>
    obtain rfl := Option.some.inj hs
    have hnow : ∀ t, ∀ m ∈ Function.update w.legacy table (w.moves :: w.legacy table) t, m = w.moves ∨ m ∈ w.legacy t := by
      intro t m hm
      rcases eq_or_ne t table with rfl | hne
      · rw [Function.update_self] at hm
        exact List.mem_cons.mp hm
      · rw [Function.update_of_ne hne] at hm
        exact Or.inr hm
    exact ⟨h.applying, h.rows, h.measured, h.nulls,
      fun hdue t m hm => (hnow t m hm).elim id (h.owed hdue t m),
      fun p hp t ht m hm => (hnow t m hm).elim id (h.cleared p hp t ht m)⟩

end Inv

/-- A process start: no chain is known, and the mirror holds what it was left with. -/
def atStart (rows : Table → List (Row χ κ)) (legacy : LegacyTable → ℕ) : World χ κ :=
  { rows := rows, legacy := fun t => List.replicate (legacy t) 0 }

omit [DecidableEq χ] [DecidableEq κ] in
theorem inv_atStart (rows : Table → List (Row χ κ)) (legacy : LegacyTable → ℕ) : Inv (atStart rows legacy) where
  applying c hc := by cases hc
  rows c hc := by cases hc
  measured c hc := by cases hc
  nulls := List.not_mem_nil
  owed _ t m hm := List.eq_of_mem_replicate hm
  cleared p hp := by cases hp

/-- In every run whose moves of the expectation find no row of another chain between its test and its write, and
    no purge between its deletes of the legacy tables, the fence holds in every state reached. -/
theorem fence_settled (rows : Table → List (Row χ κ)) (legacy : LegacyTable → ℕ) (es : List (Label χ κ)) (w : World χ κ)
    (hsettled : Meets step (fun w e => settled w e = true) (atStart rows legacy) es)
    (hrun : run step (atStart rows legacy) es = some w) : Fenced w :=
  (run_inv (fun _ _ _ h hsettled hs => h.step hsettled hs) (inv_atStart rows legacy) hsettled hrun).fenced

/-- Every delete of a purge, each answered in turn. -/
def purge (i n : ℕ) : List (Label ℕ ℕ) := (List.replicate n [.delete i .ok, .resume i]).flatten

/-- A hub's chain is learned, a row is mirrored, and the hub moves to another chain. -/
def reGenesis : List (Label ℕ ℕ) :=
  .setExpectedBtcChainId (some 1) .hub :: purge 0 7 ++
    [.applyRow .cross_chain_matches ⟨0, some 1⟩, .write .cross_chain_matches ⟨0, some 1⟩ true false,
      .writeLegacy .state_checkpoints, .maybeAdoptHubChainId ⟨5, some 2⟩, .advertise 2 (some 2)] ++ purge 1 9

theorem fence_settled_reGenesis : ∃ w,
    run step (atStart (fun _ => [⟨7, some 3⟩]) fun _ => 1) reGenesis = some w ∧ Fenced w := by
  have hsome : (run step (atStart (fun _ => [⟨7, some 3⟩]) fun _ => 1) reGenesis).isSome = true := by decide
  obtain ⟨w, hrun⟩ := Option.isSome_iff_exists.mp hsome
  exact ⟨w, hrun, fence_settled _ _ reGenesis w (by decide) hrun⟩

/-- The row passes its test, the chain moves and its purge ends, and the row is written. -/
def lateWrite : List (Label ℕ ℕ) :=
  .setExpectedBtcChainId (some 1) .hub :: purge 0 7 ++
    [.applyRow .cross_chain_matches ⟨0, some 1⟩, .setExpectedBtcChainId (some 2) .hub] ++ purge 1 9 ++
    [.write .cross_chain_matches ⟨0, some 1⟩ true false]

theorem not_fence_settled : ¬ ∀ (rows : Table → List (Row ℕ ℕ)) (legacy : LegacyTable → ℕ) (es : List (Label ℕ ℕ))
    (w : World ℕ ℕ), run step (atStart rows legacy) es = some w → Fenced w := by
  intro h
  have hlate : (run step (atStart (fun _ => []) fun _ => 0) lateWrite).any (fun w =>
      decide (w.expectedBtcChainId = some 2) && !w.chainIdPurgePending && w.purges.all (·.stage = .done) &&
        decide (w.applying = []) && decide (⟨0, some 1⟩ ∈ w.rows .cross_chain_matches)) = true := by decide
  obtain ⟨w, hrun, hw⟩ := (Option.any_eq_true _ _).mp hlate
  simp only [Bool.and_eq_true, decide_eq_true_eq, Bool.not_eq_true', List.all_eq_true] at hw
  obtain ⟨⟨⟨⟨hexpected, hpending⟩, hdone⟩, happlying⟩, hrow⟩ := hw
  exact absurd ((h _ _ lateWrite w hrun).clean 2 hexpected hpending hdone happlying _ _ hrow 1 rfl) (by decide)

end ChainIdentity
