import Mathlib.Logic.Function.Basic
import XChainExplorer.Db.TipProbe

/-! # Watching a tip for reorgs

    An observer keeps the tip it saw last and runs any number of probes, each cut at its awaits:
    a probe reads the tip, may read the row at the height it saw last, bumps the reorg generation
    when that block was replaced, and records the tip it read. The request path's tip reading and
    the poll's reorg check are both observers. -/

namespace TipProbe
open Tables

variable {β H : Type*}

/-- Where a probe waits. `got` is the answer of the read it waits for, once there is one. -/
inductive ProbePc (H : Type*) where
  | idle
  | tip (got : Option (Option (Tip H)))
  | row (prev cur : Tip H) (got : Option (Option (Option H)))
  deriving DecidableEq

/-- One probe. The other fields are history that no step reads: how many probes had completed when
    it started and when its tip was read, and the chains its reads were answered from. -/
structure Probe (β H : Type*) where
  pc : ProbePc H := .idle
  started : ℕ := 0
  sampled : ℕ := 0
  reads : List (Chain β) := []

/-- A completed probe, for the record: how many probes had completed when it started, the chain
    its tip was read from, every chain it read, and the reorg generation it left. -/
structure Done (β : Type*) where
  started : ℕ
  seen : Chain β
  reads : List (Chain β)
  gen : ℕ
  deriving DecidableEq

/-- An observer: the tip it saw last, its probes, and the record of those that completed. -/
structure Watch (β H : Type*) where
  last : Option (Tip H) := none
  probes : ℕ → Probe β H := fun _ => {}
  done : List (Done β) := []

inductive WatchLabel where
  | start (i : ℕ)
  | db (i : ℕ)
  | run (i : ℕ)
  | fail (i : ℕ)
  deriving DecidableEq

def Watch.setProbe (w : Watch β H) (i : ℕ) (p : Probe β H) : Watch β H :=
  { w with probes := Function.update w.probes i p }

/-- A probe completes: it leaves the observer idle and is put on record. -/
def Watch.complete (w : Watch β H) (i : ℕ) (last : Option (Tip H)) (gen : ℕ) : Watch β H :=
  let p := w.probes i
  { (w.setProbe i {}) with
    last
    done := w.done ++ [{ started := p.started, seen := p.reads.headD [], reads := p.reads, gen }] }

/-- The database answers a probe's read. -/
def Watch.read (L : Ledger β H) (c : Chain β) (w : Watch β H) (i : ℕ) : Option (Watch β H) :=
  let p := w.probes i
  match p.pc with
  | .tip none => some (w.setProbe i
      { p with pc := .tip (some (L.tipRow c)), sampled := w.done.length, reads := [c] })
  | .row prev cur none => some (w.setProbe i
      { p with pc := .row prev cur (some (L.rowAt c prev.index)), reads := p.reads ++ [c] })
  | _ => none

/-- The verdict on the block seen last is acted on, and the tip just read is recorded. -/
def Watch.record (w : Watch β H) (gen : ℕ) (i : ℕ) (cur : Tip H) (replaced : Bool) :
    Watch β H × ℕ :=
  let gen := if replaced then gen + 1 else gen
  (w.complete i (some cur) gen, gen)

/-- What a probe does when an answer arrives. An empty table is an answer that records nothing. -/
def Watch.answer [DecidableEq H] (w : Watch β H) (gen : ℕ) (i : ℕ) : Option (Watch β H × ℕ) :=
  let p := w.probes i
  match p.pc with
  | .tip (some none) => some (w.complete i w.last gen, gen)
  | .tip (some (some cur)) => some (match blockReplaced w.last cur with
    | .verdict replaced => w.record gen i cur replaced
    | .readRow prev => (w.setProbe i { p with pc := .row prev cur none }, gen))
  | .row prev cur (some found) => some (w.record gen i cur (blockReplacedRow prev found))
  | _ => none

/-- One step of an observer over the chain its database holds. A read that fails ends its probe and
    leaves the tip seen last as it was. -/
def Watch.step [DecidableEq H] (L : Ledger β H) (c : Chain β) (w : Watch β H) (gen : ℕ) :
    WatchLabel → Option (Watch β H × ℕ)
  | .start i => match (w.probes i).pc with
    | .idle => some (w.setProbe i { pc := .tip none, started := w.done.length }, gen)
    | _ => none
  | .db i => (w.read L c i).map fun w => (w, gen)
  | .run i => w.answer gen i
  | .fail i => match (w.probes i).pc with
    | .idle => none
    | _ => some (w.setProbe i {}, gen)

/-! ### The transitions -/

/-- What a probe that completes read, and the tip and verdict it ends with. -/
inductive Ends [DecidableEq H] (w : Watch β H) (p : Probe β H) : Option (Tip H) → Bool → Prop
  | empty (h : p.pc = .tip (some none)) : Ends w p none false
  | tip {cur replaced} (h : p.pc = .tip (some (some cur)))
      (hv : blockReplaced w.last cur = .verdict replaced) : Ends w p (some cur) replaced
  | row {prev cur found} (h : p.pc = .row prev cur (some found)) :
      Ends w p (some cur) (blockReplacedRow prev found)

/-- The transitions of an observer. -/
inductive WatchTrans [DecidableEq H] (L : Ledger β H) (c : Chain β) (w : Watch β H) (gen : ℕ) :
    WatchLabel → Watch β H → ℕ → Prop
  | start {i} (h : (w.probes i).pc = .idle) :
      WatchTrans L c w gen (.start i)
        (w.setProbe i { pc := .tip none, started := w.done.length }) gen
  | readTip {i} (h : (w.probes i).pc = .tip none) :
      WatchTrans L c w gen (.db i) (w.setProbe i { w.probes i with
        pc := .tip (some (L.tipRow c)), sampled := w.done.length, reads := [c] }) gen
  | readRow {i prev cur} (h : (w.probes i).pc = .row prev cur none) :
      WatchTrans L c w gen (.db i) (w.setProbe i { w.probes i with
        pc := .row prev cur (some (L.rowAt c prev.index)), reads := (w.probes i).reads ++ [c] }) gen
  | askRow {i prev cur} (h : (w.probes i).pc = .tip (some (some cur)))
      (hr : blockReplaced w.last cur = .readRow prev) :
      WatchTrans L c w gen (.run i)
        (w.setProbe i { w.probes i with pc := .row prev cur none }) gen
  | complete {i cur replaced gen'} (h : Ends w (w.probes i) cur replaced)
      (hg : gen' = if replaced then gen + 1 else gen) :
      WatchTrans L c w gen (.run i) (w.complete i (cur <|> w.last) gen') gen'
  | fail {i} (h : (w.probes i).pc ≠ .idle) :
      WatchTrans L c w gen (.fail i) (w.setProbe i {}) gen

variable [DecidableEq H] {L : Ledger β H} {c : Chain β} {w w' : Watch β H} {gen gen' : ℕ}

theorem watchTrans_of_step {l : WatchLabel} (hs : w.step L c gen l = some (w', gen')) :
    WatchTrans L c w gen l w' gen' := by
  cases l with
  | start i =>
    simp only [Watch.step] at hs
    split at hs
    case h_1 h =>
      obtain ⟨rfl, rfl⟩ := Prod.mk.inj (Option.some.inj hs)
      exact .start h
    · simp at hs
  | db i =>
    simp only [Watch.step, Watch.read, Option.map_eq_some_iff] at hs
    obtain ⟨w₁, hr, heq⟩ := hs
    obtain ⟨rfl, rfl⟩ := Prod.mk.inj heq
    split at hr
    case h_1 h => exact Option.some.inj hr ▸ .readTip h
    case h_2 prev cur h => exact Option.some.inj hr ▸ .readRow h
    · simp at hr
  | run i =>
    simp only [Watch.step, Watch.answer] at hs
    split at hs
    case h_1 h =>
      obtain ⟨rfl, rfl⟩ := Prod.mk.inj (Option.some.inj hs)
      exact .complete (.empty h) rfl
    case h_2 cur h =>
      have hs := Option.some.inj hs
      split at hs
      case h_1 replaced hv =>
        obtain ⟨rfl, rfl⟩ := Prod.mk.inj hs
        exact .complete (.tip h hv) rfl
      case h_2 prev hr =>
        obtain ⟨rfl, rfl⟩ := Prod.mk.inj hs
        exact .askRow h hr
    case h_3 prev cur found h =>
      obtain ⟨rfl, rfl⟩ := Prod.mk.inj (Option.some.inj hs)
      exact .complete (.row h) rfl
    · simp at hs
  | fail i =>
    simp only [Watch.step] at hs
    split at hs
    · simp at hs
    case h_2 h =>
      obtain ⟨rfl, rfl⟩ := Prod.mk.inj (Option.some.inj hs)
      exact .fail h


/-! ### Probes that do not overlap -/

variable (L) in
/-- Nothing comes between a probe's tip reading and the moment it is recorded: no other probe
    completes, and the block at the height seen last is the same at both reads. The table is not
    emptied once a tip was seen. -/
def Undisturbed (c : Chain β) (w : Watch β H) : WatchLabel → Prop
  | .db i => match (w.probes i).pc with
    | .tip none => c ≠ [] ∨ w.last = none
    | .row prev _ none => L.rowAt c prev.index = L.rowAt ((w.probes i).reads.headD []) prev.index
    | _ => True
  | .run i => match (w.probes i).pc with
    | .tip (some none) => True
    | _ => (w.probes i).sampled = w.done.length
  | _ => True

instance (c : Chain β) (w : Watch β H) : ∀ l, Decidable (Undisturbed L c w l)
  | .start _ | .fail _ => isTrue trivial
  | .db i => by unfold Undisturbed; dsimp only; split <;> infer_instance
  | .run i => by unfold Undisturbed; dsimp only; split <;> infer_instance

/-- A block that one completed probe saw at the tip is on every chain a later-started one reads, or
    the generation was bumped in between. -/
def Caught (done : List (Done β)) : Prop :=
  ∀ pre q post, done = pre ++ q :: post → ∀ p ∈ pre.take q.started, ∀ d ∈ q.reads,
    ¬ p.seen <:+ d → p.gen < q.gen

variable (L) in
/-- What a probe in flight knows: its tip was read from the first chain on its record, and while no
    other probe completes, the tip it was told to check is the one seen last. -/
def ProbeInv (w : Watch β H) (p : Probe β H) : Prop :=
  match p.pc with
  | .idle => True
  | .tip none => p.started ≤ w.done.length
  | .tip (some found) => p.started ≤ w.done.length ∧ ∃ d, p.reads = [d] ∧ found = L.tipRow d ∧
      (d = [] → ∀ q ∈ w.done.take p.started, q.seen = [])
  | .row prev cur got => p.started ≤ w.done.length ∧ p.sampled ≤ w.done.length ∧
      (p.sampled = w.done.length → w.last = some prev) ∧
      ∃ d, L.tipRow d = some cur ∧ match got with
        | none => p.reads = [d]
        | some found => ∃ d', p.reads = [d, d'] ∧ found = L.rowAt d' prev.index ∧
            found = L.rowAt d prev.index

variable (L) in
/-- What holds of an observer whose probes do not overlap: every block seen at the tip is part of
    the chain of the tip seen last, or the generation was bumped since. -/
structure Watched (gen : ℕ) (w : Watch β H) : Prop where
  caught : Caught w.done
  gens : ∀ p ∈ w.done, p.gen ≤ gen
  unseen : w.last = none → ∀ p ∈ w.done, p.seen = []
  last : ∀ t, w.last = some t → ∃ z, L.tipRow z = some t ∧
    ∀ p ∈ w.done, p.gen < gen ∨ p.seen <:+ z
  probes : ∀ i, ProbeInv L w (w.probes i)

omit [DecidableEq H] in
theorem caught_concat {done : List (Done β)} (h : Caught done) {q : Done β}
    (hq : ∀ p ∈ done.take q.started, ∀ d ∈ q.reads, ¬ p.seen <:+ d → p.gen < q.gen) :
    Caught (done ++ [q]) := by
  intro pre q' post heq
  induction post using List.reverseRecOn with
  | nil =>
    obtain ⟨rfl, hlast⟩ := List.append_inj' heq rfl
    obtain rfl := List.singleton_inj.mp hlast
    exact hq
  | append_singleton post x _ =>
    rw [← List.cons_append, ← List.append_assoc] at heq
    exact h pre q' post (List.append_inj' heq rfl).1

omit [DecidableEq H] in
@[simp] theorem setProbe_self {i : ℕ} {p : Probe β H} : (w.setProbe i p).probes i = p := by
  simp [Watch.setProbe]

omit [DecidableEq H] in
theorem setProbe_of_ne {i j : ℕ} {p : Probe β H} (hj : j ≠ i) :
    (w.setProbe i p).probes j = w.probes j := by
  simp [Watch.setProbe, hj]

omit [DecidableEq H] in
theorem Watched.init : Watched L gen ({} : Watch β H) :=
  ⟨by rintro pre q post h; simp at h, by simp, by simp, by simp, fun _ => trivial⟩

omit [DecidableEq H] in
/-- The generation may be bumped by another observer. -/
theorem Watched.bump (h : Watched L gen w) (hg : gen ≤ gen') : Watched L gen' w := by
  refine ⟨h.caught, fun p hp => (h.gens p hp).trans hg, h.unseen, fun t ht => ?_, h.probes⟩
  obtain ⟨z, hz, hall⟩ := h.last t ht
  exact ⟨z, hz, fun p hp => (hall p hp).imp (·.trans_le hg) id⟩

omit [DecidableEq H] in
/-- A step that only moves a probe keeps what holds of the observer. -/
theorem Watched.setProbe (h : Watched L gen w) {i : ℕ} {p : Probe β H} (hp : ProbeInv L w p) :
    Watched L gen (w.setProbe i p) := by
  refine ⟨h.caught, h.gens, h.unseen, h.last, fun j => ?_⟩
  by_cases hj : j = i
  · rw [hj, setProbe_self]
    exact hp
  · rw [setProbe_of_ne hj]
    exact h.probes j

omit [DecidableEq H] in
/-- A completed probe leaves every other one with what it knew. -/
theorem ProbeInv.complete {p : Probe β H} {i : ℕ} {last : Option (Tip H)} (h : ProbeInv L w p) :
    ProbeInv L (w.complete i last gen) p := by
  have hlen : (w.complete i last gen).done.length = w.done.length + 1 := by simp [Watch.complete]
  have htake {n : ℕ} (hn : n ≤ w.done.length) :
      (w.complete i last gen).done.take n = w.done.take n := by
    simp [Watch.complete, List.take_append_of_le_length hn]
  unfold ProbeInv at h ⊢
  split at h
  · trivial
  · omega
  · obtain ⟨hle, d, hr, hf, hd⟩ := h
    refine ⟨by omega, d, hr, hf, ?_⟩
    rw [htake hle]
    exact hd
  · obtain ⟨hle, hs, -, hd⟩ := h
    exact ⟨by omega, by omega, by omega, hd⟩

omit [DecidableEq H] in
theorem Watched.probe_complete (h : Watched L gen w) {i : ℕ} {last : Option (Tip H)} (j : ℕ) :
    ProbeInv L (w.complete i last gen') ((w.complete i last gen').probes j) := by
  by_cases hj : j = i
  · simp [Watch.complete, Watch.setProbe, hj, ProbeInv]
  · have : (w.complete i last gen').probes j = w.probes j := by
      simp [Watch.complete, Watch.setProbe, hj]
    rw [this]
    exact (h.probes j).complete

/-- The tip a probe ends with was read from the first chain on its record. -/
theorem Ends.seen {p : Probe β H} {cur : Tip H} {replaced : Bool} (hp : ProbeInv L w p)
    (he : Ends w p (some cur) replaced) :
    ∃ d, L.tipRow d = some cur ∧ d ∈ p.reads ∧ p.reads.headD [] = d := by
  generalize hcur : some cur = o at he
  cases he with
  | empty => simp at hcur
  | tip hpc =>
    obtain rfl := Option.some.inj hcur
    simp only [ProbeInv, hpc] at hp
    obtain ⟨-, d, hr, hd, -⟩ := hp
    exact ⟨d, hd.symm, by simp [hr], by simp [hr]⟩
  | row hpc =>
    obtain rfl := Option.some.inj hcur
    simp only [ProbeInv, hpc] at hp
    obtain ⟨-, -, -, d, hd, d', hr, -⟩ := hp
    exact ⟨d, hd, by simp [hr], by simp [hr]⟩

/-- A block that was found in place is on every chain the probe read. -/
theorem Ends.suffix (hL : Distinct L) {p : Probe β H} {cur : Option (Tip H)} {replaced : Bool}
    (hp : ProbeInv L w p) (he : Ends w p cur replaced) (hu : p.sampled = w.done.length)
    (hr : replaced = false) {z : Chain β} {t : Tip H} (ht : w.last = some t)
    (hz : L.tipRow z = some t) (hcur : cur ≠ none) : ∀ d ∈ p.reads, z <:+ d := by
  cases he with
  | empty => exact absurd rfl hcur
  | tip hpc hv =>
    simp only [ProbeInv, hpc] at hp
    obtain ⟨-, d, hreads, hd, -⟩ := hp
    rw [ht, hr] at hv
    rw [hreads, eq_of_verdict_false hL hz hd.symm hv]
    simp
  | row hpc =>
    simp only [ProbeInv, hpc] at hp
    obtain ⟨-, -, hlast, d, hd, d', hreads, hf, hf'⟩ := hp
    obtain rfl := Option.some.inj (ht.symm.trans (hlast hu))
    intro e he
    rw [hreads] at he
    rcases List.mem_cons.mp he with rfl | he
    · exact suffix_of_row_false hL hz (hf' ▸ hr)
    · exact List.mem_singleton.mp he ▸ suffix_of_row_false hL hz (hf ▸ hr)

/-- A probe that records a tip keeps the record. -/
theorem Watched.record (hL : Distinct L) (h : Watched L gen w) {i : ℕ} {cur : Tip H}
    {replaced : Bool} (he : Ends w (w.probes i) (some cur) replaced)
    (hu : (w.probes i).sampled = w.done.length)
    (hg : gen' = if replaced then gen + 1 else gen) :
    Watched L gen' (w.complete i (some cur) gen') := by
  obtain ⟨d, hd, hmem, hseen⟩ := he.seen (h.probes i)
  have hle : gen ≤ gen' := by split_ifs at hg <;> omega
  -- what was seen before is on every chain read now, or the generation is bumped
  have hall : ∀ p ∈ w.done, p.gen < gen' ∨ ∀ d' ∈ (w.probes i).reads, p.seen <:+ d' := by
    intro p hp
    cases hrep : replaced with
    | true =>
      rw [hrep, if_pos rfl] at hg
      exact .inl (hg ▸ Nat.lt_succ_of_le (h.gens p hp))
    | false =>
      cases hlast : w.last with
      | none =>
        rw [h.unseen hlast p hp]
        exact .inr fun d' _ => List.nil_suffix
      | some t =>
        obtain ⟨z, hz, hz'⟩ := h.last t hlast
        have hsuf := he.suffix hL (h.probes i) hu hrep hlast hz (by simp)
        exact (hz' p hp).imp (·.trans_le hle) fun hp d' hd' => hp.trans (hsuf d' hd')
  refine ⟨caught_concat h.caught ?_, ?_, by simp [Watch.complete], ?_, fun j => ?_⟩
  · intro p hp d' hd' hno
    exact (hall p (List.mem_of_mem_take hp)).resolve_right fun hs => hno (hs d' hd')
  · simp only [Watch.complete, List.mem_append, List.mem_singleton]
    rintro p (hp | rfl)
    · exact (h.gens p hp).trans hle
    · exact le_rfl
  · simp only [Watch.complete, Option.some.injEq, List.mem_append, List.mem_singleton]
    rintro t rfl
    refine ⟨d, hd, ?_⟩
    rintro p (hp | rfl)
    · exact (hall p hp).imp id fun hs => hs d hmem
    · exact .inr (hseen ▸ List.suffix_rfl)
  · exact h.probe_complete j

omit [DecidableEq H] in
/-- A probe that found the table empty records no tip. -/
theorem Watched.empty (h : Watched L gen w) {i : ℕ} (hp : (w.probes i).pc = .tip (some none)) :
    Watched L gen (w.complete i w.last gen) := by
  have hpi := h.probes i
  simp only [ProbeInv, hp] at hpi
  obtain ⟨hle, d, hr, hd, hseen⟩ := hpi
  have hnil : d = [] := by
    cases d with
    | nil => rfl
    | cons x d => simp [Ledger.tipRow] at hd
  subst hnil
  refine ⟨caught_concat h.caught ?_, ?_, ?_, ?_, fun j => ?_⟩
  · intro p hp d' hd' hno
    simp only [hr, List.mem_singleton] at hd'
    rw [hseen rfl p hp, hd'] at hno
    exact absurd List.suffix_rfl hno
  · simp only [Watch.complete, List.mem_append, List.mem_singleton]
    rintro p (hp | rfl)
    · exact h.gens p hp
    · exact le_rfl
  · simp only [Watch.complete, List.mem_append, List.mem_singleton]
    rintro hnone p (hp | rfl)
    · exact h.unseen hnone p hp
    · simp [hr]
  · simp only [Watch.complete, List.mem_append, List.mem_singleton]
    intro t ht
    obtain ⟨z, hz, hall⟩ := h.last t ht
    refine ⟨z, hz, ?_⟩
    rintro p (hp | rfl)
    · exact hall p hp
    · simp [hr]
  · exact h.probe_complete j

/-- One step of an observer whose probes do not overlap. -/
theorem Watched.step (hL : Distinct L) (h : Watched L gen w) {l : WatchLabel}
    (hu : Undisturbed L c w l) (ht : WatchTrans L c w gen l w' gen') : Watched L gen' w' := by
  cases ht with
  | start => exact h.setProbe (by simp [ProbeInv])
  | @readTip i hpc =>
    simp only [Undisturbed, hpc] at hu
    have hp := h.probes i
    simp only [ProbeInv, hpc] at hp
    refine h.setProbe ⟨hp, c, rfl, rfl, fun hc q hq => ?_⟩
    exact h.unseen (hu.resolve_left (absurd hc ·)) q (List.mem_of_mem_take hq)
  | @readRow i prev cur hpc =>
    simp only [Undisturbed, hpc] at hu
    have hp := h.probes i
    simp only [ProbeInv, hpc] at hp
    obtain ⟨hle, hs, hlast, d, hd, hr⟩ := hp
    refine h.setProbe ⟨hle, hs, hlast, d, hd, c, by simp [hr], rfl, ?_⟩
    rw [hu, hr, List.headD_cons]
  | @askRow i prev cur hpc hr =>
    have hp := h.probes i
    simp only [ProbeInv, hpc] at hp
    simp only [Undisturbed, hpc] at hu
    obtain ⟨hle, d, hreads, hd, -⟩ := hp
    exact h.setProbe ⟨hle, hu.le, fun _ => (blockReplaced_readRow hr).1, d, hd.symm, hreads⟩
  | @complete i cur replaced _ he hg =>
    cases cur with
    | none =>
      cases he with
      | empty hpc =>
        simp only [Bool.false_eq_true, if_false] at hg
        rw [hg]
        exact h.empty hpc
    | some cur =>
      refine h.record hL he ?_ hg
      cases he with
      | tip hpc => simpa only [Undisturbed, hpc] using hu
      | row hpc => simpa only [Undisturbed, hpc] using hu
  | fail => exact h.setProbe (by simp [ProbeInv])

end TipProbe
