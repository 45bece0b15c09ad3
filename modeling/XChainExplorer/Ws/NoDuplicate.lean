import XChainExplorer.Ws.Consumer
import XChainExplorer.Ws.PollAlone

/-! # Duplicate live actions

    The live mark advances row by row, the fetch cursor only after the whole page. A row's fan-out
    that throws leaves the two apart and the next poll sends the same rows again; with no such
    throw every row above the cursor is one the consumer does not hold. -/

namespace ChangeDetector
open Tables TipProbe

variable {β H : Type*} {L : Ledger β H} {cfg : Config}

/-- The indexes of the NEW_ACTION events, in order. -/
def sentIndexes (events : List (Event β H)) : List ℤ :=
  events.filterMap fun
    | .action row => some row.action_index
    | _ => none

/-- A fresh feed with no REORG sends no index twice. -/
theorem Fresh.nodup {events : List (Event β H)} (hf : Fresh events)
    (hno : ∀ g x, Event.reorg g x ∉ events) : (sentIndexes events).Nodup := by
  induction events using List.reverseRecOn with
  | nil => exact List.nodup_nil
  | append_singleton events e ih =>
    have ih := ih (fun pre row post h => hf pre row (post ++ [e]) (by rw [h]; simp))
      fun g x hmem => hno g x (List.mem_append_left _ hmem)
    rw [sentIndexes, List.filterMap_append]
    cases e with
    | block r => simpa [sentIndexes] using ih
    | reorg g x => exact absurd (by simp) (hno g x)
    | action row =>
      refine List.nodup_append.mpr ⟨ih, by simp, ?_⟩
      rintro i hi j hj rfl
      simp only [List.filterMap_cons, List.filterMap_nil, List.mem_singleton] at hj
      subst hj
      obtain ⟨ev, hev, hev'⟩ := List.mem_filterMap.mp hi
      cases ev with
      | block | reorg => simp at hev'
      | action row' =>
        simp only [Option.some.injEq] at hev'
        obtain ⟨pre, post, rfl⟩ := List.append_of_mem hev
        obtain ⟨g, x, hmem, -⟩ := hf.voids_between pre post [] (by simp) hev'
        exact hno g x (by simp [hmem])

variable (L cfg) in
/-- Nothing the consumer holds lies above the live mark. -/
structure Sent (f : Feed β H) : Prop where
  marked : Marked L cfg f.det
  fresh : Fresh f.events
  unseeded : f.det.coin.initialized = false → f.events = []
  below : ∀ i, view f.events i ≠ none → ∃ m, f.det.coin.liveActionMark = some m ∧ i ≤ m

theorem Sent.init (c : Chain β) : Sent L cfg (Feed.init c : Feed β H) :=
  ⟨Marked.init c, fresh_nil, fun _ => rfl, by simp [Feed.init]⟩

variable [DecidableEq H]

theorem Sent.step {f f' : Feed β H} {l : Label β} (h : Sent L cfg f)
    (hl : FanoutReturns f.det l) (hs : f.step L cfg l = some f') : Sent L cfg f' := by
  obtain ⟨evs, ht, he⟩ := trans_of_feed hs
  have hmarked := h.marked.step hl ht
  obtain ⟨d', events⟩ := f'
  simp only at he ht hmarked
  subst he
  have hbelow := h.below
  cases ht with
  | chain | tick | fail | readTip | readSeedBlocks | readFork | readBlocks | readActions | askTip
  | checked | seeded | searchFork | proceed | finish | seedStart | seedFail | seedReadTip
  | seedReadBlocks | seedAskTip | seedChecked | seedSkip | seedSeeded =>
    rw [List.append_nil]
    exact ⟨hmarked, h.fresh, h.unseeded, hbelow⟩
  | seed hp ht hi | seedCursors hp ht hi =>
    rw [List.append_nil]
    refine ⟨hmarked, h.fresh, by simp [Coin.seedCursors], ?_⟩
    rw [h.unseeded hi]
    simp
  | rewind hr hc =>
    obtain ⟨hi, -, -, -, -, -, hm⟩ := rollback_marks hc
    have hinit := hr.initialized h.marked.shape
    have hmark := h.marked.mark hinit hr.not_fanout
    have hA : ∀ i, view f.events i ≠ none → i ≤ f.det.coin.actionIndex := by
      intro i hv
      obtain ⟨m, hm, hle⟩ := hbelow i hv
      rw [hmark] at hm
      exact Option.some.inj hm ▸ hle
    rw [hmark, Option.map_some] at hm
    rcases rollback_cases hc with ⟨rfl, -, -, hA'⟩ | ⟨g, log, rfl, -⟩
    · rw [List.append_nil]
      refine ⟨hmarked, h.fresh, by simp [hi, hinit], fun i hv => ⟨_, hm, ?_⟩⟩
      rw [hA', min_self]
      exact hA i hv
    · refine ⟨hmarked, h.fresh.concat (by rintro row ⟨⟩), by simp [hi, hinit], fun i hv => ⟨_, hm, ?_⟩⟩
      rw [view_append_reorg] at hv
      split_ifs at hv with hvoid
      · exact absurd rfl hv
      · exact le_min (hA i hv) (by omega)
  | blocksSent hp =>
    rw [blocksSent_eq] at hmarked ⊢
    have hshape := h.marked.shape.poll
    rw [hp] at hshape
    refine ⟨hmarked, h.fresh.append_blocks _, by simp [hshape.1], ?_⟩
    rw [view_append_blocks]
    exact hbelow
  | sendRow hr =>
    obtain ⟨m, hm, hlt, -⟩ := h.marked.sendRow hr
    obtain ⟨hi, -⟩ := h.marked.shape.poll.atRow hr
    refine ⟨hmarked, h.fresh.concat ?_, by simp [Coin.setLiveMark, hi], fun i hv => ⟨_, rfl, ?_⟩⟩
    · rintro row ⟨⟩
      by_contra hv
      obtain ⟨m', hm', hle⟩ := hbelow _ hv
      rw [hm] at hm'
      have := Option.some.inj hm'
      omega
    · rw [view_append_action] at hv
      split_ifs at hv with heq
      · exact heq.le
      · obtain ⟨m', hm', hle⟩ := hbelow _ hv
        rw [hm] at hm'
        have := Option.some.inj hm'
        omega
  | actionsSent hr =>
    obtain ⟨hi, -⟩ := h.marked.shape.poll.atRow hr
    rw [actionsSent_eq] at hmarked ⊢
    rw [List.append_nil]
    refine ⟨hmarked, h.fresh, by simp [hi], fun i hv => ⟨_, rfl, ?_⟩⟩
    obtain ⟨m, hm, hle⟩ := hbelow i hv
    rw [hm, Option.getD_some]
    exact hle.trans (le_max_left _ _)

/-- No duplicate live action. While no row's fan-out throws, two NEW_ACTION events of one index
    have a REORG between them that voids it, and between row loops the fetch cursor is at or above
    every row sent and not voided. With polls alone over a chain that never rolls back no index is
    sent twice. -/
theorem action_sent_once {c : Chain β} {f : Feed β H} {ls : List (Label β)}
    (hm : Runs.Meets (Feed.step L cfg) (fun f l => FanoutReturns f.det l) (Feed.init c) ls)
    (hr : Runs.run (Feed.step L cfg) (Feed.init c) ls = some f) :
    (∀ pre row mid row' post, f.events = pre ++ .action row :: (mid ++ .action row' :: post) →
      row.action_index = row'.action_index → Voids mid row.action_index) ∧
    (f.det.poll.isFanout = false → ∀ i, view f.events i ≠ none → i ≤ f.det.coin.actionIndex) ∧
    (Runs.Meets (Feed.step L cfg) (fun f l => Grows f.det l ∧ PollOnly l) (Feed.init c) ls →
      (sentIndexes f.events).Nodup) := by
  have hsent : Sent L cfg f :=
    Runs.run_inv (fun _ _ _ h hl hs => h.step hl hs) (Sent.init c) hm hr
  refine ⟨fun pre row mid row' post h hi => hsent.fresh.voids_between pre mid post h hi, fun hf i hv => ?_,
    fun hg => hsent.fresh.nodup ?_⟩
  · obtain ⟨m, hm, hle⟩ := hsent.below i hv
    cases hi : f.det.coin.initialized with
    | false => rw [hsent.unseeded hi] at hv; simp at hv
    | true =>
      rw [hsent.marked.mark hi hf] at hm
      exact Option.some.inj hm ▸ hle
  · have hquiet : Quiet L cfg f.det ∧ ∀ g x, Event.reorg g x ∉ f.events := by
      refine Runs.run_inv (I := fun f => Quiet L cfg f.det ∧ ∀ g x, Event.reorg g x ∉ f.events)
        ?_ ⟨Quiet.init c, by simp [Feed.init]⟩ hg hr
      rintro f l f' ⟨hq, hno⟩ ⟨hg, hl⟩ hs
      obtain ⟨evs, ht, he⟩ := trans_of_feed hs
      obtain ⟨hq', hno'⟩ := hq.step hg hl ht
      refine ⟨hq', fun g x hmem => ?_⟩
      rw [he] at hmem
      rcases List.mem_append.mp hmem with hmem | hmem
      · exact hno g x hmem
      · exact hno' g x hmem
    exact hquiet.2

/-! ### One row, its fan-out returning or throwing -/

/-- A page of a hundred rows, the constructor's default. -/
def pageOf100 : Config := { fetchLimit := 100, fetchLimit_pos := by decide }

/-- The coin is seeded over one empty block, a block with one action is committed, and the next
    poll sends its row. -/
def sendOneRow : List (Label ℕ) :=
  .tick :: answers 4 ++ .chain [⟨[7], 0⟩, ⟨[], 0⟩] :: .tick :: answers 6

/-- The row's fan-out throws and the poll after it sends the row again. -/
def throwAndResend : List (Label ℕ) := sendOneRow ++ .fail :: .tick :: answers 4

theorem action_sent_once_run : ∃ f, Runs.run (Feed.step (plainLedger ℕ) pageOf100)
    (Feed.init [⟨[], 0⟩]) (sendOneRow ++ [.run]) = some f ∧ (sentIndexes f.events).Nodup ∧
      sentIndexes f.events = [1] := by
  obtain ⟨f, hr, hs⟩ : ∃ f, Runs.run (Feed.step (plainLedger ℕ) pageOf100)
      (Feed.init [⟨[], 0⟩]) (sendOneRow ++ [.run]) = some f ∧ sentIndexes f.events = [1] :=
    Option.map_eq_some_iff.mp (by decide +kernel)
  exact ⟨f, hr, (action_sent_once (by decide +kernel) hr).2.2 (by decide +kernel), hs⟩

/-- A fan-out that throws has its row sent again though no block left the chain. -/
theorem action_sent_twice : ¬ ∀ (ls : List (Label ℕ)) (f : Feed ℕ (Chain ℕ)),
    Runs.Meets (Feed.step (plainLedger ℕ) pageOf100) (fun f l => Grows f.det l ∧ PollOnly l)
      (Feed.init [⟨[], 0⟩]) ls →
    Runs.run (Feed.step (plainLedger ℕ) pageOf100) (Feed.init [⟨[], 0⟩]) ls = some f →
    (sentIndexes f.events).Nodup := by
  intro h
  obtain ⟨f, hr, hs⟩ : ∃ f, Runs.run (Feed.step (plainLedger ℕ) pageOf100)
      (Feed.init [⟨[], 0⟩]) throwAndResend = some f ∧ sentIndexes f.events = [1, 1] :=
    Option.map_eq_some_iff.mp (by decide +kernel)
  have := h throwAndResend f (by decide +kernel) hr
  simp [hs] at this

end ChangeDetector
