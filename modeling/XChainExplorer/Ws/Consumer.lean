import Mathlib.Logic.Function.Basic
import XChainExplorer.Ws.CoinState

/-! # A consumer of the feed

    What a client holds that applies every event in order: a NEW_ACTION is kept under its index, a
    REORG drops every row at or above its first invalid index. The feed's promises are stated over
    this view: a row is `Fresh` when its index was not held, so sending it again takes a REORG. -/

namespace ChangeDetector
open Tables

variable {β H : Type*}

/-- One event applied to what is held. -/
def Event.apply (held : ℤ → Option (ActionRow β)) : Event β H → ℤ → Option (ActionRow β)
  | .block _ => held
  | .action row => Function.update held row.action_index (some row)
  | .reorg _ firstInvalid => fun i => if firstInvalid ≤ i then none else held i

/-- What is held after a list of events, oldest first. -/
def view (events : List (Event β H)) : ℤ → Option (ActionRow β) :=
  events.foldl Event.apply fun _ => none

variable {events new : List (Event β H)} {row row' : ActionRow β} {i : ℤ}

@[simp] theorem view_nil : view ([] : List (Event β H)) i = none := rfl

theorem view_append_action :
    view (events ++ [.action row]) i = if i = row.action_index then some row else view events i := by
  simp [view, Event.apply, Function.update_apply]

theorem view_append_reorg {forkBlock firstInvalid : ℤ} :
    view (events ++ [.reorg forkBlock firstInvalid]) i =
      if firstInvalid ≤ i then none else view events i := by
  simp [view, Event.apply]

theorem view_append_blocks (rows : List (BlockRow H)) :
    view (events ++ rows.map .block) = view events := by
  induction rows using List.reverseRecOn with
  | nil => simp
  | append_singleton rows r ih =>
    rw [List.map_append, ← List.append_assoc, ← ih]
    simp [view, Event.apply]

/-- Some event voids index `i`. -/
def Voids (events : List (Event β H)) (i : ℤ) : Prop :=
  ∃ forkBlock firstInvalid, .reorg forkBlock firstInvalid ∈ events ∧ firstInvalid ≤ i

/-- A row stays held until an event voids its index. -/
theorem voids_of_view_none {mid : List (Event β H)}
    (h : view (events ++ .action row :: mid) row.action_index = none) :
    Voids mid row.action_index := by
  induction mid using List.reverseRecOn with
  | nil => rw [view_append_action] at h; simp at h
  | append_singleton mid e ih =>
    rw [← List.cons_append, ← List.append_assoc] at h
    have lift : Voids mid row.action_index → Voids (mid ++ [e]) row.action_index := by
      rintro ⟨f, first, hm, hle⟩
      exact ⟨f, first, List.mem_append_left _ hm, hle⟩
    cases e with
    | block r => exact lift (ih (by rw [← h, ← view_append_blocks [r]]; rfl))
    | action r =>
      rw [view_append_action] at h
      split_ifs at h
      exact lift (ih h)
    | reorg f first =>
      rw [view_append_reorg] at h
      split_ifs at h with hle
      · exact ⟨f, first, by simp, hle⟩
      · exact lift (ih h)

/-- Every row was sent while its index was not held. -/
def Fresh (events : List (Event β H)) : Prop :=
  ∀ pre row post, events = pre ++ .action row :: post → view pre row.action_index = none

theorem fresh_nil : Fresh ([] : List (Event β H)) := by
  rintro pre row post h
  simp at h

/-- Appending one event keeps freshness when a row it sends was not held. -/
theorem Fresh.concat (hf : Fresh events) {e : Event β H}
    (he : ∀ row, e = .action row → view events row.action_index = none) : Fresh (events ++ [e]) := by
  rintro pre row post h
  induction post using List.reverseRecOn with
  | nil =>
    obtain ⟨rfl, he'⟩ := List.append_inj' h rfl
    exact he row (List.singleton_inj.mp he')
  | append_singleton post e' _ =>
    rw [← List.cons_append, ← List.append_assoc] at h
    exact hf pre row post (List.append_inj' h rfl).1

theorem Fresh.append_blocks (hf : Fresh events) (rows : List (BlockRow H)) :
    Fresh (events ++ rows.map .block) := by
  induction rows using List.reverseRecOn with
  | nil => simpa using hf
  | append_singleton rows r ih =>
    rw [List.map_append, ← List.append_assoc]
    exact ih.concat (by rintro row ⟨⟩)

/-- In a fresh feed, two rows of one index have an event between them that voids it. -/
theorem Fresh.voids_between (hf : Fresh events) (pre mid post : List (Event β H))
    (h : events = pre ++ .action row :: (mid ++ .action row' :: post))
    (hi : row.action_index = row'.action_index) : Voids mid row.action_index := by
  have := hf (pre ++ .action row :: mid) row' post (by rw [h]; simp)
  rw [← hi] at this
  exact voids_of_view_none this

end ChangeDetector
