import XChainExplorer.Ws.Fanout

/-! # The steps of the fan-out

    What one offer, one fan-out and one replayed frame change: of the registry only what a once
    removal takes, of the row in flight only its admissions, and the journal at its end. -/

namespace Broadcaster

open JsText ChannelManager

variable {s s' : State}

/-! ### One subscriber -/

section offer
variable {maxBackpressure id : ℕ} {key : Text} {frame : Frame} {ofRow replayed : Bool} {filter : Filter}

def Row.decide (row : Row) (id : ℕ) (admitted : Bool) : Row :=
  { row with admissions := Function.update row.admissions id (some admitted) }

/-- A frame of no row, or one that comes while no row is in flight. -/
theorem deliver_other (hpass : passesFilter filter frame = true) (hrow : ofRow = false ∨ s.row = none) :
    deliverToSubscriber maxBackpressure s id filter frame ofRow =
      if maxBackpressure < (s.sockets id).bufferedAmount then
        ({ s with
          sockets := Function.update s.sockets id (noteBackpressureSkip (s.sockets id) s.row.isSome) }, .refused)
      else (s, sendOutcome (s.sockets id)) := by
  unfold deliverToSubscriber
  dsimp only
  rw [hpass]
  rcases hrow with rfl | hrow
  · cases s.row <;> rfl
  · rw [hrow]
    rfl

theorem deliver_row (hpass : passesFilter filter frame = true) {row : Row} (hrow : s.row = some row) :
    deliverToSubscriber maxBackpressure s id filter frame true =
      match row.admissions id with
      | some false => (s, .refused)
      | some true => (s, sendOutcome (s.sockets id))
      | none =>
        if (s.sockets id).bufferedAmount ≤ maxBackpressure then
          ({ s with row := some (row.decide id true) }, sendOutcome (s.sockets id))
        else
          ({ s with
              row := some (row.decide id false)
              sockets := Function.update s.sockets id
                (noteBackpressureSkip (s.sockets id) (s.sockets id).backpressureClosePending) }, .refused) := by
  unfold deliverToSubscriber
  dsimp only
  rw [hpass, hrow]
  rfl

theorem registry_deliver :
    (deliverToSubscriber maxBackpressure s id filter frame ofRow).1.registry = s.registry := by
  unfold deliverToSubscriber
  dsimp only
  split
  · rfl
  · split
    · split
      · rfl
      · rfl
      · split <;> rfl
    · split <;> rfl

variable (maxBackpressure key frame ofRow replayed id filter) in
theorem registry_afterOffer :
    (afterOffer maxBackpressure s key frame ofRow replayed id filter).registry = s.registry := by
  unfold afterOffer offerTo State.note
  dsimp only
  split
  · rfl
  · exact registry_deliver

variable (maxBackpressure key frame ofRow replayed id filter) in
/-- An offer decides admissions and changes nothing else of the row. -/
theorem row_afterOffer {row : Row} (hrow : s.row = some row) :
    ∃ admissions, (afterOffer maxBackpressure s key frame ofRow replayed id filter).row =
      some ⟨row.number, admissions, row.joined⟩ := by
  unfold afterOffer offerTo State.note
  dsimp only
  split
  · exact ⟨row.admissions, hrow⟩
  · cases hpass : passesFilter filter frame with
    | false =>
      unfold deliverToSubscriber
      rw [hpass]
      exact ⟨row.admissions, hrow⟩
    | true =>
      cases ofRow with
      | false =>
        rw [deliver_other hpass (.inl rfl)]
        split <;> exact ⟨row.admissions, hrow⟩
      | true =>
        rw [Broadcaster.deliver_row hpass hrow]
        split
        · exact ⟨row.admissions, hrow⟩
        · exact ⟨row.admissions, hrow⟩
        · split
          · exact ⟨_, rfl⟩
          · exact ⟨_, rfl⟩

theorem journal_deliver :
    (deliverToSubscriber maxBackpressure s id filter frame ofRow).1.journal = s.journal := by
  unfold deliverToSubscriber
  dsimp only
  split
  · rfl
  · split
    · split
      · rfl
      · rfl
      · split <;> rfl
    · split <;> rfl

theorem journal_afterOffer : (afterOffer maxBackpressure s key frame ofRow replayed id filter).journal =
    s.journal ++ [offerEntry s id key frame ofRow (offerTo maxBackpressure s key frame ofRow replayed id filter).2] := by
  unfold afterOffer State.note
  dsimp only
  unfold offerTo
  split
  · rfl
  · rw [journal_deliver]

/-- What one offer with its entry preserves holds of the whole fan-out. -/
theorem offerAll_inv {I : State → Prop}
    (hI : ∀ s id filter, I s → (s.registry.clients id).isSome = true →
      I (afterOffer maxBackpressure s key frame ofRow replayed id filter))
    (subscribers : List (Sigma fun _ : ℕ => Filter)) (toRemove : List ℕ) (h : I s) :
    I (offerAll maxBackpressure key frame ofRow replayed s toRemove subscribers).1 := by
  induction subscribers generalizing s toRemove with
  | nil => exact h
  | cons subscriber subscribers ih =>
    obtain ⟨id, filter⟩ := subscriber
    unfold offerAll
    split
    · rename_i hclient
      exact ih _ (hI s id filter h hclient)
    · exact ih _ h

theorem registry_offerAll (subscribers : List (Sigma fun _ : ℕ => Filter)) (toRemove : List ℕ) :
    (offerAll maxBackpressure key frame ofRow replayed s toRemove subscribers).1.registry = s.registry := by
  induction subscribers generalizing s toRemove with
  | nil => rfl
  | cons subscriber subscribers ih =>
    obtain ⟨id, filter⟩ := subscriber
    unfold offerAll
    split
    · exact (ih _).trans (registry_afterOffer ..)
    · exact ih _

theorem journal_offerAll (subscribers : List (Sigma fun _ : ℕ => Filter)) (toRemove : List ℕ) :
    s.journal <+: (offerAll maxBackpressure key frame ofRow replayed s toRemove subscribers).1.journal := by
  induction subscribers generalizing s toRemove with
  | nil => exact List.prefix_rfl
  | cons subscriber subscribers ih =>
    obtain ⟨id, filter⟩ := subscriber
    unfold offerAll
    split
    · refine List.IsPrefix.trans ?_ (ih _)
      rw [journal_afterOffer]
      exact List.prefix_append _ _
    · exact ih _

end offer

/-! ### The once removal -/

theorem people_spendOne (r : Registry) (key : Text) (id : ℕ) :
    (spendOne r key id).clients = r.clients ∧ (spendOne r key id).nextId = r.nextId := by
  unfold spendOne
  split <;> exact ⟨rfl, rfl⟩

theorem people_removeOnce (r : Registry) (key : Text) (ids : List ℕ) :
    (removeOnceSubscriptions r key ids).clients = r.clients ∧
      (removeOnceSubscriptions r key ids).nextId = r.nextId := by
  induction ids generalizing r with
  | nil => exact ⟨rfl, rfl⟩
  | cons id ids ih =>
    obtain ⟨hclients, hnext⟩ := people_spendOne r key id
    unfold removeOnceSubscriptions
    split
    · exact ⟨hclients, hnext⟩
    · exact ⟨(ih _).1.trans hclients, (ih _).2.trans hnext⟩

theorem filterAt_spendOne (r : Registry) (key key' : Text) (id c : ℕ) :
    (spendOne r key id).filterAt key' c = if key' = key ∧ c = id then none else r.filterAt key' c := by
  unfold spendOne
  split
  · exact filterAt_release id c key key'
  · rw [filterAt_eq, filterAt_eq, bind_lookup_dropFrom]

/-- A key that can be read back is taken from every client of the walk. -/
theorem filterAt_removeOnce_of_parse {key : Text} (hparse : (parseChannelKey key).isSome = true) (ids : List ℕ)
    (r : Registry) (key' : Text) (c : ℕ) :
    (removeOnceSubscriptions r key ids).filterAt key' c =
      if key' = key ∧ c ∈ ids then none else r.filterAt key' c := by
  induction ids generalizing r with
  | nil => simp [removeOnceSubscriptions]
  | cons id ids ih =>
    have hnone : ¬ ((r.clients id).isSome = true ∧ (parseChannelKey key).isNone = true) := by
      rintro ⟨-, hnone⟩
      rw [Option.isNone_iff_eq_none] at hnone
      rw [hnone] at hparse
      cases hparse
    unfold removeOnceSubscriptions
    rw [if_neg hnone, ih, filterAt_spendOne]
    by_cases hkey : key' = key <;> by_cases hid : c = id <;> by_cases hids : c ∈ ids <;> simp [hkey, hid, hids]

/-- A client that the walk does not name keeps what it holds, and so does every other key. -/
theorem filterAt_removeOnce {key key' : Text} {ids : List ℕ} {c : ℕ} (h : key' ≠ key ∨ c ∉ ids) (r : Registry) :
    (removeOnceSubscriptions r key ids).filterAt key' c = r.filterAt key' c := by
  induction ids generalizing r with
  | nil => rfl
  | cons id ids ih =>
    have hone : (spendOne r key id).filterAt key' c = r.filterAt key' c := by
      rw [filterAt_spendOne, if_neg]
      rintro ⟨hkey, hid⟩
      rcases h with h | h
      · exact h hkey
      · exact h (by simp [hid])
    unfold removeOnceSubscriptions
    split
    · exact hone
    · rw [ih (h.imp_right fun hmem hids => hmem (by simp [hids])), hone]

/-! ### Every step -/

section runs
variable {stringify : Json → Text} {maxSubscriptions maxBackpressure : ℕ} {coin : Coin}

variable (maxBackpressure s) in
theorem registry_broadcast (key : Text) (frame : Frame) (ofRow replayed : Bool) :
    ∃ ids, (broadcastToChannelKey maxBackpressure s key frame ofRow replayed).registry =
      removeOnceSubscriptions s.registry key ids := by
  refine ⟨(offerAll maxBackpressure key frame ofRow replayed s [] (s.registry.getSubscribers key).entries).2, ?_⟩
  unfold broadcastToChannelKey removeOnce State.note
  dsimp only
  rw [registry_offerAll]

theorem journal_broadcast (key : Text) (frame : Frame) (ofRow replayed : Bool) :
    (offerAll maxBackpressure key frame ofRow replayed s [] (s.registry.getSubscribers key).entries).1.journal <+:
      (broadcastToChannelKey maxBackpressure s key frame ofRow replayed).journal :=
  List.prefix_append _ _

theorem prefix_broadcastToKeys (keys : List Text) (frame : Frame) (ofRow replayed : Bool) :
    s.journal <+: (broadcastToKeys maxBackpressure s keys frame ofRow replayed).journal := by
  induction keys generalizing s with
  | nil => exact List.prefix_rfl
  | cons key keys ih => exact ((journal_offerAll _ _).trans (journal_broadcast key frame ofRow replayed)).trans ih

/-- A fan-out leaves the row in flight its number and the keys that joined it. -/
theorem row_offerAll {key : Text} {frame : Frame} {ofRow replayed : Bool} {row : Row} (hrow : s.row = some row)
    (subscribers : List (Sigma fun _ : ℕ => Filter)) (toRemove : List ℕ) :
    ∃ admissions, (offerAll maxBackpressure key frame ofRow replayed s toRemove subscribers).1.row =
      some ⟨row.number, admissions, row.joined⟩ := by
  induction subscribers generalizing s toRemove row with
  | nil => exact ⟨row.admissions, hrow⟩
  | cons subscriber subscribers ih =>
    obtain ⟨id, filter⟩ := subscriber
    unfold offerAll
    split
    · obtain ⟨admissions, hrow'⟩ := row_afterOffer maxBackpressure id key frame ofRow replayed filter hrow
      exact ih hrow' _
    · exact ih hrow _

variable (maxBackpressure) in
theorem row_broadcast (key : Text) (frame : Frame) (ofRow replayed : Bool) {row : Row} (hrow : s.row = some row) :
    ∃ admissions, (broadcastToChannelKey maxBackpressure s key frame ofRow replayed).row =
      some ⟨row.number, admissions, row.joined⟩ :=
  row_offerAll hrow _ _

theorem prefix_sendToTargets (id : ℕ) (frame : Frame) (targets : List (Text × Filter)) :
    s.journal <+: (sendToTargets s id frame targets).journal := by
  induction targets generalizing s with
  | nil => exact List.prefix_rfl
  | cons target targets ih =>
    refine List.IsPrefix.trans ?_ ih
    unfold sendToTarget
    split
    · dsimp only
      split
      · exact (List.prefix_append _ _).trans (List.prefix_append _ _)
      · exact List.prefix_append _ _
    · exact List.prefix_append _ _

/-- The journal only grows. -/
theorem prefix_step {op : Op} (hstep : step stringify maxSubscriptions maxBackpressure coin s op = some s') :
    s.journal <+: s'.journal := by
  unfold Broadcaster.step at hstep
  cases op with
  | connect =>
    obtain ⟨r', -, rfl⟩ := Option.map_eq_some_iff.mp hstep
    exact List.prefix_rfl
  | subscribe id channels params =>
    obtain ⟨coin', -, rfl⟩ := Option.map_eq_some_iff.mp hstep
    exact List.prefix_append _ _
  | unsubscribe id channels params =>
    obtain ⟨r', -, rfl⟩ := Option.map_eq_some_iff.mp hstep
    exact List.prefix_append _ _
  | removeClient id | close id =>
    obtain ⟨r', -, rfl⟩ := Option.map_eq_some_iff.mp hstep
    exact List.prefix_append _ _
  | buffered id amount =>
    obtain rfl := Option.some.inj hstep
    exact List.prefix_rfl
  | lose id =>
    obtain rfl := Option.some.inj hstep
    exact List.prefix_rfl
  | actionRowStart =>
    dsimp only at hstep
    split at hstep
    · cases hstep
    · obtain rfl := Option.some.inj hstep
      exact List.prefix_rfl
  | actionRowEnd =>
    obtain ⟨row, -, rfl⟩ := Option.map_eq_some_iff.mp hstep
    exact List.prefix_append _ _
  | action frame source destinations =>
    obtain rfl := Option.some.inj hstep
    exact prefix_broadcastToKeys _ frame true false
  | lifecycleEvent frame ev =>
    obtain rfl := Option.some.inj hstep
    exact prefix_broadcastToKeys _ frame true true
  | entityUpdate frame key =>
    obtain rfl := Option.some.inj hstep
    exact prefix_broadcastToKeys [key] frame true false
  | other frame keys =>
    obtain rfl := Option.some.inj hstep
    exact prefix_broadcastToKeys keys frame false false
  | replayAction id owed frame source destinations =>
    obtain rfl := Option.some.inj hstep
    exact prefix_sendToTargets id frame _
  | replayLifecycle id owed frame ev =>
    obtain rfl := Option.some.inj hstep
    exact prefix_sendToTargets id frame _

theorem prefix_run {ops : List Op}
    (hrun : Runs.run (step stringify maxSubscriptions maxBackpressure coin) s ops = some s') :
    s.journal <+: s'.journal := by
  refine Runs.run_inv' (I := fun t => s.journal <+: t.journal) ?_ List.prefix_rfl hrun
  intro t op t' h hstep
  exact h.trans (prefix_step hstep)

variable (maxBackpressure) in
theorem consistent_broadcastToKeys (h : Consistent stringify maxSubscriptions s.registry) (keys : List Text)
    (frame : Frame) (ofRow replayed : Bool) :
    Consistent stringify maxSubscriptions (broadcastToKeys maxBackpressure s keys frame ofRow replayed).registry := by
  induction keys generalizing s with
  | nil => exact h
  | cons key keys ih =>
    obtain ⟨ids, hids⟩ := registry_broadcast s maxBackpressure key frame ofRow replayed
    have hone : Consistent stringify maxSubscriptions
        (broadcastToChannelKey maxBackpressure s key frame ofRow replayed).registry :=
      hids ▸ h.removeOnceSubscriptions key ids
    exact ih hone

theorem consistent_sendToTargets (h : Consistent stringify maxSubscriptions s.registry) (id : ℕ) (frame : Frame)
    (targets : List (Text × Filter)) :
    Consistent stringify maxSubscriptions (sendToTargets s id frame targets).registry := by
  induction targets generalizing s with
  | nil => exact h
  | cons target targets ih =>
    refine ih ?_
    unfold sendToTarget
    split
    · dsimp only
      split
      · exact h.removeOnceSubscriptions target.1 [id]
      · exact h
    · exact h

/-- The two indexes of the subscriptions agree all through a fan-out. -/
theorem consistent_step (h : Consistent stringify maxSubscriptions s.registry) {op : Op}
    (hstep : step stringify maxSubscriptions maxBackpressure coin s op = some s') :
    Consistent stringify maxSubscriptions s'.registry := by
  unfold Broadcaster.step at hstep
  cases op with
  | connect =>
    obtain ⟨r', hr', rfl⟩ := Option.map_eq_some_iff.mp hstep
    exact h.step hr'
  | subscribe id channels params =>
    obtain ⟨coin', hclient, rfl⟩ := Option.map_eq_some_iff.mp hstep
    have hcoin : s.registry.clients (Client.mk id coin').id = some coin' := hclient
    exact Consistent.subscribe h hcoin channels params
  | unsubscribe id channels params =>
    obtain ⟨r', hr', rfl⟩ := Option.map_eq_some_iff.mp hstep
    exact h.step hr'
  | removeClient id | close id =>
    obtain ⟨r', hr', rfl⟩ := Option.map_eq_some_iff.mp hstep
    exact h.step hr'
  | buffered id amount =>
    obtain rfl := Option.some.inj hstep
    exact h
  | lose id =>
    obtain rfl := Option.some.inj hstep
    exact h
  | actionRowStart =>
    dsimp only at hstep
    split at hstep
    · cases hstep
    · obtain rfl := Option.some.inj hstep
      exact h
  | actionRowEnd =>
    obtain ⟨row, -, rfl⟩ := Option.map_eq_some_iff.mp hstep
    exact h
  | action frame source destinations =>
    obtain rfl := Option.some.inj hstep
    exact consistent_broadcastToKeys maxBackpressure h _ frame true false
  | lifecycleEvent frame ev =>
    obtain rfl := Option.some.inj hstep
    exact consistent_broadcastToKeys maxBackpressure h _ frame true true
  | entityUpdate frame key =>
    obtain rfl := Option.some.inj hstep
    exact consistent_broadcastToKeys maxBackpressure h [key] frame true false
  | other frame keys =>
    obtain rfl := Option.some.inj hstep
    exact consistent_broadcastToKeys maxBackpressure h keys frame false false
  | replayAction id owed frame source destinations =>
    obtain rfl := Option.some.inj hstep
    exact consistent_sendToTargets h id frame _
  | replayLifecycle id owed frame ev =>
    obtain rfl := Option.some.inj hstep
    exact consistent_sendToTargets h id frame _

theorem consistent_run {ops : List Op}
    (hrun : Runs.run (step stringify maxSubscriptions maxBackpressure coin) initial ops = some s) :
    Consistent stringify maxSubscriptions s.registry := by
  refine Runs.run_inv' (I := fun t => Consistent stringify maxSubscriptions t.registry) ?_ consistent_empty hrun
  intro t op t' h hstep
  exact consistent_step h hstep

end runs

end Broadcaster
