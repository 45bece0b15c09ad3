import XChainExplorer.Ws.FanoutSteps

/-! # Once subscriptions

    The life of one subscription as the journal has it: what was done to one key of one client, and
    the filter it is held under after it. A once subscription is spent by the first frame that
    passes its filter, live or replayed, and the client is told of it with the next word. -/

namespace Broadcaster

open JsText ChannelManager Journal

/-! ### The life of a subscription -/

namespace Entry

/-- An entry about a key of a client. -/
def about (c : ℕ) (key : Text) : Entry → Bool
  | .subscribed c' key' _ => decide (c' = c ∧ key' = key)
  | .released c' key' => decide (c' = c ∧ key' = key)
  | .offered o => decide (o.client = c ∧ o.key = key)
  | .replayed c' key' _ _ => decide (c' = c ∧ key' = key)
  | .told c' key' _ => decide (c' = c ∧ key' = key)
  | .rowEnded _ => false

/-- A frame that counts as delivered, or the word that the subscription is gone. -/
def spending : Entry → Bool
  | .offered o => o.outcome.delivered
  | .replayed _ _ _ outcome => outcome.delivered
  | .told _ _ _ => true
  | _ => false

/-- The subscription begins anew or ends at the client's wish. -/
def restarting : Entry → Bool
  | .subscribed _ _ _ | .released _ _ => true
  | _ => false

/-- A frame that passes the filter, and whether it was handed to the socket. -/
inductive Delivers (c : ℕ) (key : Text) (filter : Filter) : Entry → Outcome → Prop where
  | live (o : Offer) (hclient : o.client = c) (hkey : o.key = key) (hpass : passesFilter filter o.frame = true)
      (hdelivered : o.outcome.delivered = true) : Delivers c key filter (.offered o) o.outcome
  | replay (frame : Frame) (outcome : Outcome) (hpass : passesFilter filter frame = true)
      (hdelivered : outcome.delivered = true) : Delivers c key filter (.replayed c key frame outcome) outcome

end Entry

/-- What has been done to a key of a client, and the filter it is held under now. -/
inductive Life (c : ℕ) (key : Text) : List Entry → Option Filter → Prop where
  | fresh : Life c key [] none
  | subscribed {L : List Entry} {f : Option Filter} (g : Filter) (h : Life c key L f) :
      Life c key (L ++ [.subscribed c key g]) (some g)
  | released {L : List Entry} {f : Filter} (h : Life c key L (some f)) :
      Life c key (L ++ [.released c key]) none
  | passed {L : List Entry} {f : Filter} {e : Entry} (h : Life c key L (some f)) (hspend : e.spending = false)
      (hstart : e.restarting = false) : Life c key (L ++ [e]) (some f)
  | delivered {L : List Entry} {f : Filter} {d : Entry} {outcome : Outcome} (h : Life c key L (some f))
      (honce : f.once = false) (hd : d.Delivers c key f outcome) : Life c key (L ++ [d]) (some f)
  | spent {L : List Entry} {f : Filter} {d : Entry} {outcome : Outcome} (h : Life c key L (some f))
      (honce : f.once = true) (hd : d.Delivers c key f outcome) :
      Life c key (L ++ [d] ++ [.told c key (decide (outcome = .handed))]) none

variable {c : ℕ} {key : Text}

theorem Entry.Delivers.spending {f : Filter} {d : Entry} {outcome : Outcome} (h : d.Delivers c key f outcome) :
    d.spending = true := by
  cases h with
  | live o _ _ _ hdelivered => exact hdelivered
  | replay frame outcome _ hdelivered => exact hdelivered

/-- What a once subscription has come to since it was last subscribed. -/
inductive Period (c : ℕ) (key : Text) (g : Filter) (mid : List Entry) (f : Option Filter) : Prop where
  /-- Nothing has spent it. -/
  | held (hnone : ∀ e ∈ mid, e.spending = false) (hf : f = some g)
  /-- One frame has, and the client was told. -/
  | spent (d : Entry) (outcome : Outcome) (hd : d.Delivers c key g outcome)
      (hspent : mid.filter Entry.spending = [d, .told c key (decide (outcome = .handed))]) (hf : f = none)

/-- From a subscribe on, and until the next or a release, one frame at most is delivered. -/
theorem Life.period {L : List Entry} {f : Option Filter} (h : Life c key L f) :
    ∀ pre mid g, L = pre ++ .subscribed c key g :: mid → g.once = true → (∀ e ∈ mid, e.restarting = false) →
      Period c key g mid f := by
  induction h with
  | fresh =>
    intro pre mid g heq
    simp at heq
  | @subscribed L f g' _ _ =>
    intro pre mid g heq honce hmid
    rcases concat_eq_append_cons heq with ⟨mid', rfl, -⟩ | ⟨rfl, -, hlast⟩
    · have hrestart := hmid (.subscribed c key g') (by simp)
      cases hrestart
    · obtain ⟨-, -, rfl⟩ := Entry.subscribed.inj hlast
      exact .held (by simp) rfl
  | released _ _ =>
    intro pre mid g heq honce hmid
    rcases concat_eq_append_cons heq with ⟨mid', rfl, -⟩ | ⟨-, -, hlast⟩
    · have hrestart := hmid (.released c key) (by simp)
      cases hrestart
    · cases hlast
  | @passed L f e _ hspend hstart ih =>
    intro pre mid g heq honce hmid
    rcases concat_eq_append_cons heq with ⟨mid', rfl, hL⟩ | ⟨-, -, hlast⟩
    · rcases ih pre mid' g hL honce (fun x hx => hmid x (by simp [hx])) with ⟨hnone, hf⟩ | ⟨-, -, -, -, hf⟩
      · refine .held ?_ hf
        intro x hx
        rcases List.mem_append.mp hx with hx | hx
        · exact hnone x hx
        · exact List.mem_singleton.mp hx ▸ hspend
      · cases hf
    · rw [← hlast] at hstart
      cases hstart
  | @delivered L f d outcome _ honce' hd ih =>
    intro pre mid g heq honce hmid
    rcases concat_eq_append_cons heq with ⟨mid', rfl, hL⟩ | ⟨-, -, hlast⟩
    · rcases ih pre mid' g hL honce (fun x hx => hmid x (by simp [hx])) with ⟨-, hf⟩ | ⟨-, -, -, -, hf⟩
      · obtain rfl := Option.some.inj hf
        rw [honce'] at honce
        cases honce
      · cases hf
    · have hspending := hd.spending
      rw [← hlast] at hspending
      cases hspending
  | @spent L f d outcome _ honce' hd ih =>
    intro pre mid g heq honce hmid
    rcases concat_eq_append_cons heq with ⟨mid', rfl, heq'⟩ | ⟨-, -, hlast⟩
    · rcases concat_eq_append_cons heq' with ⟨mid', rfl, hL⟩ | ⟨-, -, hlast⟩
      · rcases ih pre mid' g hL honce (fun x hx => hmid x (by simp [hx])) with ⟨hnone, hf⟩ | ⟨-, -, -, -, hf⟩
        · obtain rfl := Option.some.inj hf
          refine .spent d outcome hd ?_ rfl
          have hold : mid'.filter Entry.spending = [] := by
            rw [List.filter_eq_nil_iff]
            intro x hx
            simp [hnone x hx]
          have hspending := hd.spending
          rw [List.filter_append, List.filter_append, hold, List.filter_cons_of_pos hspending,
            List.filter_cons_of_pos (by rfl)]
          rfl
        · cases hf
      · have hspending := hd.spending
        rw [← hlast] at hspending
        cases hspending
    · cases hlast

/-! ### One fan-out -/

section offer
variable {s : State} {maxBackpressure id : ℕ} {frame : Frame} {ofRow replayed : Bool} {filter : Filter}

/-- What an offer that counts as delivered says, and that it leaves the sockets. -/
theorem offerTo_delivered
    (h : (offerTo maxBackpressure s key frame ofRow replayed id filter).2.delivered = true) :
    passesFilter filter frame = true ∧
      (offerTo maxBackpressure s key frame ofRow replayed id filter).2 = sendOutcome (s.sockets id) ∧
      (offerTo maxBackpressure s key frame ofRow replayed id filter).1.sockets = s.sockets := by
  unfold offerTo at h ⊢
  split at h
  · cases h
  · rename_i hskip
    rw [if_neg hskip]
    cases hpass : passesFilter filter frame with
    | false =>
      unfold deliverToSubscriber at h
      rw [hpass] at h
      cases h
    | true =>
      by_cases hrow : ofRow = false ∨ s.row = none
      · rw [deliver_other hpass hrow] at h ⊢
        split at h
        · cases h
        · rename_i hfits
          rw [if_neg hfits]
          exact ⟨rfl, rfl, rfl⟩
      · rw [not_or, Bool.not_eq_false] at hrow
        obtain ⟨row, hrow'⟩ := Option.ne_none_iff_exists'.mp hrow.2
        rw [hrow.1, deliver_row hpass hrow'] at h ⊢
        cases hadmission : row.admissions id with
        | some admitted =>
          rw [hadmission] at h
          cases admitted with
          | false => cases h
          | true => exact ⟨rfl, rfl, rfl⟩
        | none =>
          rw [hadmission] at h
          dsimp only at h ⊢
          split at h
          · rename_i hfits
            rw [if_pos hfits]
            exact ⟨rfl, rfl, rfl⟩
          · cases h

theorem sockets_offerTo (hid : c ≠ id) :
    (offerTo maxBackpressure s key frame ofRow replayed id filter).1.sockets c = s.sockets c := by
  unfold offerTo
  split
  · rfl
  · cases hpass : passesFilter filter frame with
    | false =>
      unfold deliverToSubscriber
      rw [hpass]
      rfl
    | true =>
      by_cases hrow : ofRow = false ∨ s.row = none
      · rw [deliver_other hpass hrow]
        split
        · exact Function.update_of_ne hid ..
        · rfl
      · rw [not_or, Bool.not_eq_false] at hrow
        obtain ⟨row, hrow'⟩ := Option.ne_none_iff_exists'.mp hrow.2
        rw [hrow.1, deliver_row hpass hrow']
        split
        · rfl
        · rfl
        · split
          · rfl
          · exact Function.update_of_ne hid ..

theorem sendOutcome_handed (socket : Socket) : decide (sendOutcome socket = .handed) = socket.isOpen := by
  unfold sendOutcome
  cases socket.isOpen <;> rfl

/-- The entries of another key or of another client stay out of the journal of this one. -/
theorem about_offerEntry {c' : ℕ} {key' : Text} (h : key ≠ key' ∨ id ≠ c') (outcome : Outcome) :
    (offerEntry s id key frame ofRow outcome).about c' key' = false := by
  simp only [offerEntry, Entry.about, decide_eq_false_iff_not]
  rintro ⟨hid, hkey⟩
  rcases h with h | h
  · exact h hkey
  · exact h hid

theorem about_offerAll_of_absent {c' : ℕ} {key' : Text} {subscribers : List (Sigma fun _ : ℕ => Filter)}
    (h : key ≠ key' ∨ c' ∉ subscribers.map Sigma.fst) (toRemove : List ℕ) :
    (offerAll maxBackpressure key frame ofRow replayed s toRemove subscribers).1.journal.filter (Entry.about c' key') =
      s.journal.filter (Entry.about c' key') := by
  induction subscribers generalizing s toRemove with
  | nil => rfl
  | cons subscriber subscribers ih =>
    obtain ⟨id, filter⟩ := subscriber
    have hrest : key ≠ key' ∨ c' ∉ subscribers.map Sigma.fst := h.imp_right fun hmem hin => hmem (by simp [hin])
    have hhead : key ≠ key' ∨ id ≠ c' := h.imp_right fun hmem heq => hmem (by simp [heq])
    unfold offerAll
    split
    · rw [ih hrest, journal_afterOffer, List.filter_append]
      simp [about_offerEntry hhead]
    · exact ih hrest _

theorem count_offerAll_of_absent {subscribers : List (Sigma fun _ : ℕ => Filter)}
    (h : c ∉ subscribers.map Sigma.fst) (toRemove : List ℕ) :
    (offerAll maxBackpressure key frame ofRow replayed s toRemove subscribers).2.count c = toRemove.count c := by
  induction subscribers generalizing s toRemove with
  | nil => rfl
  | cons subscriber subscribers ih =>
    obtain ⟨id, filter⟩ := subscriber
    have hrest : c ∉ subscribers.map Sigma.fst := fun hin => h (by simp [hin])
    have hid : id ≠ c := fun heq => h (by simp [heq])
    unfold offerAll
    split
    · rw [ih hrest]
      split
      · rw [List.count_append, List.count_singleton]
        simp [hid]
      · rfl
    · exact ih hrest _

theorem sockets_offerAll_of_absent {subscribers : List (Sigma fun _ : ℕ => Filter)}
    (h : c ∉ subscribers.map Sigma.fst) (toRemove : List ℕ) :
    (offerAll maxBackpressure key frame ofRow replayed s toRemove subscribers).1.sockets c = s.sockets c := by
  induction subscribers generalizing s toRemove with
  | nil => rfl
  | cons subscriber subscribers ih =>
    obtain ⟨id, filter⟩ := subscriber
    have hrest : c ∉ subscribers.map Sigma.fst := fun hin => h (by simp [hin])
    have hid : c ≠ id := fun heq => h (by simp [heq])
    unfold offerAll
    split
    · rw [ih hrest]
      exact sockets_offerTo hid
    · exact ih hrest _

variable (key maxBackpressure frame ofRow replayed) in
/-- What a fan-out comes to for one subscriber. -/
theorem offerAll_subscriber {subscribers : List (Sigma fun _ : ℕ => Filter)}
    (hnodup : (subscribers.map Sigma.fst).Nodup) (hmem : ⟨c, filter⟩ ∈ subscribers)
    (hclient : (s.registry.clients c).isSome = true) (toRemove : List ℕ) :
    ∃ o : Offer, o.client = c ∧ o.key = key ∧ o.frame = frame ∧
      (offerAll maxBackpressure key frame ofRow replayed s toRemove subscribers).1.journal.filter
        (Entry.about c key) = s.journal.filter (Entry.about c key) ++ [.offered o] ∧
      (o.outcome.delivered = true → passesFilter filter frame = true ∧
        ((offerAll maxBackpressure key frame ofRow replayed s toRemove subscribers).1.sockets c).isOpen =
          decide (o.outcome = .handed)) ∧
      (offerAll maxBackpressure key frame ofRow replayed s toRemove subscribers).2.count c =
        toRemove.count c + if o.outcome.delivered && filter.once then 1 else 0 := by
  induction subscribers generalizing s toRemove with
  | nil => simp at hmem
  | cons subscriber subscribers ih =>
    obtain ⟨id, filter'⟩ := subscriber
    rw [List.map_cons, List.nodup_cons] at hnodup
    unfold offerAll
    rcases List.mem_cons.mp hmem with heq | hmem
    · cases heq
      rw [if_pos hclient]
      refine ⟨⟨c, key, frame, ofRow, s.row.map Row.number,
        (offerTo maxBackpressure s key frame ofRow replayed c filter).2⟩, rfl, rfl, rfl, ?_, ?_, ?_⟩
      · rw [about_offerAll_of_absent (.inr hnodup.1), journal_afterOffer, List.filter_append]
        simp [offerEntry, Entry.about]
      · intro hdelivered
        obtain ⟨hpass, hout, hsockets⟩ := offerTo_delivered hdelivered
        refine ⟨hpass, ?_⟩
        rw [sockets_offerAll_of_absent hnodup.1]
        dsimp only
        rw [hout, sendOutcome_handed]
        exact congrArg (fun sockets : ℕ → Socket => (sockets c).isOpen) hsockets
      · rw [count_offerAll_of_absent hnodup.1]
        dsimp only
        split
        · simp
        · rfl
    · have hid : id ≠ c := by
        rintro rfl
        exact hnodup.1 (List.mem_map.mpr ⟨_, hmem, rfl⟩)
      split
      · have hclient' := hclient
        rw [← registry_afterOffer maxBackpressure id key frame ofRow replayed filter'] at hclient'
        obtain ⟨o, hc, hk, hf, habout, hdelivered, hcount⟩ := ih hnodup.2 hmem hclient'
          (if (offerTo maxBackpressure s key frame ofRow replayed id filter').2.delivered && filter'.once
            then toRemove ++ [id] else toRemove)
        refine ⟨o, hc, hk, hf, ?_, hdelivered, ?_⟩
        · rw [habout, journal_afterOffer, List.filter_append]
          simp [about_offerEntry (.inr hid)]
        · rw [hcount]
          congr 1
          split
          · rw [List.count_append, List.count_singleton]
            simp [hid]
          · rfl
      · exact ih hnodup.2 hmem hclient _

end offer

/-! ### The two indexes and the journal -/

/-- Every subscription has a life that ends in the filter it is held under. -/
def Lives (s : State) : Prop :=
  ∀ c key, Life c key (s.journal.filter (Entry.about c key)) (s.registry.filterAt key c)

theorem lives_initial : Lives initial := fun _ _ => .fresh

section told
variable {s : State}

/-- The word to the clients of a walk, as far as it concerns one client. -/
theorem about_toldEntries (ids : List ℕ) (c : ℕ) (key : Text) :
    (toldEntries s key ids).filter (Entry.about c key) =
      if (parseChannelKey key).isSome ∧ (s.registry.clients c).isSome then
        List.replicate (ids.count c) (.told c key (s.sockets c).isOpen)
      else [] := by
  unfold toldEntries
  cases hparse : parseChannelKey key with
  | none => simp
  | some parsed =>
    simp only [Option.isNone_some, Bool.false_eq_true, if_false, Option.isSome_some, true_and]
    induction ids with
    | nil => simp
    | cons id ids ih =>
      rw [List.filter_cons]
      by_cases hid : id = c
      · subst hid
        cases hclient : s.registry.clients id with
        | none =>
          simp only [hclient, Option.isSome_none, Bool.false_eq_true, if_false] at ih ⊢
          exact ih
        | some coin =>
          simp only [hclient, Option.isSome_some, if_true] at ih ⊢
          rw [List.map_cons, List.filter_cons_of_pos (by simp [Entry.about]), ih, List.count_cons_self,
            List.replicate_succ]
      · rw [List.count_cons_of_ne hid]
        split
        · rw [List.map_cons, List.filter_cons_of_neg (by simp [Entry.about, hid])]
          exact ih
        · exact ih

theorem about_toldEntries_of_ne {key key' : Text} (hkey : key ≠ key') (ids : List ℕ) (c : ℕ) :
    (toldEntries s key ids).filter (Entry.about c key') = [] := by
  unfold toldEntries
  split
  · rfl
  · rw [List.filter_eq_nil_iff]
    intro e he
    obtain ⟨id, -, rfl⟩ := List.mem_map.mp he
    simp [Entry.about, hkey]

variable (s) in
/-- A walk that names a client once, under a key that it holds, takes the key and tells it. -/
theorem removeOnce_one {ids : List ℕ} (hparse : (parseChannelKey key).isSome = true)
    (hclient : (s.registry.clients c).isSome = true) (hcount : ids.count c = 1) :
    (removeOnce s key ids).journal.filter (Entry.about c key) =
      s.journal.filter (Entry.about c key) ++ [.told c key (s.sockets c).isOpen] ∧
    (removeOnce s key ids).registry.filterAt key c = none := by
  constructor
  · have htold := about_toldEntries (s := s) ids c key
    rw [if_pos ⟨hparse, hclient⟩, hcount] at htold
    unfold removeOnce State.note
    dsimp only
    rw [List.filter_append, htold]
    rfl
  · have hmem : c ∈ ids := List.count_pos_iff.mp (by omega)
    exact (filterAt_removeOnce_of_parse hparse ids s.registry key c).trans (if_pos ⟨rfl, hmem⟩)

variable (s) in
/-- A walk that does not name a client changes nothing for it, and none for another key. -/
theorem removeOnce_other (key key' : Text) {ids : List ℕ} (h : key ≠ key' ∨ ids.count c = 0) :
    (removeOnce s key ids).journal.filter (Entry.about c key') = s.journal.filter (Entry.about c key') ∧
      (removeOnce s key ids).registry.filterAt key' c = s.registry.filterAt key' c := by
  constructor
  · have htold : (toldEntries s key ids).filter (Entry.about c key') = [] := by
      by_cases hkey : key = key'
      · subst hkey
        rw [about_toldEntries, h.resolve_left (by simp)]
        simp
      · exact about_toldEntries_of_ne hkey ids c
    unfold removeOnce State.note
    dsimp only
    rw [List.filter_append, htold, List.append_nil]
  · refine filterAt_removeOnce ?_ s.registry
    rcases h with h | h
    · exact .inl (Ne.symm h)
    · exact .inr (List.count_eq_zero.mp h)

end told

section steps
variable {stringify : Json → Text} {maxSubscriptions maxBackpressure : ℕ} {s : State}

/-- A client that holds a key is there, and the key can be read back. -/
theorem held_of_filterAt (h : Consistent stringify maxSubscriptions s.registry) {f : Filter}
    (hf : s.registry.filterAt key c = some f) :
    (s.registry.clients c).isSome = true ∧ (parseChannelKey key).isSome = true := by
  have hheld : key ∈ s.registry.held c := (h.mirrored key c).mpr (by rw [hf]; rfl)
  obtain ⟨coin, e, hclient, hnamed, hkey⟩ := h.named c key hheld
  have hparse : parseChannelKey key = _ := parse_build hnamed.fits hkey
  rw [hclient, hparse]
  exact ⟨rfl, rfl⟩

theorem Lives.broadcastToChannelKey (hcons : Consistent stringify maxSubscriptions s.registry) (h : Lives s)
    (key : Text) (frame : Frame) (ofRow replayed : Bool) :
    Lives (broadcastToChannelKey maxBackpressure s key frame ofRow replayed) := by
  intro c key'
  let done := offerAll maxBackpressure key frame ofRow replayed s [] (s.registry.getSubscribers key).entries
  have hregistry : done.1.registry = s.registry := registry_offerAll _ _
  have hnodup : ((s.registry.getSubscribers key).entries.map Sigma.fst).Nodup :=
    (s.registry.getSubscribers key).nodupKeys
  change Life c key' ((removeOnce done.1 key done.2).journal.filter (Entry.about c key'))
    ((removeOnce done.1 key done.2).registry.filterAt key' c)
  by_cases hother : key ≠ key' ∨ c ∉ (s.registry.getSubscribers key).entries.map Sigma.fst
  · have habout : done.1.journal.filter (Entry.about c key') = s.journal.filter (Entry.about c key') :=
      about_offerAll_of_absent hother []
    have hcount : key ≠ key' ∨ done.2.count c = 0 := hother.imp_right fun hmem => by
      have hsame : done.2.count c = ([] : List ℕ).count c := count_offerAll_of_absent hmem []
      rw [hsame, List.count_nil]
    have hkept := removeOnce_other done.1 key key' hcount
    rw [hkept.1, hkept.2, habout, hregistry]
    exact h c key'
  · obtain ⟨hkey, hmem⟩ := not_or.mp hother
    obtain rfl := not_not.mp hkey
    obtain ⟨⟨id, f⟩, hin, rfl⟩ := List.mem_map.mp (not_not.mp hmem)
    have hf : s.registry.filterAt key id = some f := KeyedMap.mem_lookup_iff_mem.mpr hin
    obtain ⟨hclient, hparse⟩ := held_of_filterAt hcons hf
    obtain ⟨o, hc, hk, hframe, habout, hdelivered, hcount⟩ :=
      offerAll_subscriber key maxBackpressure frame ofRow replayed hnodup hin hclient []
    have hlife := h id key
    rw [hf] at hlife
    rw [List.count_nil, Nat.zero_add] at hcount
    by_cases hspent : (o.outcome.delivered && f.once) = true
    · rw [if_pos hspent] at hcount
      obtain ⟨hout, honce⟩ := Bool.and_eq_true_iff.mp hspent
      obtain ⟨hpass, hopen⟩ := hdelivered hout
      have hone := removeOnce_one done.1 hparse (hregistry ▸ hclient) hcount
      rw [hone.1, hone.2, habout, hopen]
      exact .spent hlife honce (.live o hc hk (hframe ▸ hpass) hout)
    · rw [if_neg hspent] at hcount
      have hkept := removeOnce_other done.1 key key (.inr hcount)
      rw [hkept.1, hkept.2, habout, hregistry, hf]
      cases hout : o.outcome.delivered with
      | false => exact .passed hlife hout rfl
      | true =>
        obtain ⟨hpass, -⟩ := hdelivered hout
        refine .delivered hlife ?_ (.live o hc hk (hframe ▸ hpass) hout)
        simpa [hout] using hspent

theorem Lives.broadcastToKeys (hcons : Consistent stringify maxSubscriptions s.registry) (h : Lives s)
    (keys : List Text) (frame : Frame) (ofRow replayed : Bool) :
    Lives (broadcastToKeys maxBackpressure s keys frame ofRow replayed) := by
  induction keys generalizing s with
  | nil => exact h
  | cons key keys ih =>
    have hcons' : Consistent stringify maxSubscriptions
        (Broadcaster.broadcastToChannelKey maxBackpressure s key frame ofRow replayed).registry :=
      consistent_broadcastToKeys maxBackpressure hcons [key] frame ofRow replayed
    exact ih hcons' (h.broadcastToChannelKey hcons key frame ofRow replayed)

/-! ### One replayed frame -/

theorem about_replayed {id : ℕ} {key key' : Text} (frame : Frame) (outcome : Outcome) (h : key ≠ key' ∨ id ≠ c) :
    (Entry.replayed id key frame outcome).about c key' = false := by
  simp only [Entry.about, decide_eq_false_iff_not]
  rintro ⟨hid, hkey⟩
  rcases h with h | h
  · exact h hkey
  · exact h hid

/-- A replayed frame at a target changes nothing for another key or another client. -/
theorem sendToTarget_other {id : ℕ} {key' : Text} (frame : Frame) (target : Text × Filter)
    (h : target.1 ≠ key' ∨ id ≠ c) :
    (sendToTarget id frame s target).journal.filter (Entry.about c key') =
      s.journal.filter (Entry.about c key') ∧
    (sendToTarget id frame s target).registry.filterAt key' c = s.registry.filterAt key' c := by
  have hnote : ∀ outcome, (s.note [.replayed id target.1 frame outcome]).journal.filter (Entry.about c key') =
      s.journal.filter (Entry.about c key') := by
    intro outcome
    simp [State.note, List.filter_append, about_replayed frame outcome h]
  have hcount : target.1 ≠ key' ∨ [id].count c = 0 := h.imp_right fun hid => by simp [hid]
  unfold sendToTarget
  split
  · dsimp only
    split
    · have hkept := removeOnce_other (s.note [.replayed id target.1 frame (sendOutcome (s.sockets id))])
        target.1 key' hcount
      exact ⟨hkept.1.trans (hnote _), hkept.2⟩
    · exact ⟨hnote _, rfl⟩
  · exact ⟨hnote _, rfl⟩

/-- A replayed frame at a target that is held as the target says. -/
theorem sendToTarget_self (hcons : Consistent stringify maxSubscriptions s.registry) {id : ℕ} (frame : Frame)
    {target : Text × Filter} (hf : s.registry.filterAt target.1 id = some target.2)
    (hlife : Life id target.1 (s.journal.filter (Entry.about id target.1)) (some target.2)) :
    Life id target.1 ((sendToTarget id frame s target).journal.filter (Entry.about id target.1))
      ((sendToTarget id frame s target).registry.filterAt target.1 id) := by
  have hnote : ∀ outcome, (s.note [.replayed id target.1 frame outcome]).journal.filter
      (Entry.about id target.1) = s.journal.filter (Entry.about id target.1) ++ [.replayed id target.1 frame outcome] := by
    intro outcome
    simp [State.note, List.filter_append, Entry.about]
  obtain ⟨hclient, hparse⟩ := held_of_filterAt hcons hf
  have hout : (sendOutcome (s.sockets id)).delivered = true := by
    unfold sendOutcome
    cases (s.sockets id).isOpen <;> rfl
  unfold sendToTarget
  split
  · rename_i hpass
    dsimp only
    split
    · rename_i honce
      have hcount : [id].count id = 1 := by simp
      have hone := removeOnce_one (s.note [.replayed id target.1 frame (sendOutcome (s.sockets id))]) hparse hclient
        hcount
      rw [hone.1, hone.2, hnote]
      have hsent : (s.sockets id).isOpen = decide (sendOutcome (s.sockets id) = .handed) :=
        (sendOutcome_handed _).symm
      dsimp only [State.note]
      rw [hsent]
      exact .spent hlife honce (.replay frame _ hpass hout)
    · rename_i honce
      rw [hnote]
      change Life id target.1 _ (s.registry.filterAt target.1 id)
      rw [hf]
      exact .delivered hlife (by simpa using honce) (.replay frame _ hpass hout)
  · rw [hnote]
    change Life id target.1 _ (s.registry.filterAt target.1 id)
    rw [hf]
    exact .passed hlife rfl rfl

theorem Lives.sendToTargets (hcons : Consistent stringify maxSubscriptions s.registry) (h : Lives s) (id : ℕ)
    (frame : Frame) {targets : List (Text × Filter)} (hnodup : (targets.map Prod.fst).Nodup)
    (hheld : ∀ target ∈ targets, s.registry.filterAt target.1 id = some target.2) :
    Lives (sendToTargets s id frame targets) := by
  induction targets generalizing s with
  | nil => exact h
  | cons target targets ih =>
    rw [List.map_cons, List.nodup_cons] at hnodup
    have hcons' : Consistent stringify maxSubscriptions (sendToTarget id frame s target).registry :=
      consistent_sendToTargets hcons id frame [target]
    refine ih hcons' ?_ hnodup.2 ?_
    · intro c key
      by_cases hother : target.1 ≠ key ∨ id ≠ c
      · obtain ⟨habout, hfilter⟩ := sendToTarget_other (s := s) frame target hother
        rw [habout, hfilter]
        exact h c key
      · obtain ⟨hkey, hid⟩ := not_or.mp hother
        obtain rfl := not_not.mp hkey
        obtain rfl := not_not.mp hid
        have hf := hheld target (by simp)
        exact sendToTarget_self hcons frame hf (hf ▸ h id target.1)
    · intro target' hmem
      have hne : target.1 ≠ target'.1 := fun heq => hnodup.1 (List.mem_map.mpr ⟨target', hmem, heq.symm⟩)
      rw [(sendToTarget_other (s := s) (c := id) frame target (.inl hne)).2]
      exact hheld target' (by simp [hmem])

/-! ### The routes of a frame name no key twice -/

theorem nodup_distinctAddresses (addresses : List (Option Text)) : (distinctAddresses addresses).Nodup := by
  have hgen : ∀ (xs keys : List Text), keys.Nodup → (xs.foldl addKey keys).Nodup := by
    intro xs
    induction xs with
    | nil => exact fun keys hkeys => hkeys
    | cons x xs ih => exact fun keys hkeys => ih _ (nodup_addKey hkeys x)
  exact hgen _ [] List.nodup_nil

theorem entityChannelKey_injective (coin : Coin) (channel : Channel) :
    Function.Injective (entityChannelKey coin channel) := by
  intro a b h
  exact (List.cons.inj (List.append_cancel_left h)).2

/-- The first letters of a key's channel. -/
def stem (coin : Coin) (key : Text) : Text := (key.drop (coin.1.length + 1)).take 2

theorem stem_prefixed (coin : Coin) (name : Text) : stem coin (prefixed coin.1 name) = name.take 2 := by
  have hdrop : coin.1.drop (coin.1.length + 1) = [] := List.drop_eq_nil_of_le (Nat.le_succ _)
  unfold stem prefixed
  rw [List.drop_append, hdrop]
  simp

theorem stem_channelKey (coin : Coin) (channel : Channel) :
    stem coin (channelKey coin channel) = channel.name.take 2 := stem_prefixed coin channel.name

theorem stem_entityChannelKey (coin : Coin) (channel : Channel) (entityId : Text) :
    stem coin (entityChannelKey coin channel entityId) = channel.name.take 2 := by
  have hlen : 2 ≤ channel.name.length := by cases channel <;> decide
  have hkey : entityChannelKey coin channel entityId = prefixed coin.1 (prefixed channel.name entityId) := by
    simp [entityChannelKey, channelKey, prefixed]
  rw [hkey, stem_prefixed, prefixed, List.take_append_of_le_length hlen]

theorem nodup_addressKeys (coin : Coin) (addresses : List (Option Text)) :
    ((distinctAddresses addresses).map (entityChannelKey coin .address)).Nodup :=
  (nodup_distinctAddresses addresses).map (entityChannelKey_injective coin .address)

theorem nodup_actionChannelKeys (coin : Coin) (source : Option Text) (destinations : List Text) :
    (actionChannelKeys coin source destinations).Nodup := by
  refine List.nodup_cons.mpr ⟨?_, nodup_addressKeys coin _⟩
  intro hmem
  obtain ⟨address, -, heq⟩ := List.mem_map.mp hmem
  have hstem := congrArg (stem coin) heq
  rw [stem_entityChannelKey, stem_channelKey] at hstem
  exact absurd hstem (by decide)

theorem stem_eventKey (coin : Coin) (ev : LifecycleEvent) (channel : EventChannel) :
    stem coin (eventKey coin ev channel) = channel.toChannel.name.take 2 := by
  unfold eventKey
  split
  · exact stem_entityChannelKey coin _ _
  · exact stem_channelKey coin _

theorem nodup_lifecycleChannelKeys (coin : Coin) (ev : LifecycleEvent) : (lifecycleChannelKeys coin ev).Nodup := by
  have hactions : ∀ address, entityChannelKey coin .address address ≠ channelKey coin .actions := by
    intro address heq
    have hstem := congrArg (stem coin) heq
    rw [stem_entityChannelKey, stem_channelKey] at hstem
    exact absurd hstem (by decide)
  unfold lifecycleChannelKeys extractAddresses
  cases ev.channel with
  | none =>
    refine List.nodup_cons.mpr ⟨?_, nodup_addressKeys coin _⟩
    intro hmem
    obtain ⟨address, -, heq⟩ := List.mem_map.mp hmem
    exact hactions address heq
  | some channel =>
    refine List.nodup_cons.mpr ⟨?_, List.nodup_cons.mpr ⟨?_, nodup_addressKeys coin _⟩⟩
    · intro hmem
      rcases List.mem_cons.mp hmem with heq | hmem
      · have hstem := congrArg (stem coin) heq
        rw [stem_eventKey, stem_channelKey] at hstem
        cases channel <;> exact absurd hstem (by decide)
      · obtain ⟨address, -, heq⟩ := List.mem_map.mp hmem
        exact hactions address heq
    · intro hmem
      obtain ⟨address, -, heq⟩ := List.mem_map.mp hmem
      have hstem := congrArg (stem coin) heq
      rw [stem_eventKey, stem_entityChannelKey] at hstem
      cases channel <;> exact absurd hstem (by decide)

theorem mem_replayTargets {id : ℕ} {routeKeys owed : List Text} {target : Text × Filter}
    (h : target ∈ replayTargets s id routeKeys owed) :
    target.1 ∈ routeKeys ∧ s.registry.filterAt target.1 id = some target.2 := by
  obtain ⟨key, hkey, htarget⟩ := List.mem_filterMap.mp h
  split at htarget
  · obtain ⟨f, hf, rfl⟩ := Option.map_eq_some_iff.mp htarget
    exact ⟨hkey, hf⟩
  · cases htarget

theorem nodup_replayTargets (id : ℕ) {routeKeys : List Text} (owed : List Text) (h : routeKeys.Nodup) :
    ((replayTargets s id routeKeys owed).map Prod.fst).Nodup := by
  induction routeKeys with
  | nil => exact List.nodup_nil
  | cons key routeKeys ih =>
    obtain ⟨hnotin, hnodup⟩ := List.nodup_cons.mp h
    have hrest := ih hnodup
    unfold replayTargets at hrest ⊢
    rw [List.filterMap_cons]
    split
    · exact hrest
    · rename_i target htarget
      rw [List.map_cons]
      refine List.nodup_cons.mpr ⟨?_, hrest⟩
      intro hmem
      obtain ⟨target', hmem', heq⟩ := List.mem_map.mp hmem
      have hin : target'.1 ∈ routeKeys := (mem_replayTargets (s := s) hmem').1
      split at htarget
      · obtain ⟨f, -, rfl⟩ := Option.map_eq_some_iff.mp htarget
        rw [heq] at hin
        exact hnotin hin
      · cases htarget

theorem Lives.replay (hcons : Consistent stringify maxSubscriptions s.registry) (h : Lives s) (id : ℕ)
    (frame : Frame) {routeKeys : List Text} (hroute : routeKeys.Nodup) (owed : List Text) :
    Lives (Broadcaster.sendToTargets s id frame (replayTargets s id routeKeys owed)) :=
  h.sendToTargets hcons id frame (nodup_replayTargets id owed hroute) fun _ hmem => (mem_replayTargets hmem).2

/-! ### The client's own requests -/

theorem filter_eq_singleton {keys : List Text} (hnodup : keys.Nodup) (hmem : key ∈ keys) :
    keys.filter (· = key) = [key] := by
  rw [List.filter_eq, hnodup.count, if_pos hmem]
  rfl

theorem Lives.onSubscribe (h : Lives s) (client : Client) (channels params : Json) :
    Lives (onSubscribe stringify maxSubscriptions s client channels params) := by
  intro c key
  cases hresult : subscribe stringify maxSubscriptions s.registry client channels params with
  | mk r' result =>
    have hjournal : (Broadcaster.onSubscribe stringify maxSubscriptions s client channels params).journal =
        s.journal ++ subscribedEntries client result := by
      simp [Broadcaster.onSubscribe, State.note, hresult]
    have hregistry : (Broadcaster.onSubscribe stringify maxSubscriptions s client channels params).registry = r' := by
      simp [Broadcaster.onSubscribe, State.note, hresult]
    rw [hjournal, hregistry, List.filter_append]
    cases result with
    | error failure =>
      obtain rfl := subscribe_failed hresult
      simpa [subscribedEntries] using h c key
    | ok done =>
      obtain ⟨keys, hkeys, hnodup, hfilter⟩ := filterAt_subscribe hresult
      have hentries : subscribedEntries client (.ok done) =
          keys.map fun key => Entry.subscribed client.id key done.filter := by
        have hmap := congrArg (List.filterMap fun k : Option Text =>
          k.map fun key => Entry.subscribed client.id key done.filter) hkeys
        rw [List.filterMap_map, List.filterMap_map] at hmap
        simpa [subscribedEntries, Function.comp_def] using hmap
      rw [hentries, hfilter]
      by_cases hheld : c = client.id ∧ key ∈ keys
      · obtain ⟨rfl, hmem⟩ := hheld
        have hone : (keys.map fun k => Entry.subscribed client.id k done.filter).filter (Entry.about client.id key) =
            [.subscribed client.id key done.filter] := by
          rw [List.filter_map]
          have hfiltered : keys.filter (Entry.about client.id key ∘ fun k =>
              Entry.subscribed client.id k done.filter) = [key] := by
            have heq : keys.filter (Entry.about client.id key ∘ fun k =>
                Entry.subscribed client.id k done.filter) = keys.filter (· = key) := by
              refine List.filter_congr fun k _ => ?_
              simp [Entry.about]
            rw [heq, filter_eq_singleton hnodup hmem]
          rw [hfiltered]
          rfl
        rw [if_pos ⟨rfl, hmem⟩, hone]
        exact .subscribed done.filter (h client.id key)
      · have hnone : (keys.map fun k => Entry.subscribed client.id k done.filter).filter (Entry.about c key) = [] := by
          rw [List.filter_eq_nil_iff]
          intro e he
          obtain ⟨k, hk, rfl⟩ := List.mem_map.mp he
          simp only [Entry.about, decide_eq_true_eq]
          rintro ⟨rfl, rfl⟩
          exact hheld ⟨rfl, hk⟩
        rw [if_neg hheld, hnone, List.append_nil]
        exact h c key

theorem Lives.releasing (hcons : Consistent stringify maxSubscriptions s.registry) (h : Lives s) {id : ℕ}
    {r' : Registry} (hcons' : Consistent stringify maxSubscriptions r') (hshrinks : Shrinks s.registry r' id) :
    Lives (releasing s id r') := by
  intro c key
  have hjournal : (Broadcaster.releasing s id r').journal =
      s.journal ++ ((s.registry.held id).filter (· ∉ r'.held id)).map fun key => .released id key := rfl
  have hregistry : (Broadcaster.releasing s id r').registry = r' := rfl
  rw [hjournal, hregistry, List.filter_append]
  by_cases hgone : c = id ∧ key ∈ s.registry.held id ∧ key ∉ r'.held id
  · obtain ⟨rfl, hheld, hnot⟩ := hgone
    have hone : (((s.registry.held c).filter (· ∉ r'.held c)).map fun k => Entry.released c k).filter
        (Entry.about c key) = [.released c key] := by
      have heq : ((s.registry.held c).filter (· ∉ r'.held c)).filter
          (Entry.about c key ∘ fun k => Entry.released c k) =
          ((s.registry.held c).filter (· ∉ r'.held c)).filter (· = key) := by
        refine List.filter_congr fun k _ => ?_
        simp [Entry.about]
      have hmem : key ∈ (s.registry.held c).filter (· ∉ r'.held c) :=
        List.mem_filter.mpr ⟨hheld, by simpa using hnot⟩
      rw [List.filter_map, heq, filter_eq_singleton ((hcons.nodup c).filter _) hmem]
      rfl
    have hsome := (hcons.mirrored key c).mp hheld
    obtain ⟨f, hf⟩ := Option.isSome_iff_exists.mp hsome
    have hnone : r'.filterAt key c = none := by
      rw [← Option.not_isSome_iff_eq_none, ← hcons'.mirrored]
      exact hnot
    have hlife := h c key
    rw [hf] at hlife
    rw [hone, hnone]
    exact .released hlife
  · have hnone : (((s.registry.held id).filter (· ∉ r'.held id)).map fun k => Entry.released id k).filter
        (Entry.about c key) = [] := by
      rw [List.filter_eq_nil_iff]
      intro e he
      obtain ⟨k, hk, rfl⟩ := List.mem_map.mp he
      obtain ⟨hheld, hnot⟩ := List.mem_filter.mp hk
      simp only [Entry.about, decide_eq_true_eq]
      rintro ⟨rfl, rfl⟩
      exact hgone ⟨rfl, hheld, by simpa using hnot⟩
    have hsame : r'.filterAt key c = s.registry.filterAt key c := by
      rcases hshrinks key c with heq | ⟨rfl, hnone'⟩
      · exact heq
      · rw [hnone', eq_comm, ← Option.not_isSome_iff_eq_none, ← hcons.mirrored]
        intro hheld
        refine hgone ⟨rfl, hheld, ?_⟩
        rw [hcons'.mirrored, hnone']
        simp
    rw [hnone, hsame, List.append_nil]
    exact h c key

/-! ### Every run -/

variable {coin : Coin} {s' : State}

theorem Lives.step (hcons : Consistent stringify maxSubscriptions s.registry) (h : Lives s) {op : Op}
    (hstep : step stringify maxSubscriptions maxBackpressure coin s op = some s') : Lives s' := by
  have hcons' := consistent_step hcons hstep
  unfold Broadcaster.step at hstep
  cases op with
  | connect =>
    obtain ⟨r', hr', rfl⟩ := Option.map_eq_some_iff.mp hstep
    obtain rfl := Option.some.inj hr'
    exact h
  | subscribe id channels params =>
    obtain ⟨coin', -, rfl⟩ := Option.map_eq_some_iff.mp hstep
    exact h.onSubscribe ⟨id, coin'⟩ channels params
  | unsubscribe id channels params =>
    obtain ⟨r', hr', rfl⟩ := Option.map_eq_some_iff.mp hstep
    obtain ⟨coin', -, rfl⟩ := Option.map_eq_some_iff.mp hr'
    exact h.releasing hcons hcons' (shrinks_unsubscribe stringify ⟨id, coin'⟩ params channels s.registry _)
  | removeClient id | close id =>
    obtain ⟨r', hr', rfl⟩ := Option.map_eq_some_iff.mp hstep
    obtain rfl := Option.some.inj hr'
    exact h.releasing hcons hcons' (shrinks_removeClient s.registry id)
  | buffered id amount =>
    obtain rfl := Option.some.inj hstep
    exact h
  | lose id =>
    obtain rfl := Option.some.inj hstep
    exact h
  | actionRowStart =>
    dsimp only at hstep
    split at hstep
    · cases hstep
    · obtain rfl := Option.some.inj hstep
      exact h
  | actionRowEnd =>
    obtain ⟨row, -, rfl⟩ := Option.map_eq_some_iff.mp hstep
    intro c key
    simpa [onActionRowEnd, State.note, List.filter_append, Entry.about] using h c key
  | action frame source destinations =>
    obtain rfl := Option.some.inj hstep
    exact h.broadcastToKeys hcons _ frame true false
  | lifecycleEvent frame ev =>
    obtain rfl := Option.some.inj hstep
    exact h.broadcastToKeys hcons _ frame true true
  | entityUpdate frame key =>
    obtain rfl := Option.some.inj hstep
    exact h.broadcastToKeys hcons [key] frame true false
  | other frame keys =>
    obtain rfl := Option.some.inj hstep
    exact h.broadcastToKeys hcons keys frame false false
  | replayAction id owed frame source destinations =>
    obtain rfl := Option.some.inj hstep
    exact h.replay hcons id frame (nodup_actionChannelKeys coin source destinations) owed
  | replayLifecycle id owed frame ev =>
    obtain rfl := Option.some.inj hstep
    exact h.replay hcons id frame (nodup_lifecycleChannelKeys coin ev) owed

theorem lives_run {ops : List Op}
    (hrun : Runs.run (step stringify maxSubscriptions maxBackpressure coin) initial ops = some s) : Lives s := by
  have hboth : Consistent stringify maxSubscriptions s.registry ∧ Lives s := by
    refine Runs.run_inv' (I := fun t => Consistent stringify maxSubscriptions t.registry ∧ Lives t) ?_
      ⟨consistent_empty, lives_initial⟩ hrun
    rintro t op t' ⟨hcons, h⟩ hstep
    exact ⟨consistent_step hcons hstep, h.step hcons hstep⟩
  exact hboth.2

/-! ### A socket that has closed stays closed -/

/-- A word that was not sent is one that found the socket closed. -/
def Unsent (s : State) : Prop := ∀ c key, .told c key false ∈ s.journal → (s.sockets c).isOpen = false

theorem closed_skip (socket : Socket) (h : socket.isOpen = false) (deferClose : Bool) :
    (noteBackpressureSkip socket deferClose).isOpen = false := by
  unfold noteBackpressureSkip shedBackedUpClient
  split
  · exact h
  · split
    · exact h
    · rfl

theorem closed_offerTo {id : ℕ} {frame : Frame} {ofRow replayed : Bool} {filter : Filter}
    (h : (s.sockets c).isOpen = false) :
    ((offerTo maxBackpressure s key frame ofRow replayed id filter).1.sockets c).isOpen = false := by
  by_cases hid : c = id
  · subst hid
    unfold offerTo
    split
    · exact h
    · cases hpass : passesFilter filter frame with
      | false =>
        unfold deliverToSubscriber
        rw [hpass]
        exact h
      | true =>
        by_cases hrow : ofRow = false ∨ s.row = none
        · rw [deliver_other hpass hrow]
          split
          · dsimp only
            rw [Function.update_self]
            exact closed_skip _ h _
          · exact h
        · rw [not_or, Bool.not_eq_false] at hrow
          obtain ⟨row, hrow'⟩ := Option.ne_none_iff_exists'.mp hrow.2
          rw [hrow.1, deliver_row hpass hrow']
          split
          · exact h
          · exact h
          · split
            · exact h
            · dsimp only
              rw [Function.update_self]
              exact closed_skip _ h _
  · rw [sockets_offerTo hid]
    exact h

theorem Unsent.removeOnce (h : Unsent s) (key : Text) (ids : List ℕ) : Unsent (removeOnce s key ids) := by
  intro c key' hmem
  rcases List.mem_append.mp hmem with hmem | hmem
  · exact h c key' hmem
  · unfold toldEntries at hmem
    split at hmem
    · cases hmem
    · obtain ⟨id, -, heq⟩ := List.mem_map.mp hmem
      obtain ⟨rfl, -, hopen⟩ := Entry.told.inj heq
      exact hopen

theorem Unsent.sendToTargets (h : Unsent s) (id : ℕ) (frame : Frame) (targets : List (Text × Filter)) :
    Unsent (Broadcaster.sendToTargets s id frame targets) := by
  induction targets generalizing s with
  | nil => exact h
  | cons target targets ih =>
    have hnote : ∀ outcome, Unsent (s.note [.replayed id target.1 frame outcome]) := by
      intro outcome c key hmem
      rcases List.mem_append.mp hmem with hmem | hmem
      · exact h c key hmem
      · cases List.mem_singleton.mp hmem
    refine ih ?_
    unfold sendToTarget
    split
    · dsimp only
      split
      · exact (hnote _).removeOnce target.1 [id]
      · exact hnote _
    · exact hnote _

theorem Unsent.broadcastToKeys (h : Unsent s) (keys : List Text) (frame : Frame) (ofRow replayed : Bool) :
    Unsent (broadcastToKeys maxBackpressure s keys frame ofRow replayed) := by
  induction keys generalizing s with
  | nil => exact h
  | cons key keys ih =>
    refine ih ?_
    have hoffered : Unsent (offerAll maxBackpressure key frame ofRow replayed s []
        (s.registry.getSubscribers key).entries).1 := by
      refine offerAll_inv ?_ _ [] h
      intro s id filter h _ c key' hmem
      rw [journal_afterOffer, List.mem_append] at hmem
      rcases hmem with hmem | hmem
      · exact closed_offerTo (h c key' hmem)
      · cases List.mem_singleton.mp hmem
    exact hoffered.removeOnce key _

theorem Unsent.note (h : Unsent s) {r : Registry} {row : Option Row} {entries : List Entry}
    (hentries : ∀ e ∈ entries, ∀ c key sent, e ≠ .told c key sent) :
    Unsent (State.note { s with registry := r, row := row } entries) := by
  intro c key hmem
  rcases List.mem_append.mp hmem with hmem | hmem
  · exact h c key hmem
  · exact absurd rfl (hentries _ hmem c key false)

theorem Unsent.releasing (h : Unsent s) (id : ℕ) (r' : Registry) : Unsent (releasing s id r') := by
  refine h.note ?_
  rintro e he c key sent rfl
  obtain ⟨k, -, heq⟩ := List.mem_map.mp he
  cases heq

theorem Unsent.step (h : Unsent s) {op : Op}
    (hstep : step stringify maxSubscriptions maxBackpressure coin s op = some s') : Unsent s' := by
  unfold Broadcaster.step at hstep
  cases op with
  | connect =>
    obtain ⟨r', -, rfl⟩ := Option.map_eq_some_iff.mp hstep
    exact h
  | subscribe id channels params =>
    obtain ⟨coin', -, rfl⟩ := Option.map_eq_some_iff.mp hstep
    refine h.note ?_
    rintro e he c key sent rfl
    unfold subscribedEntries at he
    split at he
    · obtain ⟨entry, -, hentry⟩ := List.mem_filterMap.mp he
      obtain ⟨k, -, heq⟩ := Option.map_eq_some_iff.mp hentry
      cases heq
    · cases he
  | unsubscribe id channels params =>
    obtain ⟨r', -, rfl⟩ := Option.map_eq_some_iff.mp hstep
    exact h.releasing id r'
  | removeClient id | close id =>
    obtain ⟨r', -, rfl⟩ := Option.map_eq_some_iff.mp hstep
    exact h.releasing id r'
  | buffered id amount =>
    obtain rfl := Option.some.inj hstep
    intro c key hmem
    have hclosed := h c key hmem
    by_cases hid : c = id
    · subst hid
      simpa using hclosed
    · simpa [Function.update_of_ne hid] using hclosed
  | lose id =>
    obtain rfl := Option.some.inj hstep
    intro c key hmem
    have hclosed := h c key hmem
    by_cases hid : c = id
    · subst hid
      simp
    · simpa [Function.update_of_ne hid] using hclosed
  | actionRowStart =>
    dsimp only at hstep
    split at hstep
    · cases hstep
    · obtain rfl := Option.some.inj hstep
      exact h
  | actionRowEnd =>
    obtain ⟨row, -, rfl⟩ := Option.map_eq_some_iff.mp hstep
    intro c key hmem
    have hold : Entry.told c key false ∈ s.journal := by simpa [onActionRowEnd, State.note] using hmem
    have hclosed := h c key hold
    dsimp only [onActionRowEnd, State.note]
    split
    · exact closed_skip { s.sockets c with backpressureClosePending := false } hclosed false
    · exact hclosed
  | action frame source destinations =>
    obtain rfl := Option.some.inj hstep
    exact h.broadcastToKeys _ frame true false
  | lifecycleEvent frame ev =>
    obtain rfl := Option.some.inj hstep
    exact h.broadcastToKeys _ frame true true
  | entityUpdate frame key =>
    obtain rfl := Option.some.inj hstep
    exact h.broadcastToKeys [key] frame true false
  | other frame keys =>
    obtain rfl := Option.some.inj hstep
    exact h.broadcastToKeys keys frame false false
  | replayAction id owed frame source destinations =>
    obtain rfl := Option.some.inj hstep
    exact h.sendToTargets id frame _
  | replayLifecycle id owed frame ev =>
    obtain rfl := Option.some.inj hstep
    exact h.sendToTargets id frame _

theorem unsent_run {ops : List Op}
    (hrun : Runs.run (step stringify maxSubscriptions maxBackpressure coin) initial ops = some s) : Unsent s := by
  refine Runs.run_inv' (I := Unsent) ?_ ?_ hrun
  · intro t op t' h hstep
    exact h.step hstep
  · intro c key hmem
    cases hmem

/-- From the moment that a key is held once to its next subscribe or release, over every
    interleaving of live frames and replayed ones: either nothing has spent it and it is held still,
    or one frame that passes its filter has been delivered, live or replayed, and the client was told
    with one word after it. Both went to the socket together, and they did if it is open still. -/
theorem once_delivers_once {ops : List Op}
    (hrun : Runs.run (step stringify maxSubscriptions maxBackpressure coin) initial ops = some s) {f : Filter}
    {pre mid : List Entry} (hjournal : s.journal = pre ++ .subscribed c key f :: mid) (honce : f.once = true)
    (hmid : ∀ e ∈ mid, e.about c key = true → e.restarting = false) :
    (∀ e ∈ mid, e.about c key = true → e.spending = false) ∧ s.registry.filterAt key c = some f ∨
    ∃ d outcome, d.Delivers c key f outcome ∧ s.registry.filterAt key c = none ∧
      (mid.filter (Entry.about c key)).filter Entry.spending = [d, .told c key (decide (outcome = .handed))] ∧
      ((s.sockets c).isOpen = true → outcome = .handed) := by
  have hlife := lives_run hrun c key
  have hsplit : s.journal.filter (Entry.about c key) =
      pre.filter (Entry.about c key) ++ .subscribed c key f :: mid.filter (Entry.about c key) := by
    rw [hjournal, List.filter_append, List.filter_cons_of_pos (by simp [Entry.about])]
  have hrestart : ∀ e ∈ mid.filter (Entry.about c key), e.restarting = false := by
    intro e he
    obtain ⟨hmem, habout⟩ := List.mem_filter.mp he
    exact hmid e hmem habout
  rcases hlife.period _ _ f hsplit honce hrestart with ⟨hnone, hf⟩ | ⟨d, outcome, hd, hspent, hf⟩
  · left
    refine ⟨?_, hf⟩
    intro e hmem habout
    exact hnone e (List.mem_filter.mpr ⟨hmem, habout⟩)
  · right
    refine ⟨d, outcome, hd, hf, hspent, ?_⟩
    intro hopen
    by_contra hnot
    have htold : Entry.told c key (decide (outcome = .handed)) ∈ s.journal := by
      have hin : Entry.told c key (decide (outcome = .handed)) ∈
          (mid.filter (Entry.about c key)).filter Entry.spending := by rw [hspent]; simp
      have hmid' := List.mem_of_mem_filter (List.mem_of_mem_filter hin)
      rw [hjournal]
      exact List.mem_append_right _ (List.mem_cons_of_mem _ hmid')
    rw [decide_eq_false hnot] at htold
    rw [unsent_run hrun c key htold] at hopen
    cases hopen

end steps

/-- A client of `mempool`, and of `blocks` once, that loses a mempool frame; its socket has drained
    when the block comes. -/
def closingRun (coin : Coin) : List Op :=
  [.connect,
    .subscribe 1 (.array [.string (ofString "mempool")]) .null,
    .subscribe 1 (.array [.string (ofString "blocks")]) (.object [(ofString "once", .bool true)]),
    .buffered 1 100,
    .other ⟨ofString "MEMPOOL_ACTION", none, none⟩ [channelKey coin .mempool],
    .buffered 1 0,
    .other ⟨ofString "NEW_BLOCK", none, none⟩ [channelKey coin .blocks]]

def litecoin : Coin := ⟨ofString "LTC", by decide⟩

theorem once_delivers_once_closing :
    ∃ s f pre mid, Runs.run (step (fun _ => []) 25 64 litecoin) initial (closingRun litecoin) = some s ∧
      s.journal = pre ++ .subscribed 1 (channelKey litecoin .blocks) f :: mid ∧
      ((∀ e ∈ mid, e.about 1 (channelKey litecoin .blocks) = true → e.spending = false) ∧
        s.registry.filterAt (channelKey litecoin .blocks) 1 = some f ∨
      ∃ d outcome, d.Delivers 1 (channelKey litecoin .blocks) f outcome ∧
        s.registry.filterAt (channelKey litecoin .blocks) 1 = none ∧
        (mid.filter (Entry.about 1 (channelKey litecoin .blocks))).filter Entry.spending =
          [d, .told 1 (channelKey litecoin .blocks) (decide (outcome = .handed))] ∧
        ((s.sockets 1).isOpen = true → outcome = .handed)) := by
  have hrun : Runs.run (step (fun _ => []) 25 64 litecoin) initial (closingRun litecoin) = some _ := rfl
  refine ⟨_, ⟨none, none, true, false, none⟩, [.subscribed 1 _ _],
    [.offered ⟨1, _, _, false, none, .refused⟩, .offered ⟨1, _, _, false, none, .unsent⟩, .told 1 _ false],
    hrun, rfl, ?_⟩
  exact @once_delivers_once 1 _ _ _ _ _ _ _ hrun _ [.subscribed 1 _ _] _ rfl rfl (by decide)

/-- A once subscription can be spent with no frame handed to the client. -/
theorem spent_without_a_frame :
    ¬ ∀ ops s, Runs.run (step (fun _ => []) 25 64 litecoin) initial ops = some s → ∀ c key f pre mid,
      s.journal = pre ++ .subscribed c key f :: mid → f.once = true →
      (∀ e ∈ mid, e.about c key = true → e.restarting = false) → s.registry.filterAt key c = none →
      ∃ d ∈ mid, d.Delivers c key f .handed := by
  intro h
  have hrun : Runs.run (step (fun _ => []) 25 64 litecoin) initial (closingRun litecoin) = some _ := rfl
  obtain ⟨d, hmem, hd⟩ := h _ _ hrun 1 (channelKey litecoin .blocks) ⟨none, none, true, false, none⟩
    [.subscribed 1 _ _]
    [.offered ⟨1, _, _, false, none, .refused⟩, .offered ⟨1, _, _, false, none, .unsent⟩, .told 1 _ false]
    rfl rfl (by decide) rfl
  simp only [List.mem_cons, List.not_mem_nil, or_false] at hmem
  rcases hmem with rfl | rfl | rfl <;> cases hd

end Broadcaster
