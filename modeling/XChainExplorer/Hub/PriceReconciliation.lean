import XChainExplorer.Hub.PriceVersions

/-! # The removal of foreign price rounds

    A complete drain removes the finalized rounds of the mirror that its pages did not serve. A round
    the hub publishes behind the page that would have served it is spared only while it waits in the
    buffer: written to the mirror meanwhile, it is taken for foreign. -/

namespace HubDbSync.Prices

/-- The phases in which a drain reads what the hub serves and removes what it does not. -/
def Phase.reading : Phase → Bool
  | .paging | .predecessors _ | .judged | .removing _ => true
  | _ => false

/-- No live event is written while a complete drain reads and removes. -/
def BuffersLive (s : State) : Label → Prop
  | .land _ true => ∀ p ∈ s.pass, p.drain.complete = true → p.phase.reading = false
  | _ => True

instance (s : State) : ∀ l, Decidable (BuffersLive s l)
  | .land _ true => inferInstanceAs (Decidable (∀ p ∈ s.pass, _ = true → _ = false))
  | .land _ false | .publish _ | .retract .. | .ready .. | .close _ | .resync | .move | .refuseSchema
  | .failApply | .live _ | .liveRetraction _ | .gate _ | .refresh | .openDrain | .askHorizon
  | .horizon _ | .page | .row _ | .catchUp | .pagesDone | .predecessor _ | .judge | .select _
  | .remove _ | .replay | .flush _ | .certify | .passEnd _ | .abort => isTrue trivial

/-! ### What the reconciliation must spare -/

/-- A finalized round the hub holds at or above a floor, in a version that was brought to the
    mirror. -/
structure Due (s : State) (floor : ℕ) (h : WireRow) : Prop where
  mem : h ∈ s.hub
  finalized : h.value.status = .finalized
  floor_le : floor ≤ h.value.block_timestamp
  delivered : h.value.version ∈ s.delivered

/-- The mirror has the round as the hub holds it. -/
def Mirrors (mirror : PriceTable) (h : WireRow) : Prop := ∃ x ∈ mirror, x.key = h.key ∧ x.value = h.value

/-- The drain applied the round and recorded it. -/
structure Served (mirror : PriceTable) (d : PriceDrain) (h : WireRow) : Prop where
  mirrors : Mirrors mirror h
  recorded : d.priceKeysComplete = true → h.key ∈ d.servedPriceKeys
  round_le : h.key.1 ≤ d.maxServedRound
  covered : 0 < d.priceHorizon → h.value.coin_pair ∈ d.pricePairCovered

/-- A round that is due is in hand, unread or served, and what is in hand is no older version of it. -/
structure PageHeld (s : State) (d : PriceDrain) : Prop where
  rows : ∀ h, Due s d.priceFloor h → (∃ x ∈ d.pending, x.id = h.id ∧ x.value = h.value) ∨
    (d.shortPage = false ∧ d.Unread h.id) ∨ Served s.mirror d h
  same : ∀ y ∈ d.pending, ∀ h, Due s d.priceFloor h → y.key = h.key → y.value = h.value
  keys_nodup : (d.pending.map (·.key)).Nodup

def PassHeld (s : State) (d : PriceDrain) : Phase → Prop
  | .paging => PageHeld s d
  | .predecessors _ | .judged => ∀ h, Due s d.priceFloor h → Served s.mirror d h
  | .removing stale => ∀ h, Due s d.priceFloor h →
    ∃ x ∈ s.mirror, x.key = h.key ∧ x.value = h.value ∧ x.id ∉ stale
  | _ => True

structure HeldInv (s : State) : Prop where
  reads : ReadsInv s
  issued : IssuedInv s
  pass : ∀ d phase, s.pass = some ⟨d, phase⟩ → d.complete = true → PassHeld s d phase

/-! ### The mirror -/

section mirror
variable {mirror : PriceTable} {row : PriceSnapshot} {h : WireRow}

theorem mirrors_upsertRow (mirror : PriceTable) (hrow : row.status ≠ .skipped) :
    ∃ x ∈ upsertRow mirror row, x.key = priceRoundKey row ∧ x.value = row := by
  obtain ⟨x, hx, hk, hvalue | ⟨y, -, -, hvalue⟩⟩ := UniqueTable.exists_mem_upsert mirror
    (priceRoundKey row) row fun old => if row.status = .skipped then old else row
  · exact ⟨x, hx, hk, hvalue⟩
  · rw [if_neg hrow] at hvalue
    exact ⟨x, hx, hk, hvalue⟩

theorem Mirrors.upsertRow (hm : Mirrors mirror h) (hk : h.key ≠ priceRoundKey row) :
    Mirrors (upsertRow mirror row) h := by
  obtain ⟨x, hx, hkey, hvalue⟩ := hm
  exact ⟨x, UniqueTable.mem_upsert.mpr (.inl ⟨hx, hkey ▸ hk⟩), hkey, hvalue⟩

end mirror

/-! ### A row of a page -/

section row
variable {mirror mirror' : PriceTable} {d : PriceDrain} {x h : WireRow} {pending : List WireRow}

theorem recorded_handled (x : WireRow) (pending : List WireRow) (hf : x.value.status = .finalized)
    (hc : (d.handled x pending).priceKeysComplete = true) :
    x.key ∈ (d.handled x pending).servedPriceKeys := by
  have hcomplete : (d.handled x pending).priceKeysComplete = (d.priceKeysComplete &&
    !(decide (x.value.status = .finalized) &&
      decide (PRICE_FINALIZED_KEY_CAP ≤ d.servedPriceKeys.length))) := rfl
  have hkeys : (d.handled x pending).servedPriceKeys =
    if decide (x.value.status = .finalized) &&
        !decide (PRICE_FINALIZED_KEY_CAP ≤ d.servedPriceKeys.length) then
      d.servedPriceKeys.insert x.key else d.servedPriceKeys := rfl
  rw [hcomplete, decide_eq_true hf, Bool.true_and, Bool.and_eq_true] at hc
  rw [hkeys, decide_eq_true hf, Bool.true_and, if_pos hc.2]
  exact List.mem_insert_self

theorem recorded_handled_mono (x : WireRow) (pending : List WireRow) {key : RoundKey}
    (h : d.priceKeysComplete = true → key ∈ d.servedPriceKeys)
    (hc : (d.handled x pending).priceKeysComplete = true) :
    key ∈ (d.handled x pending).servedPriceKeys := by
  have hkeys : (d.handled x pending).servedPriceKeys =
    if decide (x.value.status = .finalized) &&
        !decide (PRICE_FINALIZED_KEY_CAP ≤ d.servedPriceKeys.length) then
      d.servedPriceKeys.insert x.key else d.servedPriceKeys := rfl
  have hmem := h (Bool.and_eq_true_iff.mp hc).1
  rw [hkeys]
  split_ifs
  · exact List.mem_insert_of_mem hmem
  · exact hmem

theorem covered_handled (x : WireRow) (pending : List WireRow) (hf : x.value.status = .finalized)
    (hb : d.priceRowBoundOut x.value = false) (hh : 0 < d.priceHorizon) :
    x.value.coin_pair ∈ (d.handled x pending).pricePairCovered := by
  have hcovered : (d.handled x pending).pricePairCovered =
    if decide (0 < d.priceHorizon) && decide (x.value.status = .finalized) &&
        !d.priceRowBoundOut x.value then
      d.pricePairCovered.insert x.value.coin_pair else d.pricePairCovered := rfl
  rw [hcovered, decide_eq_true hh, decide_eq_true hf, hb]
  exact List.mem_insert_self

theorem covered_handled_mono (x : WireRow) (pending : List WireRow) {pair : String}
    (h : pair ∈ d.pricePairCovered) : pair ∈ (d.handled x pending).pricePairCovered := by
  have hcovered : (d.handled x pending).pricePairCovered =
    if decide (0 < d.priceHorizon) && decide (x.value.status = .finalized) &&
        !d.priceRowBoundOut x.value then
      d.pricePairCovered.insert x.value.coin_pair else d.pricePairCovered := rfl
  rw [hcovered]
  split_ifs
  · exact List.mem_insert_of_mem h
  · exact h

/-- The row handled, where it was applied. -/
theorem served_of_applied (pending : List WireRow) (hf : x.value.status = .finalized)
    (hb : d.priceRowBoundOut x.value = false) (hkey : x.key = h.key) (hvalue : x.value = h.value)
    (hm : Mirrors mirror h) : Served mirror (d.handled x pending) h where
  mirrors := hm
  recorded := by
    rw [← hkey]
    exact recorded_handled x pending hf
  round_le := by
    rw [← hkey]
    exact le_max_right _ _
  covered := by
    rw [← hvalue]
    exact covered_handled x pending hf hb

/-- A round that was served stays so. -/
theorem Served.handled (hs : Served mirror d h) (x : WireRow) (pending : List WireRow)
    (hm : Mirrors mirror' h) : Served mirror' (d.handled x pending) h where
  mirrors := hm
  recorded := recorded_handled_mono x pending hs.recorded
  round_le := hs.round_le.trans (le_max_left _ _)
  covered hh := covered_handled_mono x pending (hs.covered hh)

end row

section steps
variable {s t : State} {l : Label} {d : PriceDrain} {phase : Phase}

/-- A round due behind a write was due before, or the write brought it. -/
theorem due_of_delivered {h : WireRow} {row : PriceSnapshot} {floor : ℕ} (hi : IssuedInv s)
    (hrow : Issued s.versions row) (hhub : t.hub = s.hub)
    (hdelivered : t.delivered = row.version :: s.delivered) (hd : Due t floor h) :
    h.value = row ∨ Due s floor h := by
  have hmem : h ∈ s.hub := hhub ▸ hd.mem
  have hversion := hd.delivered
  rw [hdelivered] at hversion
  rcases List.mem_cons.mp hversion with heq | hold
  · exact .inl ((hi.hub h hmem).eq hrow heq)
  · exact .inr ⟨hmem, hd.finalized, hd.floor_le, hold⟩

/-- Of the page in hand only the row handled has its key. -/
theorem key_ne_of_nodup {x : WireRow} {pending : List WireRow} (hp : d.pending = x :: pending)
    (hn : (d.pending.map (·.key)).Nodup) {y : WireRow} (hy : y ∈ pending) : y.key ≠ x.key := by
  rw [hp, List.map_cons, List.nodup_cons] at hn
  intro heq
  exact hn.1 (List.mem_map.mpr ⟨y, hy, heq⟩)

/-- A row is handled: what was due and not the row handled keeps its place. -/
theorem PageHeld.handled (hheld : PageHeld s d) (hr : ReadsInv s) (hi : IssuedInv s)
    (hp : s.pass = some ⟨d, .paging⟩) {x : WireRow} {pending : List WireRow}
    (hpending : d.pending = x :: pending) (hhub : t.hub = s.hub)
    (hdelivered : t.delivered = x.value.version :: s.delivered)
    (hx : d.priceRowBoundOut x.value = false → x.value.status = .finalized →
      ∃ y ∈ t.mirror, y.key = x.key ∧ y.value = x.value)
    (hkeep : ∀ h, Mirrors s.mirror h → (d.priceRowBoundOut x.value = false → h.key ≠ x.key) →
      Mirrors t.mirror h) : PageHeld t (d.handled x pending) := by
  have hread : Reads s.hub s.sync.drainPosition d := hr.pass d .paging hp
  have hissued : DrainIssued s.versions d := hi.pass d .paging hp
  have hxknown := hread.known x (hpending ▸ List.mem_cons_self)
  have hxissued := hissued.pending x (hpending ▸ List.mem_cons_self)
  have hdue : ∀ h, Due t d.priceFloor h → h.value = x.value ∨ Due s d.priceFloor h :=
    fun h => due_of_delivered hi hxissued hhub hdelivered
  -- the row handled is the round that is due
  have hhandled : ∀ h, Due t d.priceFloor h → h.value = x.value →
      Served t.mirror (d.handled x pending) h := by
    intro h hd hvalue
    have hkey : x.key = h.key := by
      rw [hxknown.keyed, hr.keyed h (hhub ▸ hd.mem), hvalue]
    have hfinal : x.value.status = .finalized := hvalue ▸ hd.finalized
    have happlied : d.priceRowBoundOut x.value = false := by
      cases hb : d.priceRowBoundOut x.value with
      | false => rfl
      | true =>
        have hlt := boundOut_lt hb
        have hfloor := hd.floor_le
        rw [hvalue] at hfloor
        omega
    refine served_of_applied pending hfinal happlied hkey hvalue.symm ?_
    obtain ⟨y, hy, hyk, hyv⟩ := hx happlied hfinal
    exact ⟨y, hy, hyk.trans hkey, hyv.trans hvalue.symm⟩
  refine ⟨fun h hd => ?_, fun y hy h hd hkey => ?_, ?_⟩
  · rcases hdue h hd with hvalue | hold
    · exact .inr (.inr (hhandled h hd hvalue))
    · rcases hheld.rows h hold with ⟨y, hy, hid, hvalue⟩ | ⟨hlong, hunread⟩ | hserved
      · rw [hpending] at hy
        rcases List.mem_cons.mp hy with rfl | hy
        · exact .inr (.inr (hhandled h hd hvalue.symm))
        · exact .inl ⟨y, hy, hid, hvalue⟩
      · exact .inr (.inl ⟨hlong, hunread.handled hpending⟩)
      · by_cases hkey : h.key = x.key
        · have hvalue := hheld.same x (hpending ▸ List.mem_cons_self) h hold hkey.symm
          exact .inr (.inr (hhandled h hd hvalue.symm))
        · exact .inr (.inr (hserved.handled x pending (hkeep h hserved.mirrors fun _ => hkey)))
  · rcases hdue h hd with hvalue | hold
    · -- two rows in hand do not share a key
      have hne := key_ne_of_nodup hpending hheld.keys_nodup hy
      rw [hxknown.keyed, ← hvalue, ← hr.keyed h (hhub ▸ hd.mem)] at hne
      exact absurd hkey hne
    · exact hheld.same y (hpending ▸ List.mem_cons_of_mem _ hy) h hold hkey
  · have hnodup := hheld.keys_nodup
    rw [hpending, List.map_cons, List.nodup_cons] at hnodup
    exact hnodup.2

theorem PageHeld.readPage {since : ℕ} (hheld : PageHeld s d) (hnil : d.pending = [])
    (hs : since ≤ d.lastId) : PageHeld s (readPage s.hub d since) where
  rows h hd := by
    rcases hheld.rows h hd with ⟨y, hy, -⟩ | ⟨hlong, hl, -⟩ | hserved
    · rw [hnil] at hy
      cases hy
    · rcases inHand_or_unread_readPage hd.mem hs hl with hmem | ⟨hshort, hunread⟩
      · exact .inl ⟨h, hmem, rfl, rfl⟩
      · exact .inr (.inl ⟨hshort.trans hlong, hunread⟩)
    · exact .inr (.inr { hserved with })
  same y hy h hd hkey := by
    rw [UniqueTable.eq_of_key_eq (mem_readPage d hy) hd.mem hkey]
  keys_nodup := s.hub.keys_nodup.sublist
    (((List.take_sublist _ _).trans List.filter_sublist).map _)

/-- Before its first page a complete drain has all of the hub ahead, or what is below its floor. -/
theorem Opening.pageHeld (h : Opening s.sync.drainPosition d) (hr : ReadsInv s) (answer : Option ℕ)
    (hc : (s.sync.startDrain d answer).2.complete = true) :
    PageHeld { s with sync := (s.sync.startDrain d answer).1 } (s.sync.startDrain d answer).2 := by
  rw [PriceSync.startDrain, PriceSync.choosePriceRepageStart] at hc ⊢
  generalize hstart : s.sync.repageStart _ = start at hc ⊢
  have hnone : ∀ y, y ∉ d.pending := fun y hy => absurd (h.pending ▸ hy) List.not_mem_nil
  cases start with
  | some mark =>
    obtain ⟨hmem, -, hfloor⟩ := repageStart_mem hstart
    refine ⟨fun y hd => .inr (.inl ⟨h.shortPage, ?_, fun x hx => absurd hx (hnone x)⟩),
      fun y hy => absurd hy (hnone y), ?_⟩
    · have hbelow := (hr.mark mark hmem).below y hd.mem
      have hdue := hd.floor_le
      change mark.wireId - 1 < y.id
      by_contra hle
      have hpos := s.hub.ids_pos y hd.mem
      have hlt := hbelow (by omega)
      exact absurd (hdue.trans_lt (hlt.trans_le hfloor)) (Nat.lt_irrefl _)
    · change (d.pending.map (·.key)).Nodup
      rw [h.pending]
      exact List.nodup_nil
  | none =>
    have hfull : d.fullTable = true := by
      simpa [PriceSync.newPriceBoundState, PriceDrain.complete, h.floorStart] using hc
    refine ⟨fun y hd => .inr (.inl ⟨h.shortPage, ?_, fun x hx => absurd hx (hnone x)⟩),
      fun y hy => absurd hy (hnone y), ?_⟩
    · exact (h.start hfull).trans_lt (s.hub.ids_pos y hd.mem)
    · change (d.pending.map (·.key)).Nodup
      rw [h.pending]
      exact List.nodup_nil

/-- Behind the last page all that is due was served. -/
theorem PageHeld.served (hheld : PageHeld s d) (hnil : d.pending = []) (hshort : d.shortPage = true) :
    ∀ h, Due s d.priceFloor h → Served s.mirror d h := by
  intro h hd
  rcases hheld.rows h hd with ⟨y, hy, -⟩ | ⟨hlong, -⟩ | hserved
  · rw [hnil] at hy
    cases hy
  · rw [hshort] at hlong
    cases hlong
  · exact hserved

/-- A held predecessor is of a pair the drain kept nothing of. -/
theorem served_predecessor (hi : IssuedInv s) (hr : ReadsInv s) {row : PriceSnapshot}
    (hdrain : DrainIssued s.versions d) (hrow : row ∈ d.heldPredecessors)
    (hserved : ∀ h, Due s d.priceFloor h → Served s.mirror d h) :
    ∀ h, Due (s.writeRow row) d.priceFloor h → Served (s.writeRow row).mirror d h := by
  obtain ⟨hheld, huncovered⟩ := List.mem_filter.mp hrow
  obtain ⟨hissued, hhorizon, hts⟩ := hdrain.pairHeld row hheld
  intro h hd
  rcases due_of_delivered (t := s.writeRow row) hi hissued rfl rfl hd with hvalue | hold
  · have hfloor := hd.floor_le
    rw [hvalue] at hfloor
    omega
  · have hs := hserved h hold
    have hkey : h.key ≠ priceRoundKey row := by
      intro heq
      rw [hr.keyed h hold.mem] at heq
      have hpair : h.value.coin_pair = row.coin_pair := congrArg Prod.snd heq
      exact (of_decide_eq_true huncovered) (hpair ▸ hs.covered hhorizon)
    exact { hs with mirrors := hs.mirrors.upsertRow hkey }

/-- What was served is not taken for foreign. -/
theorem Served.not_stale {h : WireRow} (hs : Served s.mirror d h) :
    ∃ x ∈ s.mirror, x.key = h.key ∧ x.value = h.value ∧
      x.id ∉ staleForeignPriceRoundIds s.mirror d := by
  obtain ⟨x, hx, hkey, hvalue⟩ := hs.mirrors
  refine ⟨x, hx, hkey, hvalue, fun hstale => ?_⟩
  rw [staleForeignPriceRoundIds] at hstale
  simp only at hstale
  split_ifs at hstale with hcomplete hfence
  · cases hstale
  · obtain ⟨y, hy, hid⟩ := List.mem_map.mp hstale
    obtain ⟨hy, hunserved⟩ := List.mem_filter.mp hy
    have hyx : y = x := UniqueTable.eq_of_id_eq
      (List.mem_of_mem_filter (List.mem_of_mem_filter hy)) hx hid
    rw [hyx, hkey] at hunserved
    exact (of_decide_eq_true hunserved) (hs.recorded hcomplete)
  · obtain ⟨y, hy, hid⟩ := List.mem_map.mp hstale
    obtain ⟨hy, habove⟩ := List.mem_filter.mp hy
    have hyx : y = x := UniqueTable.eq_of_id_eq (List.mem_of_mem_filter hy) hx hid
    rw [hyx, hkey, decide_eq_true_eq] at habove
    exact absurd hs.round_le (Nat.not_le_of_lt habove)

/-! ### Each step -/

/-- A step that writes nothing to the mirror, and brings it nothing. -/
structure Unwritten (s t : State) : Prop where
  mirror : t.mirror = s.mirror
  due : ∀ floor h, Due t floor h → Due s floor h

theorem PassHeld.unwritten (h : PassHeld s d phase) (hu : Unwritten s t) : PassHeld t d phase := by
  cases phase with
  | paging =>
    refine ⟨fun y hd => ?_, fun y hy z hd => ?_, PageHeld.keys_nodup h⟩
    · rw [hu.mirror]
      exact PageHeld.rows h y (hu.due _ y hd)
    · exact PageHeld.same h y hy z (hu.due _ z hd)
  | predecessors | judged =>
    intro y hd
    rw [hu.mirror]
    exact h y (hu.due _ y hd)
  | removing stale =>
    intro y hd
    rw [hu.mirror]
    exact h y (hu.due _ y hd)
  | _ => trivial

theorem unwritten_of_same (hhub : t.hub = s.hub) (hmirror : t.mirror = s.mirror)
    (hdelivered : t.delivered = s.delivered) : Unwritten s t :=
  ⟨hmirror, fun _ _ hd => ⟨hhub ▸ hd.mem, hd.finalized, hd.floor_le, hdelivered ▸ hd.delivered⟩⟩

/-- A version the hub has just written was not delivered. -/
theorem unwritten_publish (hi : IssuedInv s) {row : PriceSnapshot} (hpub : Publishable s row) :
    Unwritten s { s with
      hub := s.hub.upsert (priceRoundKey row) row fun _ => row
      versions := s.versions ++ [row] } := by
  refine ⟨rfl, fun floor h hd => ?_⟩
  have hnew : row.version ∉ s.delivered := by
    intro hmem
    have hlt := hi.delivered _ hmem
    rw [hpub.1] at hlt
    exact Nat.lt_irrefl _ hlt
  rcases UniqueTable.mem_upsert.mp hd.mem with ⟨hmem, -⟩ | ⟨y, -, -, rfl⟩ | ⟨-, rfl⟩
  · exact ⟨hmem, hd.finalized, hd.floor_le, hd.delivered⟩
  · exact absurd hd.delivered hnew
  · exact absurd hd.delivered hnew

theorem unwritten_handleRowEvent (s : State) (event : LiveEvent) :
    Unwritten s (s.handleRowEvent event) := by
  unfold State.handleRowEvent
  split_ifs <;> exact unwritten_of_same rfl rfl rfl

theorem unwritten_mirrorStep (hi : IssuedInv s) (hs : s.mirrorStep l = some t)
    (hl : ∀ i, l ≠ .land i true) : Unwritten s t := by
  cases l with
  | publish row =>
    simp only [State.mirrorStep] at hs
    split_ifs at hs with hpub
    cases hs
    exact unwritten_publish hi hpub
  | retract chain range =>
    cases hs
    exact ⟨rfl, fun _ _ hd => ⟨(UniqueTable.mem_delete.mp hd.mem).1, hd.finalized, hd.floor_le,
      hd.delivered⟩⟩
  | live version =>
    obtain ⟨row, -, rfl⟩ := Option.map_eq_some_iff.mp hs
    exact unwritten_handleRowEvent s _
  | liveRetraction retraction =>
    obtain ⟨e, -, rfl⟩ := Option.map_eq_some_iff.mp hs
    exact unwritten_handleRowEvent s _
  | land i ok =>
    obtain ⟨event, -, rfl⟩ := Option.map_eq_some_iff.mp hs
    cases ok with
    | true => exact absurd rfl (hl i)
    | false => exact unwritten_of_same rfl rfl rfl
  | ready | close | resync | move | refuseSchema | failApply | gate | refresh =>
    cases hs
    exact unwritten_of_same rfl rfl rfl
  | _ => cases hs

theorem passHeld_of_not_reading (hphase : phase.reading = false) : PassHeld s d phase := by
  cases phase with
  | paging | predecessors | judged | removing => cases hphase
  | _ => trivial

theorem HeldInv.mirrorStep (h : HeldInv s) (hc : BuffersLive s l) (hs : s.mirrorStep l = some t) :
    ∀ d phase, t.pass = some ⟨d, phase⟩ → d.complete = true → PassHeld t d phase := by
  have hpass := (aside_mirrorStep hs).pass
  intro d phase hp hcomplete
  rw [hpass] at hp
  by_cases hl : ∃ i, l = .land i true
  · obtain ⟨i, rfl⟩ := hl
    exact passHeld_of_not_reading (hc _ hp hcomplete)
  · have hu := unwritten_mirrorStep h.issued hs fun i heq => hl ⟨i, heq⟩
    exact (h.pass d phase hp hcomplete).unwritten hu

/-- Where a drain stands next, over the same hub and mirror. -/
theorem passHeld_moved (phase : Phase) (h : PassHeld s d phase) (hhub : t.hub = s.hub)
    (hmirror : t.mirror = s.mirror) (hdelivered : t.delivered = s.delivered) : PassHeld t d phase :=
  h.unwritten (unwritten_of_same hhub hmirror hdelivered)

theorem passHeld_select (hserved : PassHeld s d .judged) (ok : Bool) : PassHeld s d (.removing
    (if d.complete && ok then staleForeignPriceRoundIds s.mirror d else [])) := by
  intro y hd
  obtain ⟨x, hx, hkey, hvalue, hstale⟩ := (hserved y hd).not_stale
  refine ⟨x, hx, hkey, hvalue, ?_⟩
  split_ifs
  · exact hstale
  · exact List.not_mem_nil

/-- A chunk of the rows taken for foreign is removed. -/
theorem passHeld_remove {stale : List ℕ} (hheld : PassHeld s d (.removing stale))
    (hmirror : t.mirror = s.mirror.delete fun x => x.id ∈ stale.take REMOVAL_CHUNK)
    (hhub : t.hub = s.hub) (hdelivered : t.delivered = s.delivered) :
    PassHeld t d (.removing (stale.drop REMOVAL_CHUNK)) := by
  intro y hd
  obtain ⟨x, hx, hkey, hvalue, hstale⟩ := hheld y
    ⟨hhub ▸ hd.mem, hd.finalized, hd.floor_le, hdelivered ▸ hd.delivered⟩
  refine ⟨x, ?_, hkey, hvalue, fun hmem => hstale (List.mem_of_mem_drop hmem)⟩
  rw [hmirror, UniqueTable.mem_delete]
  exact ⟨hx, decide_eq_false fun hmem => hstale (List.mem_of_mem_take hmem)⟩

theorem HeldInv.drainTrans (h : HeldInv s) (hp : s.pass = some ⟨d, phase⟩)
    (ht : DrainTrans s d phase l t) :
    ∀ d phase, t.pass = some ⟨d, phase⟩ → d.complete = true → PassHeld t d phase := by
  intro d' phase' hp' hcomplete
  have hread := h.reads.pass d phase hp
  have hissued := h.issued.pass d phase hp
  cases ht with
  | ended | startLost | refused | judgedLost | writeFailed | overflowed | passEnd => cases hp'
  | start answer =>
    cases hp'
    have hheld := Opening.pageHeld hread h.reads answer hcomplete
    exact passHeld_moved .paging hheld rfl rfl rfl
  | page hnil hlong =>
    cases hp'
    have hheld := PageHeld.readPage (h.pass d _ hp hcomplete) hnil (Nat.le_refl _)
    exact passHeld_moved .paging hheld rfl rfl rfl
  | catchUp hnil hshort =>
    cases hp'
    have hheld := PageHeld.readPage (h.pass d _ hp hcomplete) hnil (Reads.position_le hread)
    refine passHeld_moved .paging ⟨fun y hd => ?_, hheld.same, hheld.keys_nodup⟩ rfl rfl rfl
    exact (hheld.rows y hd).imp_right (Or.imp_right fun hs => { hs with })
  | @boundRow ok x pending hpending hb =>
    cases hp'
    refine PageHeld.handled (h.pass d _ hp hcomplete) h.reads h.issued hp hpending rfl rfl
      (fun happlied => ?_) fun y hm _ => hm
    rw [hb] at happlied
    cases happlied
  | @applyRow x pending hpending hb =>
    cases hp'
    have hkeyed := (Reads.known hread x (hpending ▸ List.mem_cons_self)).keyed
    refine PageHeld.handled (h.pass d _ hp hcomplete) h.reads h.issued hp hpending rfl rfl
      (fun _ hfinal => ?_) fun y hm hne => hm.upsertRow (hkeyed ▸ hne hb)
    rw [hkeyed]
    exact mirrors_upsertRow s.mirror (by simp [hfinal])
  | pagesDone hnil hshort =>
    cases hp'
    have hserved := PageHeld.served (h.pass d _ hp hcomplete) hnil hshort
    exact passHeld_moved (.predecessors _) hserved rfl rfl rfl
  | @predecessor row rows =>
    cases hp'
    have hserved := served_predecessor h.issued h.reads hissued.1 (hissued.2 row List.mem_cons_self)
      (h.pass d _ hp hcomplete)
    exact passHeld_moved (s := s.writeRow row) (.predecessors rows) hserved rfl rfl rfl
  | judged ha =>
    cases hp'
    have hserved : ∀ y, Due s d.priceFloor y → Served s.mirror d y := h.pass d _ hp hcomplete
    exact passHeld_moved .judged hserved rfl rfl rfl
  | @select ok =>
    cases hp'
    exact passHeld_moved _ (passHeld_select (h.pass d _ hp hcomplete) ok) rfl rfl rfl
  | @remove stale hne =>
    cases hp'
    exact passHeld_remove (h.pass d _ hp hcomplete) rfl rfl rfl
  | @stopRemoving stale =>
    cases hp'
    have hheld : PassHeld s d (.removing []) := by
      intro y hd
      obtain ⟨x, hx, hkey, hvalue, -⟩ := h.pass d _ hp hcomplete y hd
      exact ⟨x, hx, hkey, hvalue, List.not_mem_nil⟩
    exact passHeld_moved _ hheld rfl rfl rfl
  | askHorizon | replay | take | write | flushed | certify =>
    cases hp'
    trivial

theorem HeldInv.step (h : HeldInv s) (hc : BuffersLive s l) (hs : step s l = some t) : HeldInv t := by
  refine ⟨h.reads.step hs, h.issued.step h.reads hs, ?_⟩
  rcases step_cases hs with hs | ⟨-, -, rfl⟩ | ⟨d, phase, hp, ht⟩
  · exact h.mirrorStep hc hs
  · intro d phase hp _
    cases hp
    trivial
  · exact h.drainTrans hp ht

end steps

/-! ### After the reconciliation -/

/-- A client that has just started, against a hub with its first versions. -/
structure Numbered (s : State) : Prop where
  started : Started s
  versions : ∀ i (row : PriceSnapshot), s.versions[i]? = some row → row.version = i
  hub : ∀ h ∈ s.hub, Issued s.versions h.value
  delivered : s.delivered = []
  inflight : s.inflight = []

theorem Numbered.heldInv {s : State} (h : Numbered s) : HeldInv s where
  reads := h.started.readsInv
  issued := by
    refine ⟨h.versions, h.hub, fun v hv => ?_, fun e he => ?_, fun e he => ?_, fun d phase hp => ?_⟩
    · rw [h.delivered] at hv
      cases hv
    · rw [h.inflight] at he
      cases he
    · rw [h.started.sync] at he
      cases he
    · rw [h.started.pass] at hp
      cases hp
  pass d phase hp := by
    rw [h.started.pass] at hp
    cases hp

/-- Behind the reconciliation of a complete drain, in every run in which no live event is written while
    such a drain reads and removes, each finalized round at or above its floor that the hub holds in a
    version that was delivered is in the mirror as the hub holds it, or in the buffer. -/
theorem delivered_rounds_spared {s t : State} {labels : List Label} {d : PriceDrain} (hs : Numbered s)
    (hm : Runs.Meets step BuffersLive s labels) (hr : Runs.run step s labels = some t)
    (hp : t.pass = some ⟨d, .removing []⟩) (hc : d.complete = true) :
    ∀ h ∈ t.hub, h.value.status = .finalized → d.priceFloor ≤ h.value.block_timestamp →
      h.value.version ∈ t.delivered →
        Mirrors t.mirror h ∨ .inserted h.value ∈ t.sync.pendingPriceEvents := by
  have hinv : HeldInv t := Runs.run_inv (fun _ _ _ => HeldInv.step) hs.heldInv hm hr
  intro h hh hfinal hfloor hdelivered
  obtain ⟨x, hx, hkey, hvalue, -⟩ := hinv.pass d _ hp hc h ⟨hh, hfinal, hfloor, hdelivered⟩
  exact .inl ⟨x, hx, hkey, hvalue⟩

theorem fresh_numbered : Numbered .fresh :=
  ⟨fresh_started, fun _ _ hi => absurd hi (by simp [State.fresh]), fun _ hh => absurd hh List.not_mem_nil,
    rfl, rfl⟩

/-- A round that comes in behind the last page waits in the buffer. -/
def bufferedRound : List Label :=
  publishTwoPairs ++ pageThree none ++
    [.publish (priceRow 3 9 "DOGE" 210000), .live 3, .judge, .select true]

theorem delivered_rounds_spared_once : ∃ t d, Runs.run step .fresh bufferedRound = some t ∧
    t.pass = some ⟨d, .removing []⟩ ∧ t.delivered = [2, 1, 0] ∧
    ∀ h ∈ t.hub, h.value.status = .finalized → d.priceFloor ≤ h.value.block_timestamp →
      h.value.version ∈ t.delivered →
        Mirrors t.mirror h ∨ .inserted h.value ∈ t.sync.pendingPriceEvents := by
  obtain ⟨t, d, ht, hp, hc, hdelivered⟩ : ∃ t d, Runs.run step .fresh bufferedRound = some t ∧
      t.pass = some ⟨d, .removing []⟩ ∧ d.complete = true ∧ t.delivered = [2, 1, 0] :=
    ⟨_, _, rfl, rfl, rfl, rfl⟩
  exact ⟨t, d, ht, hp, hdelivered,
    delivered_rounds_spared fresh_numbered (by decide +kernel) ht hp hc⟩

/-- A drain of a hub without a round, and what follows its only page. -/
def emptyDrain : List Label :=
  [.openDrain, .askHorizon, .horizon none, .page, .pagesDone, .judge, .select true, .replay,
    .flush true, .certify, .refresh, .passEnd false]

/-- The next drain of the connection starts from id 0 again. The round published behind its page is
    written as it comes in, and removed. -/
def overtakenDrain : List Label :=
  [.openDrain, .askHorizon, .horizon none, .page, .publish (priceRow 0 7 "DOGE" 50000), .live 0,
    .land 0 true, .pagesDone, .judge, .select true, .remove true]

theorem not_delivered_rounds_spared :
    ¬ ∀ (s t : State) (labels : List Label) (d : PriceDrain), Numbered s →
      Runs.run step s labels = some t → t.pass = some ⟨d, .removing []⟩ → d.complete = true →
      ∀ h ∈ t.hub, h.value.status = .finalized → d.priceFloor ≤ h.value.block_timestamp →
        h.value.version ∈ t.delivered →
          Mirrors t.mirror h ∨ .inserted h.value ∈ t.sync.pendingPriceEvents := by
  intro hclaim
  obtain ⟨t, d, ht, hp, hc, hhub, hdelivered, hmirror, hbuffer, hfloor⟩ : ∃ t d,
      Runs.run step .fresh (.ready (some 1) none :: emptyDrain ++ overtakenDrain) = some t ∧
      t.pass = some ⟨d, .removing []⟩ ∧ d.complete = true ∧
      t.hub.rows = [⟨1, (7, "DOGE"), priceRow 0 7 "DOGE" 50000⟩] ∧ t.delivered = [0] ∧
      t.mirror.rows = [] ∧ t.sync.pendingPriceEvents = [] ∧ d.priceFloor = 0 :=
    ⟨_, _, rfl, rfl, rfl, rfl, rfl, rfl, rfl, rfl⟩
  have hspared := hclaim _ _ _ d fresh_numbered ht hp hc ⟨1, (7, "DOGE"), priceRow 0 7 "DOGE" 50000⟩
    (by rw [UniqueTable.mem_def, hhub]; exact List.mem_singleton_self _) rfl (hfloor.le.trans (Nat.zero_le _))
    (by rw [hdelivered]; exact List.mem_singleton_self _)
  rcases hspared with ⟨x, hx, -⟩ | hbuffered
  · rw [UniqueTable.mem_def, hmirror] at hx
    cases hx
  · rw [hbuffer] at hbuffered
    cases hbuffered

end HubDbSync.Prices
