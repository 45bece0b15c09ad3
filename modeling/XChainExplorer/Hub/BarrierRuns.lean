import XChainExplorer.Hub.CapabilityBarrier

/-! # Runs of the capability barrier

    The steps of the connection, of the drains and of the retry pass leave the rows, the map and the
    questions alone. What they owe the rows that were turned away is a re-page: it is opened with the
    table owed one, so it starts from zero, and it serves the rows again before it completes. -/

namespace HubDbSync.CapabilityProof

open Journal

variable {K κ : Type*} {s s' u : State K κ} {new p q : List (Event κ)} {k : κ} {d : ℕ}

/-- A step beside the rows, the map and the questions. -/
structure Alike (s s' : State K κ) (new : List (Event κ)) : Prop where
  holds : s'.holds = s.holds
  tasks : s'.tasks = s.tasks
  approved : s'.retryApproved = s.retryApproved
  waiters : s'.waiters = s.waiters
  log : s'.log = s.log ++ new
  inert : ∀ e ∈ new, e.inert = true
  running : ∀ todo i, s.retry = .running todo (some i) → s'.retry = s.retry
  counted : ∀ d, s'.retry = .repaging d → d < s'.drainCount

/-- What became of a row that was turned away, but for the overflow and its re-page. -/
def Settled (k : κ) (q : List (Event κ)) : Prop := Judged k q ∨ ServedAgain k q

theorem Barrier.alike (h : Barrier s) (hs : Alike s s' new)
    (hturned : ∀ p k q, s.log = p ++ .turnedAway k :: q → s.overflow = true ∨ s.Repages q →
      Settled k (q ++ new) ∨ s'.overflow = true ∨ s'.Repages (q ++ new))
    (howed : ∀ p k q, s.log = p ++ .turnedAway k :: q → (s.sync.repageOwed .capability_snapshots).isSome →
      Settled k (q ++ new) ∨ (s'.sync.repageOwed .capability_snapshots).isSome) : Barrier s' := by
  have hout {p q : List (Event κ)} {x : Event κ} (heq : s'.log = p ++ x :: q) (hx : x.keepsOut = true) :
      ∃ q', q = q' ++ new ∧ s.log = p ++ x :: q' := by
    rw [hs.log] at heq
    exact out_of_append heq hx fun e he => Event.keepsOut_of_inert (hs.inert e he)
  refine ⟨?_, ?_, ?_, ?_, ?_, ?_, hs.counted, ?_, ?_, ?_⟩
  · intro p k q heq
    obtain ⟨q', rfl, hp⟩ := hout heq rfl
    rw [hs.holds]
    refine (h.held p k q' hp).imp (·.append new) (Or.imp id fun hf => ?_)
    rw [State.Freeing, hs.tasks]
    exact hf.append new
  · intro p k q heq
    obtain ⟨q', rfl, hp⟩ := hout heq rfl
    rcases h.turned p k q' hp with hj | hserved | hopen
    · exact .inl (hj.append new)
    · exact .inr (.inl (hserved.append new))
    · rcases hturned p k q' hp hopen with (hj | hserved) | hrest
      · exact .inl hj
      · exact .inr (.inl hserved)
      · exact .inr (.inr hrest)
  · intro p k q heq
    obtain ⟨q', rfl, hp⟩ := hout heq rfl
    exact h.marked p k q' hp
  · intro p k q heq
    obtain ⟨q', rfl, hp⟩ := hout heq rfl
    rcases h.owed p k q' hp with hj | hserved | hsome
    · exact .inl (hj.append new)
    · exact .inr (.inl (hserved.append new))
    · rcases howed p k q' hp hsome with (hj | hserved) | hsome'
      · exact .inl hj
      · exact .inr (.inl hserved)
      · exact .inr (.inr hsome')
  · intro i t hi ht
    rw [hs.tasks] at hi
    have hretries := h.retrying i t hi ht
    obtain ⟨todo, hrunning⟩ := hretries.1
    refine hretries.append (hs.running todo i hrunning) (fun hmem => hs.approved ▸ hmem) hs.log ?_
    refine fun _ => ⟨fun hmem => ?_, fun hmem => ?_⟩
    · cases hs.inert _ hmem
    · cases hs.inert _ hmem
  · rw [hs.tasks]
    exact h.judging
  · rw [hs.waiters, hs.log]
    intro w hw
    exact (h.asked w hw).trans (by simp)
  · rw [hs.waiters, hs.log]
    intro w hw p x q heq hp
    exact saw_append (h.waiters w hw) (h.asked w hw) heq hp
  · rw [hs.log]
    exact opens_of_inert h.opens hs.inert

/-! ### The marks -/

/-- No step but the end of a re-page takes a mark. -/
theorem owed_kept {T : MirrorTable} (h : ∃ u, MarkStep s u ∧ Quiet u s')
    (howed : (s.sync.repageOwed T).isSome) : (s'.sync.repageOwed T).isSome := by
  obtain ⟨u, hmark, hquiet⟩ := h
  rw [hquiet.owed]
  cases hmark with
  | same heq => rwa [heq]
  | marks tables hlog hseq hfresh hsame hview =>
    by_cases hT : T ∈ tables
    · obtain ⟨n, hn, -⟩ := hfresh T hT
      rw [hn]
      rfl
    · rwa [hsame T hT]
  | opened d U hlog hsync hview => rwa [hsync]
  | started d U m start hv hlog howed' hseq hview hfloor => rwa [howed']
  | certified hlog hnone howed' hseq hview => rwa [howed']

/-- Such a step is harmless where the overflow and its re-page stay. -/
theorem Barrier.beside (h : Barrier s) (hs : Alike s s' new) (hover : s'.overflow = s.overflow)
    (hmark : ∃ u, MarkStep s u ∧ Quiet u s')
    (hrepages : ∀ p k q, s.log = p ++ .turnedAway k :: q → s.Repages q → Settled k (q ++ new) ∨
      s'.Repages (q ++ new)) : Barrier s' := by
  refine h.alike hs ?_ ?_
  · rintro p k q hp (hset | hr)
    · exact .inr (.inl (hover.trans hset))
    · exact (hrepages p k q hp hr).imp id .inr
  · intro p k q _ hsome
    exact .inr (owed_kept hmark hsome)

/-- What the socket moves is the connection, the marks and the recorded floor. -/
theorem alike_socketStep (l : SocketLabel K) : ∃ new, (∀ e ∈ new, e.inert = true) ∧
    s.socketStep l = { s.note new with
      sync := (s.socketStep l).sync, priceRepageFloor := (s.socketStep l).priceRepageFloor } := by
  have hmarks (tables : List MirrorTable) :
      ∀ e ∈ tables.map (fun T => (.marked T none : Event κ)), e.inert = true := by
    intro e he
    obtain ⟨T, -, rfl⟩ := List.mem_map.mp he
    rfl
  have hnone : s.note [] = s := by
    simp [State.note]
  cases l with
  | ready => exact ⟨_, hmarks REPAGE_PER_CONNECTION_TABLES, by dsimp only [State.socketStep, State.note]⟩
  | resync | refuseSchema => exact ⟨_, hmarks MIRRORED_TABLES, by dsimp only [State.socketStep, State.note]⟩
  | close | moveHub | selectorChange =>
    exact ⟨[], by simp, by rw [hnone]; dsimp only [State.socketStep]⟩

theorem Barrier.socketStep (h : Barrier s) (l : SocketLabel K) : Barrier (s.socketStep l) := by
  have hmark := markStep_socketStep (s := s) l
  obtain ⟨new, hinert, heq⟩ := alike_socketStep (s := s) l
  generalize (s.socketStep l).sync = sync, (s.socketStep l).priceRepageFloor = floor at heq
  rw [heq] at hmark ⊢
  refine h.beside ⟨rfl, rfl, rfl, rfl, rfl, hinert, fun _ _ _ => rfl, h.counted⟩ rfl hmark ?_
  intro p k q _ hr
  exact .inr (State.Repages.append hr new)

/-! ### The drains -/

theorem State.Repages.drains {q' : List (Event κ)} (h : s.Repages q) (hretry : s'.retry = s.retry)
    (hdrains : ∀ d dr, s.retry = .repaging d → s.drains d = some dr → dr.Covers d q →
      ∃ dr', s'.drains d = some dr' ∧ dr'.Covers d q') : s'.Repages q' := by
  rcases h with h | ⟨d, dr, hd, hdr, hcovers⟩
  · exact .inl (hretry.trans h)
  · obtain ⟨dr', hdr', hcovers'⟩ := hdrains d dr hd hdr hcovers
    exact .inr ⟨d, dr', hretry.trans hd, hdr', hcovers'⟩

/-- A drain goes on to its next await. -/
theorem Barrier.setDrain {dr dr' : Drain} (h : Barrier s) (hd : s.drains d = some dr)
    (hs : Alike s s' new) (hover : s'.overflow = s.overflow) (hretry : s'.retry = s.retry)
    (hdrains : s'.drains = Function.update s.drains d (some dr')) (hmark : ∃ u, MarkStep s u ∧ Quiet u s')
    (hcovers : ∀ p k q, s.log = p ++ .turnedAway k :: q → dr.Covers d q →
      Settled k (q ++ new) ∨ dr'.Covers d (q ++ new)) : Barrier s' := by
  refine h.beside hs hover hmark ?_
  rintro p k q hp (hr | ⟨e, dr₁, he, hdr₁, hc⟩)
  · exact .inr (.inl (hretry.trans hr))
  · by_cases hed : e = d
    · subst hed
      obtain rfl : dr = dr₁ := Option.some.inj (hd.symm.trans hdr₁)
      refine (hcovers p k q hp hc).imp id fun hc' => .inr ⟨e, dr', hretry.trans he, ?_, hc'⟩
      rw [hdrains, Function.update_self]
    · refine .inr (.inr ⟨e, dr₁, hretry.trans he, ?_, hc.append new⟩)
      rw [hdrains, Function.update_of_ne hed, hdr₁]

/-- A drain is called. -/
theorem Barrier.bootstrapTable (h : Barrier s) {pass : Option Pass} (T : MirrorTable) :
    Barrier ({ s with pass }.bootstrapTable T) := by
  have hs : Alike s ({ s with pass }.bootstrapTable T) [] :=
    ⟨rfl, rfl, rfl, rfl, (List.append_nil _).symm, by simp, fun _ _ _ => rfl,
      fun d hd => Nat.lt_succ_of_lt (h.counted d hd)⟩
  refine h.beside hs rfl ?_ ?_
  · refine markStep_quiet (Quiet.trans ?_ (quiet_bootstrapTable T))
    exact quiet_of_same rfl rfl rfl rfl
  · intro p k q _ hr
    rw [List.append_nil]
    refine .inr (State.Repages.drains hr rfl ?_)
    intro d dr hd hdr hc
    have hne : d ≠ s.drainCount := (h.counted d hd).ne
    exact ⟨dr, (Function.update_of_ne hne _ _).trans hdr, hc⟩

/-- A pass that begins, or goes on without a drain. -/
theorem Barrier.pass (h : Barrier s) (pass : Option Pass) : Barrier { s with pass } :=
  { h with }

theorem Barrier.passStep {l : Label K κ} (h : Barrier s) (hs : s.passStep l = some s') : Barrier s' := by
  have hmark := markStep_passStep hs
  cases l with
  | passBegin =>
    simp only [State.passStep] at hs
    split at hs
    · exact Option.some.inj hs ▸ h.pass _
    · cases hs
  | passTable =>
    simp only [State.passStep] at hs
    split at hs
    · split_ifs at hs
      · exact Option.some.inj hs ▸ h.bootstrapTable _
      · exact Option.some.inj hs ▸ h.pass _
    · cases hs
  | passEnd uncaughtUp =>
    simp only [State.passStep] at hs
    split at hs
    · split_ifs at hs
      · obtain rfl := Option.some.inj hs
        refine h.beside ⟨rfl, rfl, rfl, rfl, rfl, ?_, fun _ _ _ => rfl, h.counted⟩ rfl hmark ?_
        · simp [Event.inert]
        · intro p k q _ hr
          exact .inr (State.Repages.append hr _)
      · exact Option.some.inj hs ▸ h.pass _
    · cases hs
  | _ => cases hs

/-! ### The end of a drain -/

/-- The callers of a drain go on behind its end. -/
theorem endDrain_eq (s : State K κ) (d : ℕ) (drained : Bool) : ∃ retry pass,
    s.endDrain d drained = { s with drains := Function.update s.drains d none, retry, pass } ∧
      (retry = s.retry ∧ s.retry ≠ .repaging d ∨ retry = .repaged drained ∧ s.retry = .repaging d) := by
  cases hr : s.retry with
  | repaging e =>
    by_cases hed : e = d
    · subst hed
      simp only [State.endDrain, hr, if_true]
      split
      · split_ifs
        all_goals exact ⟨_, _, rfl, .inr ⟨rfl, trivial⟩⟩
      · exact ⟨_, _, rfl, .inr ⟨rfl, trivial⟩⟩
    · simp only [State.endDrain, hr, if_neg hed]
      split
      · split_ifs
        all_goals exact ⟨_, _, rfl, .inl ⟨rfl, by simpa using hed⟩⟩
      · exact ⟨_, _, rfl, .inl ⟨rfl, by simpa using hed⟩⟩
  | _ =>
    simp only [State.endDrain, hr]
    split
    · split_ifs
      all_goals exact ⟨_, _, rfl, .inl ⟨rfl, nofun⟩⟩
    · exact ⟨_, _, rfl, .inl ⟨rfl, nofun⟩⟩

/-- A drain that ends: the re-page of an overflow is accounted for, or has served its rows again. -/
theorem Barrier.endDrain (h : Barrier s) (d : ℕ) (drained : Bool)
    (hserved : drained = true → ∀ p k q dr, s.log = p ++ .turnedAway k :: q → s.drains d = some dr →
      dr.Covers d q → Settled k q) : Barrier (s.endDrain d drained) := by
  have hquiet := quiet_endDrain (s := s) d drained
  obtain ⟨retry, pass, heq, hretry⟩ := endDrain_eq s d drained
  rw [heq] at hquiet ⊢
  have hs : Alike s { s with drains := Function.update s.drains d none, retry, pass } [] := by
    refine ⟨rfl, rfl, rfl, rfl, (List.append_nil _).symm, by simp, ?_, ?_⟩
    · intro todo i hrunning
      rcases hretry with ⟨hsame, -⟩ | ⟨-, hr⟩
      · exact hsame
      · rw [hr] at hrunning
        cases hrunning
    · intro e he
      rcases hretry with ⟨hsame, -⟩ | ⟨hr, -⟩
      · exact h.counted e (hsame ▸ he)
      · cases hr.symm.trans he
  refine h.beside hs rfl (markStep_quiet hquiet) ?_
  intro p k q hp hr
  rw [List.append_nil]
  rcases hretry with ⟨hsame, hne⟩ | ⟨hrepaged, hr'⟩
  · refine .inr (State.Repages.drains hr hsame ?_)
    intro e dr he hdr hc
    have hed : e ≠ d := by
      rintro rfl
      exact hne he
    exact ⟨dr, (Function.update_of_ne hed _ _).trans hdr, hc⟩
  · rcases hr with hno | ⟨e, dr, he, hdr, hc⟩
    · rw [hr'] at hno
      cases hno
    · obtain rfl : d = e := by
        rw [hr'] at he
        exact RetryPass.repaging.inj he
      cases drained with
      | false => exact .inr (.inl hrepaged)
      | true => exact .inl (hserved rfl p k q dr hp hdr hc)

theorem Barrier.floored (h : Barrier s) (priceRepageFloor : Option Prices.RepageFloor) :
    Barrier { s with priceRepageFloor } :=
  { h with }

/-- A re-page of the capability snapshots from zero served what was turned away before it. -/
theorem Barrier.complete {n : ℕ} {dr : TableDrain} (h : Barrier s) (ho : Owing s)
    (hd : s.drains n = some (.paging dr)) (minAppliedWireId : Option ℕ)
    (hserves : ∀ p k q, s.log = p ++ .turnedAway k :: q → .opened n .capability_snapshots ∈ q →
      .started n .zero ∈ q → .served n k ∈ q) : Barrier (s.complete n dr minAppliedWireId) := by
  have hnoted : Barrier (s.note [.completed n]) := h.note (by simp [Event.inert])
  have hagain {p q : List (Event κ)} {k : κ} (hp : s.log = p ++ .turnedAway k :: q)
      (hopened : .opened n .capability_snapshots ∈ q) (hstarted : .started n .zero ∈ q) :
      ServedAgain k (q ++ [.completed n]) :=
    ⟨n, List.mem_append_left _ hopened, List.mem_append_left _ hstarted,
      List.mem_append_left _ (hserves p k q hp hopened hstarted), by simp⟩
  -- what was turned away before the drain began was served by it
  have hold {p q : List (Event κ)} {k : κ} (hp : s.log ++ [.completed n] = p ++ .turnedAway k :: q) :
      ∃ q', q = q' ++ [.completed n] ∧ s.log = p ++ .turnedAway k :: q' :=
    out_of_append hp rfl (by simp [Event.keepsOut])
  have hsettled : Barrier ((s.note [.completed n]).settleRepageOwed n dr) := by
    unfold State.settleRepageOwed
    by_cases hsettles : (s.note [.completed n]).settles dr = true
    · rw [if_pos hsettles]
      have hs : Alike (s.note [.completed n])
          (((s.note [.completed n]).setOwed dr.table none).note [.settled n dr.table])
          [.settled n dr.table] :=
        ⟨rfl, rfl, rfl, rfl, rfl, by simp [Event.inert], fun _ _ _ => rfl, h.counted⟩
      refine hnoted.alike hs ?_ ?_
      · rintro p k q hp (hover | hr)
        · exact .inr (.inl hover)
        · exact .inr (.inr (State.Repages.append hr _))
      · intro p k q hp hsome
        by_cases hT : dr.table = .capability_snapshots
        · refine .inl (.inr (ServedAgain.append ?_ _))
          obtain ⟨q', rfl, hp'⟩ := hold hp
          obtain ⟨p', rfl⟩ := h.marked p k q' hp'
          simp only [State.settles, Bool.and_eq_true, Bool.or_eq_true, beq_iff_eq] at hsettles
          obtain ⟨⟨hfull, hm⟩, howes⟩ := hsettles
          obtain ⟨m, hm⟩ := Option.isSome_iff_exists.mp hm
          have hview : s.view n = some (.capability_snapshots, some m, some dr.start) := by
            rw [view_of_drain hd, ← hm, ← hT]
            rfl
          have howes' : s.sync.repageOwed .capability_snapshots = some m := by
            rw [← hm, ← hT]
            exact howes
          have hunder := ho.under p' .capability_snapshots (.turnedAway k :: q') (by rw [hp']; simp) m
            howes' n (some dr.start) hview
          have hzero : dr.start = .zero := by
            have hne := start_ne_stored.mpr hfull
            cases hstart : dr.start with
            | zero => rfl
            | floor =>
              rw [hstart] at hview
              cases ho.floors n _ _ hview
            | stored => exact absurd hstart hne
          rw [hzero] at hunder
          refine hagain hp' ?_ ?_
          · simpa using hunder.1
          · simpa using hunder.2 .zero rfl
        · refine .inr ?_
          have hsome : (s.sync.repageOwed .capability_snapshots).isSome := hsome
          simpa [State.note, State.setOwed, Function.update_of_ne (Ne.symm hT)] using hsome
    · rw [if_neg hsettles]
      exact hnoted
  have hfloored : Barrier (((s.note [.completed n]).settleRepageOwed n dr).notePriceRepageFloor dr
      minAppliedWireId) := by
    unfold State.notePriceRepageFloor
    split_ifs
    · exact hsettled.floored _
    · exact hsettled
  refine hfloored.endDrain n true ?_
  intro _ p k q dr' hp hdr' hc
  obtain ⟨new, hlog, hdrains, hmem, hnew⟩ : ∃ new,
      (((s.note [.completed n]).settleRepageOwed n dr).notePriceRepageFloor dr minAppliedWireId).log =
        s.log ++ new ∧
      (((s.note [.completed n]).settleRepageOwed n dr).notePriceRepageFloor dr minAppliedWireId).drains =
        s.drains ∧ .completed n ∈ new ∧ ∀ e ∈ new, e = .completed n ∨ e = .settled n dr.table := by
    unfold State.notePriceRepageFloor State.settleRepageOwed
    split_ifs
    · exact ⟨[.completed n, .settled n dr.table], List.append_assoc s.log [_] [_], rfl, by simp, by simp⟩
    · exact ⟨[.completed n], rfl, rfl, by simp, by simp⟩
    · exact ⟨[.completed n, .settled n dr.table], List.append_assoc s.log [_] [_], rfl, by simp, by simp⟩
    · exact ⟨[.completed n], rfl, rfl, by simp, by simp⟩
  rw [hdrains, hd] at hdr'
  obtain rfl := Option.some.inj hdr'
  obtain ⟨-, hopened, hstarted⟩ := hc
  rw [hlog] at hp
  obtain ⟨q', rfl, hp'⟩ := out_of_append hp rfl fun e he => by
    rcases hnew e he with rfl | rfl <;> rfl
  have hold {e : Event κ} (he : e ∈ q' ++ new) (hc : e ≠ .completed n) (hs : e ≠ .settled n dr.table) :
      e ∈ q' := by
    refine (List.mem_append.mp he).resolve_right fun he' => ?_
    exact (hnew e he').elim hc hs
  have hopened' := hold hopened (by simp) (by simp)
  have hstarted' := hold hstarted (by simp) (by simp)
  refine .inr ⟨n, hopened, hstarted, List.mem_append_left _ (hserves p k q' hp' hopened' hstarted'), ?_⟩
  exact List.mem_append_right _ hmem

theorem Barrier.giveUp (h : Barrier s) (d : ℕ) : Barrier (s.giveUp d) :=
  h.endDrain d false nofun

/-! ### The steps of a drain -/

theorem Barrier.resolve {T : MirrorTable} {epoch revision : ℕ} (h : Barrier s)
    (hd : s.drains d = some (.opening T epoch revision))
    (hmark : ∃ u, MarkStep s u ∧ Quiet u (s.resolve d T epoch revision)) :
    Barrier (s.resolve d T epoch revision) := by
  have hs : Alike s (s.resolve d T epoch revision) [] :=
    ⟨rfl, rfl, rfl, rfl, (List.append_nil _).symm, by simp, fun _ _ _ => rfl, h.counted⟩
  refine h.setDrain hd hs rfl rfl rfl hmark ?_
  intro p k q hp hT
  rw [List.append_nil]
  -- the table is owed a re-page since, so its drain starts at zero
  rcases h.owed p k q hp with hj | hserved | hsome
  · exact .inl (.inl hj)
  · exact .inl (.inr hserved)
  · refine .inr ⟨hT, ?_⟩
    have hT : T = .capability_snapshots := hT
    subst hT
    simp only [Sync.resolveDrainCursor, hsome, or_true, if_true]
    split
    · simp
    · rfl

theorem Barrier.account {T : MirrorTable} {epoch revision lastId : ℕ} (h : Barrier s)
    (hd : s.drains d = some (.resolved T epoch revision lastId))
    (hmark : ∃ u, MarkStep s u ∧ Quiet u (s.account d T epoch revision lastId)) :
    Barrier (s.account d T epoch revision lastId) := by
  have hs : Alike s (s.account d T epoch revision lastId) [.opened d T] :=
    ⟨rfl, rfl, rfl, rfl, rfl, by simp [Event.inert], fun _ _ _ => rfl, h.counted⟩
  refine h.setDrain hd hs rfl rfl rfl hmark ?_
  rintro p k q hp ⟨rfl, rfl⟩
  exact .inr ⟨rfl, rfl, by simp⟩

theorem Barrier.placeRepageStart (h : Barrier s) (started : TableDrain) :
    Barrier (s.placeRepageStart started) := by
  have hmark := markStep_quiet (quiet_placeRepageStart (s := s) started)
  unfold State.placeRepageStart at hmark ⊢
  split_ifs at hmark ⊢
  · refine h.beside ⟨rfl, rfl, rfl, rfl, (List.append_nil _).symm, by simp, fun _ _ _ => rfl, h.counted⟩ rfl
      hmark ?_
    intro p k q _ hr
    exact .inr (by rwa [List.append_nil])
  · exact h

theorem Barrier.startPaging {dr : TableDrain} (h : Barrier s) (hd : s.drains d = some (.accounted dr))
    (floor : Option ℕ) : Barrier (s.startPaging d dr floor) := by
  have hmark := markStep_startPaging floor hd
  have hplaced := h.placeRepageStart (s.choosePriceRepageStart dr floor)
  unfold State.startPaging at hmark ⊢
  dsimp only at hmark ⊢
  split_ifs at hmark ⊢
  · have hs : Alike s (((s.placeRepageStart (s.choosePriceRepageStart dr floor)).setDrain d
        (.paging (s.choosePriceRepageStart dr floor))).note
          [.started d (s.choosePriceRepageStart dr floor).start])
        [.started d (s.choosePriceRepageStart dr floor).start] := by
      unfold State.placeRepageStart
      split_ifs <;> exact ⟨rfl, rfl, rfl, rfl, rfl, by simp [Event.inert], fun _ _ _ => rfl, h.counted⟩
    have hfields (started : TableDrain) : (s.placeRepageStart started).overflow = s.overflow ∧
        (s.placeRepageStart started).retry = s.retry ∧
        (s.placeRepageStart started).drains = s.drains := by
      unfold State.placeRepageStart
      split_ifs <;> exact ⟨rfl, rfl, rfl⟩
    obtain ⟨hover, hretry, hdrains⟩ := hfields (s.choosePriceRepageStart dr floor)
    have hupdate : Function.update (s.placeRepageStart (s.choosePriceRepageStart dr floor)).drains d
        (some (.paging (s.choosePriceRepageStart dr floor))) =
          Function.update s.drains d (some (.paging (s.choosePriceRepageStart dr floor))) := by
      rw [hdrains]
    refine h.setDrain hd hs hover hretry hupdate hmark ?_
    rintro p k q hp ⟨hT, hfull, hopened⟩
    have hnone : s.repageStart dr floor = none := by
      simp [State.repageStart, hT]
    have hstart : s.choosePriceRepageStart dr floor =
        { dr with floorStart := false, priceFloor := floor } := by
      simp only [State.choosePriceRepageStart, hnone]
    rw [hstart]
    refine .inr ⟨hT, List.mem_append_left _ hopened, ?_⟩
    simp [TableDrain.start, hfull]
  · exact hplaced.giveUp d

theorem Barrier.serve {i : ℕ} {dr : TableDrain} (h : Barrier s)
    (hd : s.drains d = some (.paging dr)) (hi : s.tasks i = none) :
    Barrier (((s.setDrain d (.paging { dr with busy := true })).startTask i
      ⟨.flush d, k, .entering⟩).note [.served d k]) := by
  have hset : Barrier (s.setDrain d (.paging { dr with busy := true })) := by
    refine h.setDrain hd ⟨rfl, rfl, rfl, rfl, (List.append_nil _).symm, by simp, fun _ _ _ => rfl, h.counted⟩
      rfl rfl rfl ?_ ?_
    · refine markStep_quiet (quiet_drain ?_ (.inr rfl))
      exact (view_of_drain hd).symm
    · intro p k q _ hc
      rw [List.append_nil]
      exact .inr hc
  have hstarted := hset.startTask (i := i) (t := ⟨.flush d, k, .entering⟩) nofun nofun (by
    intro u hu
    cases hi.symm.trans hu)
  exact hstarted.note (by simp [Event.inert])

theorem Barrier.advance {dr : TableDrain} (h : Barrier s) (hd : s.drains d = some (.paging dr)) (id : ℕ) :
    Barrier (s.advance d dr id) := by
  unfold State.advance
  split_ifs
  · refine h.setDrain hd ⟨rfl, rfl, rfl, rfl, (List.append_nil _).symm, by simp, fun _ _ _ => rfl, h.counted⟩
      rfl rfl rfl ?_ ?_
    · have hmoved : (some (Drain.paging { dr with lastId := id })).bind Drain.view = s.view d :=
        (view_of_drain hd).symm
      refine markStep_quiet ((quiet_drain hmoved (.inr rfl)).trans ?_)
      exact quiet_of_same rfl rfl rfl rfl
    · intro p k q _ hc
      rw [List.append_nil]
      exact .inr hc
  · exact h

/-- The pass moves on with nothing of it under way. -/
theorem Barrier.retryIdle {retry : RetryPass κ} (h : Barrier s) (hnone : ∀ todo i, s.retry ≠ .running todo (some i))
    (hrepages : ∀ q, s.Repages q → State.Repages { s with retry } q)
    (hcounted : ∀ d, retry ≠ .repaging d) : Barrier { s with retry } := by
  refine h.beside (show Alike s _ [] from
    ⟨rfl, rfl, rfl, rfl, (List.append_nil _).symm, by simp, ?_, ?_⟩) rfl
    (markStep_quiet (quiet_of_same rfl rfl rfl rfl)) ?_
  · intro todo i hr
    exact absurd hr (hnone todo i)
  · intro d hd
    exact absurd hd (hcounted d)
  · intro p k q _ hr
    rw [List.append_nil]
    exact .inr (hrepages q hr)

theorem no_repages (hrepaging : ∀ d, s.retry ≠ .repaging d) (hrepaged : s.retry ≠ .repaged false) :
    ¬ s.Repages q := by
  rintro (hr | ⟨d, -, hd, -⟩)
  · exact hrepaged hr
  · exact hrepaging d hd

section steps
variable [DecidableEq κ] {cap i : ℕ} {l : Label K κ}

theorem Barrier.drainStep (h : Barrier s) (ho : Owing s) (hcare : Careful s l)
    (hs : s.drainStep l = some s') : Barrier s' := by
  have hmark := markStep_drainStep hs
  have hmark (hl : ∀ d m, l ≠ .complete d m) : ∃ u, MarkStep s u ∧ Quiet u s' := by
    rcases hmark with hmark | ⟨d, m, -, -, -, -, rfl, -⟩
    · exact hmark
    · exact absurd rfl (hl d m)
  cases l with
  | resolve d =>
    simp only [State.drainStep] at hs
    split at hs
    case h_1 hd =>
      obtain rfl := Option.some.inj hs
      exact h.resolve hd (hmark (by simp))
    · cases hs
  | account d =>
    simp only [State.drainStep] at hs
    split at hs
    case h_1 hd =>
      obtain rfl := Option.some.inj hs
      exact h.account hd (hmark (by simp))
    · cases hs
  | start d floor =>
    simp only [State.drainStep] at hs
    split at hs
    case h_1 hd => exact Option.some.inj hs ▸ h.startPaging hd floor
    · cases hs
  | serve i d k =>
    simp only [State.drainStep] at hs
    split at hs
    case h_1 hd hi =>
      split_ifs at hs
      exact Option.some.inj hs ▸ h.serve hd hi
    · cases hs
  | advance d id =>
    simp only [State.drainStep] at hs
    split at hs
    case h_1 hd =>
      split_ifs at hs
      exact Option.some.inj hs ▸ h.advance hd id
    · cases hs
  | complete d minAppliedWireId =>
    simp only [State.drainStep] at hs
    split at hs
    case h_1 hd =>
      split_ifs at hs
      exact Option.some.inj hs ▸ h.complete ho hd minAppliedWireId hcare
    · cases hs
  | giveUp d boundRefused =>
    simp only [State.drainStep] at hs
    split at hs
    · split_ifs at hs
      all_goals exact Option.some.inj hs ▸ (h.floored _).giveUp d
    · cases hs
  | _ => cases hs

/-! ### The retry pass -/

omit [DecidableEq κ] in
/-- The next held row is judged again. -/
theorem Barrier.retake {todo todo' : List κ} (h : Barrier s) (hr : s.retry = .running todo none)
    (hi : s.tasks i = none) :
    Barrier ({ s with retry := .running todo' (some i) }.startTask i ⟨.retry, k, .judging true⟩) := by
  have hnone (j : ℕ) (u : Task κ) (hj : s.tasks j = some u) : u.caller ≠ .retry := by
    intro hu
    obtain ⟨⟨todo'', hr'⟩, -⟩ := h.retrying j u hj hu
    rw [hr] at hr'
    cases hr'
  have hold {j : ℕ} {u : Task κ} (hji : j ≠ i)
      (hj : (State.startTask { s with retry := .running todo' (some i) } i
        ⟨.retry, k, .judging true⟩).tasks j = some u) : s.tasks j = some u :=
    (Function.update_of_ne hji _ _).symm.trans hj
  refine { h with held := ?_, turned := ?_, retrying := ?_, judging := ?_, counted := nofun }
  · intro p k' q heq
    refine (h.held p k' q heq).imp id (Or.imp id ?_)
    rintro ⟨j, u, hj, hk, hu, hq⟩
    have hji : j ≠ i := by
      rintro rfl
      cases hi.symm.trans hj
    exact ⟨j, u, (Function.update_of_ne hji _ _).trans hj, hk, hu, hq⟩
  · intro p k' q heq
    refine (h.turned p k' q heq).imp id (Or.imp id (Or.imp id fun hrep => ?_))
    exact absurd hrep (no_repages (by simp [hr]) (by simp [hr]))
  · intro j u hj hu
    by_cases hji : j = i
    · subst hji
      obtain rfl : (⟨.retry, k, .judging true⟩ : Task κ) = u := by simpa [State.startTask] using hj
      exact ⟨⟨todo', rfl⟩, .inl rfl⟩
    · exact absurd hu (hnone j u (hold hji hj))
  · intro j u hj hu
    by_cases hji : j = i
    · subst hji
      obtain rfl : (⟨.retry, k, .judging true⟩ : Task κ) = u := by simpa [State.startTask] using hj
      rfl
    · exact h.judging j u (hold hji hj) hu

omit [DecidableEq κ] in
/-- An overflow is paged again: the flag goes, and the re-page answers for it. -/
theorem Barrier.repage {todo : List κ} (h : Barrier s) (hr : s.retry = .running todo none) :
    Barrier ({ s with overflow := false, retry := .repaging s.drainCount }.bootstrapTable
      .capability_snapshots) := by
  refine h.alike (show Alike s _ [] from
    ⟨rfl, rfl, rfl, rfl, (List.append_nil _).symm, by simp, ?_, ?_⟩) ?_ ?_
  · intro todo' i hr'
    rw [hr] at hr'
    cases hr'
  · intro d hd
    obtain rfl := RetryPass.repaging.inj hd
    exact Nat.lt_succ_self _
  · intro p k q _ _
    exact .inr (.inr (.inr ⟨s.drainCount, _, rfl, Function.update_self _ _ _, rfl⟩))
  · intro p k q _ hsome
    exact .inr hsome

theorem Barrier.retryStep (h : Barrier s) (hcare : Careful s l) (hs : s.retryStep l = some s') :
    Barrier s' := by
  cases l with
  | retryBegin =>
    simp only [State.retryStep] at hs
    split at hs
    case h_1 hr =>
      refine Option.some.inj hs ▸ h.retryIdle (by simp [hr]) ?_ (by simp)
      intro q hrep
      exact absurd hrep (no_repages (by simp [hr]) (by simp [hr]))
    · cases hs
  | retryTake i k =>
    simp only [State.retryStep] at hs
    split at hs
    case h_1 hr hi =>
      split_ifs at hs
      · exact Option.some.inj hs ▸ h.retake hr hi
      · refine Option.some.inj hs ▸ h.retryIdle (by simp [hr]) ?_ (by simp)
        intro q hrep
        exact absurd hrep (no_repages (by simp [hr]) (by simp [hr]))
    · cases hs
  | retryOverflow =>
    simp only [State.retryStep] at hs
    split at hs
    case h_1 hr =>
      split_ifs at hs
      · refine Option.some.inj hs ▸ h.retryIdle (by simp [hr]) ?_ (by simp)
        intro q hrep
        exact absurd hrep (no_repages (by simp [hr]) (by simp [hr]))
      · exact Option.some.inj hs ▸ h.repage hr
    · cases hs
  | overflowChecked =>
    simp only [State.retryStep] at hs
    split at hs
    case h_1 drained hr =>
      refine Option.some.inj hs ▸ h.alike (show Alike s _ [] from
        ⟨rfl, rfl, rfl, rfl, (List.append_nil _).symm, by simp, ?_, by simp⟩) ?_ ?_
      · intro todo i hr'
        rw [hr] at hr'
        cases hr'
      · rintro p k q _ (hover | hrep)
        · exact .inr (.inl (by simp [hover]))
        · -- the re-page failed, so the flag goes back up
          have hfailed : s.retry = .repaged false := by
            rcases hrep with hfailed | ⟨d, -, hd, -⟩
            · exact hfailed
            · cases hr.symm.trans hd
          obtain rfl := RetryPass.repaged.inj (hr.symm.trans hfailed)
          exact .inr (.inl (by simp [hcare hfailed]))
      · intro p k q _ hsome
        exact .inr hsome
    · cases hs
  | retryEnd =>
    simp only [State.retryStep] at hs
    split at hs
    case h_1 hr =>
      have hidle : Barrier { s with retry := .idle } := by
        refine h.retryIdle (by simp [hr]) ?_ (by simp)
        intro q hrep
        exact absurd hrep (no_repages (by simp [hr]) (by simp [hr]))
      refine Option.some.inj hs ▸ hidle.release ?_
      intro w hw
      refine (hcare w hw).imp id (And.imp (fun _ _ => ?_) id)
      rintro (⟨d, hd⟩ | hno)
      · cases hd
      · cases hno
    · cases hs
  | _ => cases hs

/-! ### The barrier -/

omit [DecidableEq κ] in
/-- A question is answered where it is asked, outside the windows. -/
theorem Barrier.answerNow (h : Barrier s) (hsat : s.capabilityProofSatisfied = true) (hshort : ¬ s.short)
    (hfreed : ∀ k, ¬ s.freed k) : Barrier s.answerNow := by
  simp only [State.capabilityProofSatisfied, Bool.and_eq_true, List.isEmpty_iff, Bool.not_eq_true'] at hsat
  refine h.grow (by simp [Event.keepsOut]) (each_concat.mpr ⟨h.opens, ?_⟩)
  rintro asked observed repaging heq
  cases heq
  constructor
  · intro p x q hp _
    cases x with
    | held k =>
      rcases h.held p k q hp with hj | hmem | ⟨i, t, hi, hkey, hphase, -⟩
      · exact hj
      · simp [hsat.1] at hmem
      · exact absurd ⟨i, t, hi, hkey, hphase⟩ (hfreed k)
    | turnedAway k => exact cleared_of_spared h hshort hsat.2 hp
    | _ => trivial
  · intro _
    exact repaging_of_not_short hshort

omit [DecidableEq κ] in
/-- A question is parked with all that stays out. -/
theorem Barrier.park (h : Barrier s) (hshort : ¬ s.short) (hfreed : ∀ k, ¬ s.freed k) :
    Barrier { s with waiters := s.waiters ++ [⟨s.holds, s.overflow, s.log.length⟩] } := by
  refine { h with asked := ?_, waiters := ?_ }
  · intro w hw
    rcases List.mem_append.mp hw with hw | hw
    · exact h.asked w hw
    · obtain rfl := List.mem_singleton.mp hw
      exact le_rfl
  · intro w hw p x q hp hlt
    rcases List.mem_append.mp hw with hw | hw
    · exact h.waiters w hw p x q hp hlt
    · obtain rfl := List.mem_singleton.mp hw
      intro k
      constructor
      · rintro rfl
        rcases h.held p k q hp with hj | hmem | ⟨i, t, hi, hkey, hphase, -⟩
        · exact .inl hj
        · exact .inr hmem
        · exact absurd ⟨i, t, hi, hkey, hphase⟩ (hfreed k)
      · rintro rfl
        rcases h.turned p k q hp with hj | hserved | hover | hrep
        · exact .inl hj
        · exact .inr (.inl hserved)
        · exact .inr (.inr hover)
        · exact absurd hrep.short hshort

theorem Barrier.barrierStep (h : Barrier s) (hcare : Careful s l) (hs : s.barrierStep l = some s') :
    Barrier s' := by
  cases l with
  | query =>
    obtain rfl := Option.some.inj hs
    split_ifs with hsat
    · exact h.answerNow hsat (hcare hsat).1 (hcare hsat).2
    · exact h
  | wait =>
    obtain rfl := Option.some.inj hs
    unfold State.waitForCapabilityProof
    split_ifs with hsat
    · exact h.answerNow hsat hcare.1 hcare.2
    · exact h.park hcare.1 hcare.2
  | timeout j =>
    simp only [State.barrierStep] at hs
    split_ifs at hs
    refine Option.some.inj hs ▸ (h.release hcare).unpark ?_
    intro w hw
    obtain ⟨hmem, hstays⟩ := List.mem_filter.mp hw
    exact List.mem_filter.mpr ⟨List.mem_of_mem_eraseIdx hmem, hstays⟩
  | _ => cases hs

/-! ### Every run -/

omit [DecidableEq κ] in
theorem barrier_init : Barrier ({} : State K κ) where
  held := by simp
  turned := by simp
  marked := by simp
  owed := by simp
  retrying := by simp
  judging := by simp
  counted := by simp
  asked := by simp
  waiters := by simp
  opens := each_nil

theorem Barrier.step (h : Barrier s) (ho : Owing s) (hcare : Careful s l) (hs : s.step cap l = some s') :
    Barrier s' := by
  cases l with
  | socket l => exact Option.some.inj hs ▸ h.socketStep l
  | live | fence | judged | written =>
    simp only [State.step] at hs
    exact h.rowStep hcare hs
  | retryBegin | retryTake | retryOverflow | overflowChecked | retryEnd =>
    simp only [State.step] at hs
    exact h.retryStep hcare hs
  | passBegin | passTable | passEnd =>
    simp only [State.step] at hs
    exact h.passStep hs
  | resolve | account | start | serve | advance | complete | giveUp =>
    simp only [State.step] at hs
    exact h.drainStep ho hcare hs
  | query | wait | timeout =>
    simp only [State.step] at hs
    exact h.barrierStep hcare hs

/-- In every run whose steps keep to `Careful`, the barrier opens only over rows that were judged, and
    applied where they were not refused, or that a later re-page served again, and to no question that
    saw an overflow while the re-page of one runs. -/
theorem opens_over_judged (cap : ℕ) {labels : List (Label K κ)}
    (hm : Runs.Meets (State.step cap) Careful {} labels)
    (hr : Runs.run (State.step cap) {} labels = some s) : Each OpensOverJudged s.log := by
  have h : Barrier s ∧ Owing s := by
    refine Runs.run_inv (C := Careful) (I := fun s => Barrier s ∧ Owing s) ?_ ⟨barrier_init, owing_init⟩ hm hr
    rintro s l s' ⟨h, ho⟩ hcare hs
    exact ⟨h.step ho hcare hs, ho.step hs⟩
  exact h.1.opens

/-- A live row is held, a question is parked behind it, and the retry pass applies the row. -/
def heldThenRetried : List (Label Unit ℕ) :=
  [.live 0 7, .fence 0 false, .judged 0 .held, .wait, .retryBegin, .retryTake 1 7, .judged 1 .accepted,
    .fence 1 false, .written 1 true, .retryOverflow, .retryEnd]

theorem opens_over_judged_retried : ∃ s : State Unit ℕ,
    Runs.run (State.step CAPABILITY_SNAPSHOT_KEY_CAP) {} heldThenRetried = some s ∧
      s.log.getLast? = some (.answered 2 false false) ∧ Each OpensOverJudged s.log := by
  have hlog : (Runs.run (State.step CAPABILITY_SNAPSHOT_KEY_CAP) {} heldThenRetried).map
      (fun s => s.log.getLast?) = some (some (.answered 2 false false)) := by decide +kernel
  obtain ⟨s, hr, hs⟩ := Option.map_eq_some_iff.mp hlog
  refine ⟨s, hr, hs, opens_over_judged CAPABILITY_SNAPSHOT_KEY_CAP ?_ hr⟩
  refine ⟨trivial, ?_, ?_, ?_, trivial, trivial, ?_, ?_, ?_, trivial, ?_, trivial⟩
  · intro t ht _
    exact List.not_mem_nil
  · intro t ht j u hj hu
    cases j with
    | zero =>
      obtain rfl := Option.some.inj hj
      cases hu
    | succ j => cases hj
  · refine ⟨?_, ?_⟩
    · rintro (⟨d, hd⟩ | hd) <;> cases hd
    · rintro k ⟨i, t, hi, -⟩
      cases i <;> cases hi
  · intro t ht hphase
    obtain rfl := Option.some.inj ht
    cases hphase
  · intro t ht hcaller
    obtain rfl := Option.some.inj ht
    exact absurd rfl hcaller
  · intro t ht _
    rfl
  · intro w hw
    obtain rfl := List.mem_singleton.mp hw
    refine .inr ⟨nofun, ?_⟩
    rintro k - ⟨i, t, hi, -⟩
    rcases i with - | - | i <;> cases hi

/-- The same row comes again while a question is parked behind it, and its judgement opens the barrier
    before the row is written. -/
def letGoBeforeItsWrite : List (Label Unit ℕ) :=
  [.live 0 7, .fence 0 false, .judged 0 .held, .wait, .live 1 7, .fence 1 false, .judged 1 .accepted]

/-- A full map turns a row away. The re-page that makes up for it serves another row first, and that
    row's judgement opens the barrier to a question that saw the overflow. -/
def answeredInItsRepage : List (Label Unit ℕ) :=
  [.live 0 7, .fence 0 false, .judged 0 .held, .live 0 8, .fence 0 false, .judged 0 .held, .wait,
    .retryBegin, .retryTake 0 7, .judged 0 .accepted, .fence 0 false, .written 0 true, .retryOverflow,
    .resolve 0, .account 0, .start 0 none, .serve 0 0 9, .fence 0 false, .judged 0 .accepted]

theorem opens_too_early :
    (∃ s : State Unit ℕ,
      Runs.run (State.step CAPABILITY_SNAPSHOT_KEY_CAP) {} letGoBeforeItsWrite = some s ∧
        ¬ Each OpensOverJudged s.log) ∧
      ∃ s : State Unit ℕ, Runs.run (State.step 1) {} answeredInItsRepage = some s ∧
        ¬ Each OpensOverJudged s.log := by
  constructor
  · have hlog : (Runs.run (State.step CAPABILITY_SNAPSHOT_KEY_CAP) {} letGoBeforeItsWrite).map State.log =
        some [.marked .capability_snapshots none, .held 7, .judged 7 false, .answered 2 false false] := by
      decide +kernel
    obtain ⟨s, hr, hs⟩ := Option.map_eq_some_iff.mp hlog
    refine ⟨s, hr, fun h => ?_⟩
    have hopens := h [.marked .capability_snapshots none, .held 7, .judged 7 false] _ [] hs 2 false false rfl
    have hjudged : Judged 7 [.judged 7 false] := hopens.1 [.marked .capability_snapshots none] (.held 7)
      [.judged 7 false] rfl (by decide)
    rcases hjudged with hrefused | ⟨q₁, q₂, hq, hq₂⟩
    · simp at hrefused
    · obtain rfl : q₂ = [] := by
        rcases q₁ with - | ⟨e, q₁⟩
        · exact (List.cons.inj hq).2.symm
        · simp at hq
      simp at hq₂
  · have hlog : (Runs.run (State.step 1) {} answeredInItsRepage).map State.log =
        some ([.marked .capability_snapshots none, .held 7, .marked .capability_snapshots none,
          .turnedAway 8, .judged 7 false, .landed 7, .opened 0 .capability_snapshots, .started 0 .zero,
          .served 0 9, .judged 9 false] ++ [.answered 4 true true]) := by
      decide +kernel
    obtain ⟨s, hr, hs⟩ := Option.map_eq_some_iff.mp hlog
    refine ⟨s, hr, fun h => ?_⟩
    have hopens := h _ _ [] hs 4 true true rfl
    cases hopens.2 rfl

end steps

end HubDbSync.CapabilityProof
