import XChainExplorer.Ws.FanoutSteps

/-! # Rows are delivered whole

    One admission a client and row, and a close that waits for the end of the row: what the journal
    of a run then says about the frames a client was handed after one that it lost. -/

namespace Broadcaster

open JsText ChannelManager Journal

/-! ### What the journal says of a client -/

namespace Entry

/-- A frame of row `n` that routes to a key of the client and passes its filter. -/
def WantedIn (c n : ℕ) : Entry → Prop
  | .offered o => o.client = c ∧ o.ofRow = true ∧ o.during = some n ∧ o.outcome ≠ .joined ∧ o.outcome ≠ .filtered
  | _ => False

def HandedTo (c : ℕ) : Entry → Prop
  | .offered o => o.client = c ∧ o.outcome = .handed
  | .told c' _ sent => c' = c ∧ sent = true
  | _ => False

def RowFrame : Entry → Prop
  | .offered o => o.ofRow = true ∧ o.during.isSome = true
  | _ => False

/-- A frame of row `n` that the client was refused for backpressure. -/
def RowRefused (c n : ℕ) : Entry → Prop
  | .offered o => o.client = c ∧ o.ofRow = true ∧ o.during = some n ∧ o.outcome = .refused
  | _ => False

/-- A frame of no row that the client lost for backpressure, and the row in flight then. -/
def Dropped (c : ℕ) (during : Option ℕ) : Entry → Prop
  | .offered o => o.client = c ∧ (o.ofRow = false ∨ o.during = none) ∧ o.during = during ∧ o.outcome = .refused
  | _ => False

/-- The client of an offer and the row in flight are known. -/
def Known (nextId rows : ℕ) : Entry → Prop
  | .offered o => o.client < nextId ∧ ∀ n, o.during = some n → n < rows
  | _ => True

end Entry

/-- Nothing more reaches the client. -/
def Shut (s : State) (c : ℕ) : Prop :=
  (s.sockets c).isOpen = false ∨ s.registry.clients c = none ∧ c < s.registry.nextId

/-- The close of a client waits for the end of row `n`, for a frame of no row that it lost there. -/
def Waiting (s : State) (c n : ℕ) (journal : List Entry) : Prop :=
  (∃ row, s.row = some row ∧ row.number = n) ∧ (s.sockets c).backpressureClosePending = true ∧
    ∃ d ∈ journal, d.Dropped c (some n)

/-- What may have come before a frame that reaches a client. -/
def SentOk (pre : List Entry) (e : Entry) : Prop :=
  ∀ c, e.HandedTo c →
    (∀ n pre' r mid, pre = pre' ++ r :: mid → r.RowRefused c n →
      ¬ e.RowFrame ∧ .rowEnded n ∉ pre ∧ ∃ d ∈ pre', d.Dropped c (some n)) ∧
    ∀ d ∈ pre, ∀ during, d.Dropped c during → ∃ n, during = some n ∧ .rowEnded n ∉ pre

/-- The journal and the state it led to. -/
structure Recorded (s : State) : Prop where
  connected : ∀ c, (s.registry.clients c).isSome = true → c < s.registry.nextId
  number : ∀ row, s.row = some row → row.number < s.rows
  known : ∀ e ∈ s.journal, e.Known s.registry.nextId s.rows
  ended : ∀ n, .rowEnded n ∈ s.journal → n < s.rows ∧ ∀ row, s.row = some row → row.number ≠ n
  closing : ∀ c, (s.sockets c).backpressureClosing = true → (s.sockets c).isOpen = false
  dropped : ∀ e ∈ s.journal, ∀ c during, e.Dropped c during →
    Shut s c ∨ ∃ n, during = some n ∧ Waiting s c n s.journal
  /-- A client that the row in flight turned away is shut, or its close waits. -/
  rejected : ∀ row c, s.row = some row → row.admissions c = some false →
    Shut s c ∨ Waiting s c row.number s.journal
  refused : Each (fun pre e => ∀ c n, e.RowRefused c n → Shut s c ∨
    Waiting s c n pre ∧ ∃ row, s.row = some row ∧ row.admissions c = some false) s.journal
  /-- The frames of the row in flight follow its admission. -/
  admitted : ∀ row, s.row = some row → ∀ e ∈ s.journal, ∀ c, e.WantedIn c row.number →
    row.admissions c = some true ∧ (e.HandedTo c ↔ (s.sockets c).isOpen = true) ∨
    row.admissions c = some false ∧ ¬ e.HandedTo c
  whole : ∀ c n, (∀ e ∈ s.journal, e.WantedIn c n → e.HandedTo c) ∨
    ∀ e ∈ s.journal, e.WantedIn c n → ¬ e.HandedTo c
  sent : Each SentOk s.journal

/-- A close waits only during a row, for a frame lost in it. -/
structure Bracketed (s : State) : Prop extends Recorded s where
  pending : ∀ c, (s.sockets c).backpressureClosePending = true → Shut s c ∨ ∃ n, Waiting s c n s.journal

theorem bracketed_initial : Bracketed initial where
  connected c h := by simp [initial, Registry.empty] at h
  number row h := by simp [initial] at h
  known e h := by simp [initial] at h
  ended n h := by simp [initial] at h
  closing c h := by simp [initial, freshSocket] at h
  pending c h := by simp [initial, freshSocket] at h
  dropped e h := by simp [initial] at h
  rejected row c h := by simp [initial] at h
  refused := each_nil
  admitted row h := by simp [initial] at h
  whole c n := .inl (by simp [initial])
  sent := each_nil

variable {s s' : State}

theorem Waiting.mono {c n : ℕ} {journal journal' : List Entry} (h : Waiting s c n journal)
    (hsub : journal ⊆ journal') : Waiting s c n journal' := by
  obtain ⟨hrow, hpending, d, hd, hdropped⟩ := h
  exact ⟨hrow, hpending, d, hsub hd, hdropped⟩

theorem Waiting.number_eq {c n : ℕ} {journal : List Entry} (h : Waiting s c n journal) {row : Row}
    (hrow : s.row = some row) : row.number = n := by
  obtain ⟨⟨row', hrow', hnumber⟩, -⟩ := h
  rw [hrow, Option.some.injEq] at hrow'
  exact hrow' ▸ hnumber

theorem not_shut {c : ℕ} (hopen : (s.sockets c).isOpen = true) (hclient : (s.registry.clients c).isSome = true) :
    ¬ Shut s c := by
  rintro (h | ⟨h, -⟩)
  · rw [hopen] at h
    exact absurd h (by simp)
  · rw [h] at hclient
    exact absurd hclient (by simp)

/-- What reaches a client now may stand after all that the journal says. -/
theorem Recorded.sentOk (h : Recorded s) {e : Entry} {id : ℕ} (honly : ∀ c, e.HandedTo c → c = id)
    (hshut : ¬ Shut s id)
    (hrow : e.RowFrame → ∃ row, s.row = some row ∧ row.admissions id = some true) : SentOk s.journal e := by
  intro c hhanded
  obtain rfl := honly c hhanded
  have hended : ∀ {n : ℕ} {journal : List Entry}, Waiting s c n journal → .rowEnded n ∉ s.journal := by
    intro n journal hwait hmem
    obtain ⟨⟨row, hrow', hnumber⟩, -⟩ := hwait
    exact (h.ended n hmem).2 row hrow' hnumber
  constructor
  · intro n pre r mid heq hr
    rcases h.refused pre r mid heq c n hr with hshut' | ⟨hwait, row, hrow', hfalse⟩
    · exact absurd hshut' hshut
    · refine ⟨?_, hended hwait, hwait.2.2⟩
      intro he
      obtain ⟨row', hrow'', htrue⟩ := hrow he
      rw [hrow', Option.some.injEq] at hrow''
      rw [← hrow'', hfalse] at htrue
      exact absurd htrue (by simp)
  · intro d hd during hdropped
    rcases h.dropped d hd c during hdropped with hshut' | ⟨n, rfl, hwait⟩
    · exact absurd hshut' hshut
    · exact ⟨n, rfl, hended hwait⟩

/-! ### One entry more -/

/-- An entry that brings with it what it says is recorded. -/
theorem Recorded.note (h : Recorded s) {e : Entry} (hknown : e.Known s.registry.nextId s.rows)
    (hended : ∀ n, e = .rowEnded n → n < s.rows ∧ s.row = none) (hsent : SentOk s.journal e)
    (hdropped : ∀ c during, e.Dropped c during →
      Shut s c ∨ ∃ n, during = some n ∧ Waiting s c n (s.journal ++ [e]))
    (hrefused : ∀ c n, e.RowRefused c n → Shut s c ∨
      Waiting s c n s.journal ∧ ∃ row, s.row = some row ∧ row.admissions c = some false)
    (hwanted : ∀ c n, e.WantedIn c n → ∃ row, s.row = some row ∧ row.number = n ∧
      (row.admissions c = some true ∧ (e.HandedTo c ↔ (s.sockets c).isOpen = true) ∨
        row.admissions c = some false ∧ ¬ e.HandedTo c)) : Recorded (s.note [e]) := by
  have hsub : s.journal ⊆ s.journal ++ [e] := List.subset_append_left _ _
  have hmem : ∀ {x : Entry}, x ∈ s.journal ++ [e] → x ∈ s.journal ∨ x = e := by
    intro x hx
    rcases List.mem_append.mp hx with hx | hx
    · exact .inl hx
    · exact .inr (List.mem_singleton.mp hx)
  have hadmitted : ∀ row, s.row = some row → ∀ x ∈ s.journal ++ [e], ∀ c, x.WantedIn c row.number →
      row.admissions c = some true ∧ (x.HandedTo c ↔ (s.sockets c).isOpen = true) ∨
      row.admissions c = some false ∧ ¬ x.HandedTo c := by
    intro row hrow x hx c hx'
    rcases hmem hx with hx | rfl
    · exact h.admitted row hrow x hx c hx'
    · obtain ⟨row', hrow', -, hcase⟩ := hwanted c row.number hx'
      rw [hrow, Option.some.injEq] at hrow'
      exact hrow' ▸ hcase
  refine ⟨h.connected, h.number, ?_, ?_, h.closing, ?_, ?_, ?_, hadmitted, ?_, ?_⟩
  · intro x hx
    rcases hmem hx with hx | rfl
    · exact h.known x hx
    · exact hknown
  · intro n hn
    rcases hmem hn with hn | hn
    · exact h.ended n hn
    · obtain ⟨hlt, hnone⟩ := hended n hn.symm
      exact ⟨hlt, fun row hrow => absurd (hnone.symm.trans hrow) (by simp)⟩
  · intro x hx c during hdrop
    rcases hmem hx with hx | rfl
    · rcases h.dropped x hx c during hdrop with hshut | ⟨n, hduring, hwait⟩
      · exact .inl hshut
      · exact .inr ⟨n, hduring, hwait.mono hsub⟩
    · exact hdropped c during hdrop
  · intro row c hrow hfalse
    rcases h.rejected row c hrow hfalse with hshut | hwait
    · exact .inl hshut
    · exact .inr (hwait.mono hsub)
  · exact each_concat.mpr ⟨h.refused, hrefused⟩
  · intro c n
    by_cases hrow : ∃ row, s.row = some row ∧ row.number = n
    · obtain ⟨row, hrow, rfl⟩ := hrow
      by_cases hopen : row.admissions c = some true ∧ (s.sockets c).isOpen = true
      · refine .inl fun x hx hx' => ?_
        rcases hadmitted row hrow x hx c hx' with ⟨-, hiff⟩ | ⟨hfalse, -⟩
        · exact hiff.mpr hopen.2
        · rw [hopen.1] at hfalse
          exact absurd hfalse (by simp)
      · refine .inr fun x hx hx' => ?_
        rcases hadmitted row hrow x hx c hx' with ⟨htrue, hiff⟩ | ⟨-, hnot⟩
        · intro hhanded
          exact hopen ⟨htrue, hiff.mp hhanded⟩
        · exact hnot
    · have hold : ∀ x ∈ s.journal ++ [e], x.WantedIn c n → x ∈ s.journal := by
        intro x hx hx'
        rcases hmem hx with hx | rfl
        · exact hx
        · obtain ⟨row, hrow', hnumber, -⟩ := hwanted c n hx'
          exact absurd ⟨row, hrow', hnumber⟩ hrow
      rcases h.whole c n with hall | hnone
      · exact .inl fun x hx hx' => hall x (hold x hx hx') hx'
      · exact .inr fun x hx hx' => hnone x (hold x hx hx') hx'
  · exact each_concat.mpr ⟨h.sent, hsent⟩

theorem Bracketed.note (h : Bracketed s) {e : Entry} (hrecorded : Recorded (s.note [e])) :
    Bracketed (s.note [e]) where
  toRecorded := hrecorded
  pending c hpending := by
    rcases h.pending c hpending with hshut | ⟨n, hwait⟩
    · exact .inl hshut
    · exact .inr ⟨n, hwait.mono (List.subset_append_left _ _)⟩

/-! ### A change of the state behind the journal -/

/-- A state that has lost nothing of what the journal relies on. -/
structure Follows (s s' : State) : Prop where
  journal : s'.journal = s.journal
  nextId : s.registry.nextId ≤ s'.registry.nextId
  connected : ∀ c, (s'.registry.clients c).isSome = true → c < s'.registry.nextId
  rows : s.rows ≤ s'.rows
  closing : ∀ c, (s'.sockets c).backpressureClosing = true → (s'.sockets c).isOpen = false
  shut : ∀ c, Shut s c → Shut s' c
  waiting : ∀ c n journal, journal ⊆ s.journal → Waiting s c n journal → Shut s' c ∨ Waiting s' c n journal
  number : ∀ row, s'.row = some row → row.number < s'.rows ∧ .rowEnded row.number ∉ s.journal
  rejected : ∀ row c, s'.row = some row → row.admissions c = some false →
    Shut s' c ∨ Waiting s' c row.number s.journal
  refused : ∀ row c, s.row = some row → row.admissions c = some false →
    Shut s' c ∨ ∃ row', s'.row = some row' ∧ row'.admissions c = some false
  admitted : ∀ row, s'.row = some row → ∀ e ∈ s.journal, ∀ c, e.WantedIn c row.number →
    row.admissions c = some true ∧ (e.HandedTo c ↔ (s'.sockets c).isOpen = true) ∨
    row.admissions c = some false ∧ ¬ e.HandedTo c

theorem Recorded.follow (h : Recorded s) (hf : Follows s s') : Recorded s' where
  connected := hf.connected
  number row hrow := (hf.number row hrow).1
  known e he := by
    rw [hf.journal] at he
    have hknown := h.known e he
    have hnext := hf.nextId
    have hrows := hf.rows
    cases e with
    | offered o => exact ⟨hknown.1.trans_le hnext, fun n hn => (hknown.2 n hn).trans_le hrows⟩
    | _ => trivial
  ended n hn := by
    rw [hf.journal] at hn
    refine ⟨(h.ended n hn).1.trans_le hf.rows, ?_⟩
    rintro row hrow rfl
    exact (hf.number row hrow).2 hn
  closing := hf.closing
  dropped e he c during hdrop := by
    rw [hf.journal] at he ⊢
    rcases h.dropped e he c during hdrop with hshut | ⟨n, hduring, hwait⟩
    · exact .inl (hf.shut c hshut)
    · rcases hf.waiting c n _ (List.Subset.refl _) hwait with hshut | hwait
      · exact .inl hshut
      · exact .inr ⟨n, hduring, hwait⟩
  rejected row c hrow hfalse := by
    rw [hf.journal]
    exact hf.rejected row c hrow hfalse
  refused := by
    rw [hf.journal]
    intro pre e post heq c n hr
    have hsub : pre ⊆ s.journal := by
      rw [heq]
      exact List.subset_append_left _ _
    rcases h.refused pre e post heq c n hr with hshut | ⟨hwait, row, hrow, hfalse⟩
    · exact .inl (hf.shut c hshut)
    · rcases hf.waiting c n pre hsub hwait with hshut | hwait
      · exact .inl hshut
      · rcases hf.refused row c hrow hfalse with hshut | hrow'
        · exact .inl hshut
        · exact .inr ⟨hwait, hrow'⟩
  admitted row hrow e he := by
    rw [hf.journal] at he
    exact hf.admitted row hrow e he
  whole := by
    rw [hf.journal]
    exact h.whole
  sent := by
    rw [hf.journal]
    exact h.sent

/-- No client comes back, and none is known before its turn. -/
structure Aged (r r' : Registry) : Prop where
  nextId : r.nextId ≤ r'.nextId
  gone : ∀ c, c < r.nextId → r.clients c = none → r'.clients c = none
  connected : ∀ c, (r'.clients c).isSome = true → c < r'.nextId

/-- The parts of a socket that a change of its buffered amount leaves. -/
def Socket.status (socket : Socket) : Bool × Bool × Bool :=
  (socket.isOpen, socket.backpressureClosing, socket.backpressureClosePending)

def Row.verdicts (row : Row) : ℕ × (ℕ → Option Bool) := (row.number, row.admissions)

/-- A change of the subscriptions, of the clients or of a buffered amount. -/
structure Alike (s s' : State) : Prop where
  aged : Aged s.registry s'.registry
  status : ∀ c, (s'.sockets c).status = (s.sockets c).status
  verdicts : s'.row.map Row.verdicts = s.row.map Row.verdicts
  rows : s'.rows = s.rows
  journal : s'.journal = s.journal

theorem Alike.isOpen (h : Alike s s') (c : ℕ) : (s'.sockets c).isOpen = (s.sockets c).isOpen :=
  congrArg (·.1) (h.status c)

theorem Alike.closing (h : Alike s s') (c : ℕ) :
    (s'.sockets c).backpressureClosing = (s.sockets c).backpressureClosing :=
  congrArg (·.2.1) (h.status c)

theorem Alike.pending (h : Alike s s') (c : ℕ) :
    (s'.sockets c).backpressureClosePending = (s.sockets c).backpressureClosePending :=
  congrArg (·.2.2) (h.status c)

theorem Alike.row (h : Alike s s') {row' : Row} (hrow : s'.row = some row') :
    ∃ row, s.row = some row ∧ row.number = row'.number ∧ row.admissions = row'.admissions := by
  have hverdicts := h.verdicts
  rw [hrow, Option.map_some, eq_comm, Option.map_eq_some_iff] at hverdicts
  obtain ⟨row, hrow, heq⟩ := hverdicts
  exact ⟨row, hrow, congrArg (·.1) heq, congrArg (·.2) heq⟩

theorem Alike.row' (h : Alike s s') {row : Row} (hrow : s.row = some row) :
    ∃ row', s'.row = some row' ∧ row'.number = row.number ∧ row'.admissions = row.admissions := by
  have hverdicts := h.verdicts
  rw [hrow, Option.map_some, Option.map_eq_some_iff] at hverdicts
  obtain ⟨row', hrow', heq⟩ := hverdicts
  exact ⟨row', hrow', congrArg (·.1) heq, congrArg (·.2) heq⟩

theorem Alike.shut (h : Alike s s') {c : ℕ} (hshut : Shut s c) : Shut s' c := by
  rcases hshut with hclosed | ⟨hgone, hlt⟩
  · exact .inl ((h.isOpen c).trans hclosed)
  · exact .inr ⟨h.aged.gone c hlt hgone, hlt.trans_le h.aged.nextId⟩

theorem Alike.waiting (h : Alike s s') {c n : ℕ} {journal : List Entry} (hwait : Waiting s c n journal) :
    Waiting s' c n journal := by
  obtain ⟨⟨row, hrow, hnumber⟩, hpending, hdropped⟩ := hwait
  obtain ⟨row', hrow', hnumber', -⟩ := h.row' hrow
  exact ⟨⟨row', hrow', hnumber'.trans hnumber⟩, (h.pending c).trans hpending, hdropped⟩

theorem Alike.follows (h : Recorded s) (ha : Alike s s') : Follows s s' where
  journal := ha.journal
  nextId := ha.aged.nextId
  connected := ha.aged.connected
  rows := ha.rows.ge
  closing c hclosing := by
    rw [ha.isOpen]
    exact h.closing c ((ha.closing c).symm.trans hclosing)
  shut c := ha.shut
  waiting c n journal _ hwait := .inr (ha.waiting hwait)
  number row' hrow' := by
    obtain ⟨row, hrow, hnumber, -⟩ := ha.row hrow'
    rw [← hnumber, ha.rows]
    exact ⟨h.number row hrow, fun hmem => (h.ended _ hmem).2 row hrow rfl⟩
  rejected row' c hrow' hfalse := by
    obtain ⟨row, hrow, hnumber, hadmissions⟩ := ha.row hrow'
    rw [← hnumber]
    rcases h.rejected row c hrow (hadmissions ▸ hfalse) with hshut | hwait
    · exact .inl (ha.shut hshut)
    · exact .inr (ha.waiting hwait)
  refused row c hrow hfalse := by
    obtain ⟨row', hrow', -, hadmissions⟩ := ha.row' hrow
    exact .inr ⟨row', hrow', hadmissions ▸ hfalse⟩
  admitted row' hrow' e he c hwanted := by
    obtain ⟨row, hrow, hnumber, hadmissions⟩ := ha.row hrow'
    rw [ha.isOpen, ← hadmissions]
    exact h.admitted row hrow e he c (hnumber ▸ hwanted)

theorem Bracketed.alike (h : Bracketed s) (ha : Alike s s') : Bracketed s' where
  toRecorded := h.toRecorded.follow (ha.follows h.toRecorded)
  pending c hpending := by
    rw [ha.journal]
    rcases h.pending c ((ha.pending c).symm.trans hpending) with hshut | ⟨n, hwait⟩
    · exact .inl (ha.shut hshut)
    · exact .inr ⟨n, ha.waiting hwait⟩

/-! ### The bracket of a row -/

theorem Bracketed.rowStart (h : Bracketed s) (hrow : s.row = none) :
    Bracketed { s with row := some ⟨s.rows, fun _ => none, []⟩, rows := s.rows + 1 } := by
  have hnowait : ∀ {c n : ℕ} {journal : List Entry}, ¬ Waiting s c n journal := by
    rintro c n journal ⟨⟨row, hrow', -⟩, -⟩
    exact absurd (hrow.symm.trans hrow') (by simp)
  have hfresh : ∀ e ∈ s.journal, ∀ c, ¬ e.WantedIn c s.rows := by
    intro e he c hwanted
    cases e with
    | offered o => exact absurd ((h.known _ he).2 s.rows hwanted.2.2.1) (lt_irrefl _)
    | _ => exact hwanted
  have hf : Follows s { s with row := some ⟨s.rows, fun _ => none, []⟩, rows := s.rows + 1 } := by
    refine ⟨rfl, le_rfl, h.connected, Nat.le_succ _, h.closing, fun _ hshut => hshut, ?_, ?_, ?_, ?_, ?_⟩
    · intro c n journal _ hwait
      exact absurd hwait hnowait
    · intro row hrow'
      obtain rfl := Option.some.inj hrow'
      exact ⟨Nat.lt_succ_self _, fun hmem => lt_irrefl _ (h.ended _ hmem).1⟩
    · intro row c hrow' hfalse
      obtain rfl := Option.some.inj hrow'
      exact absurd hfalse (by simp)
    · intro row c hrow' _
      exact absurd (hrow.symm.trans hrow') (by simp)
    · intro row hrow' e he c hwanted
      obtain rfl := Option.some.inj hrow'
      exact absurd hwanted (hfresh e he c)
  refine ⟨h.toRecorded.follow hf, ?_⟩
  intro c hpending
  rcases h.pending c hpending with hshut | ⟨n, hwait⟩
  · exact .inl hshut
  · exact absurd hwait hnowait

theorem isOpen_shed {socket : Socket} (h : socket.backpressureClosing = true → socket.isOpen = false) :
    (shedBackedUpClient socket).isOpen = false := by
  unfold shedBackedUpClient
  split
  · rename_i hclosing
    exact h hclosing
  · rfl

/-- At the end of a row every close that waited is made. -/
theorem Bracketed.rowEnd (h : Bracketed s) {row : Row} (hrow : s.row = some row) :
    Bracketed (onActionRowEnd s row) := by
  let sockets : ℕ → Socket := fun id =>
    if (s.registry.clients id).isSome && (s.sockets id).backpressureClosePending then
      shedBackedUpClient { s.sockets id with backpressureClosePending := false }
    else s.sockets id
  let s' : State := { s with row := none, sockets }
  have hclosed : ∀ c, (s.sockets c).isOpen = false → (sockets c).isOpen = false := by
    intro c hclosed
    dsimp only [sockets]
    split
    · exact isOpen_shed fun _ => hclosed
    · exact hclosed
  have hclosing : ∀ c, (sockets c).backpressureClosing = true → (sockets c).isOpen = false := by
    intro c
    dsimp only [sockets]
    split
    · intro _
      exact isOpen_shed (h.closing c)
    · exact h.closing c
  have hshut : ∀ c, Shut s c → Shut s' c := by
    rintro c (hc | hgone)
    · exact .inl (hclosed c hc)
    · exact .inr hgone
  have hmade : ∀ c n journal, journal ⊆ s.journal → Waiting s c n journal → Shut s' c := by
    rintro c n journal hsub ⟨-, hpending, d, hd, hdropped⟩
    cases hclient : s.registry.clients c with
    | none =>
      refine .inr ⟨hclient, ?_⟩
      have hknown := h.known d (hsub hd)
      cases d with
      | offered o => exact hdropped.1 ▸ hknown.1
      | _ => exact hdropped.elim
    | some coin =>
      left
      dsimp only [s', sockets]
      rw [hclient, hpending, if_pos (by rfl)]
      exact isOpen_shed (h.closing c)
  have hf : Follows s s' := by
    refine ⟨rfl, le_rfl, h.connected, le_rfl, hclosing, hshut, ?_, ?_, ?_, ?_, ?_⟩
    · intro c n journal hsub hwait
      exact .inl (hmade c n journal hsub hwait)
    · intro row' hrow'
      exact absurd hrow' (by simp [s'])
    · intro row' c hrow' _
      exact absurd hrow' (by simp [s'])
    · intro row' c hrow' hfalse
      left
      rcases h.rejected row' c hrow' hfalse with hshut' | hwait
      · exact hshut c hshut'
      · exact hmade c _ _ (List.Subset.refl _) hwait
    · intro row' hrow'
      exact absurd hrow' (by simp [s'])
  have hrecorded := h.toRecorded.follow hf
  have hpending : ∀ c, (s'.sockets c).backpressureClosePending = true → Shut s' c := by
    intro c hpending
    by_cases hshed : ((s.registry.clients c).isSome && (s.sockets c).backpressureClosePending) = true
    · left
      dsimp only [s', sockets]
      rw [if_pos hshed]
      exact isOpen_shed (h.closing c)
    · have hold : (s.sockets c).backpressureClosePending = true := by
        dsimp only [s', sockets] at hpending
        rwa [if_neg hshed] at hpending
      rcases h.pending c hold with hshut' | ⟨n, hwait⟩
      · exact hshut c hshut'
      · exact hmade c n _ (List.Subset.refl _) hwait
  have hnote : Recorded (s'.note [.rowEnded row.number]) := by
    refine hrecorded.note trivial ?_ ?_ ?_ ?_ ?_
    · rintro n heq
      obtain rfl := Entry.rowEnded.inj heq
      exact ⟨h.number row hrow, rfl⟩
    · rintro c ⟨⟩
    · rintro c during ⟨⟩
    · rintro c n ⟨⟩
    · rintro c n ⟨⟩
  exact ⟨hnote, fun c hc => .inl (hpending c hc)⟩

/-! ### One subscriber -/

section offer
variable {maxBackpressure id : ℕ} {key : Text} {frame : Frame} {ofRow replayed : Bool} {filter : Filter}

theorem Recorded.known_offer (h : Recorded s) (hclient : (s.registry.clients id).isSome = true)
    (outcome : Outcome) : (offerEntry s id key frame ofRow outcome).Known s.registry.nextId s.rows := by
  refine ⟨h.connected id hclient, ?_⟩
  intro n hn
  obtain ⟨row, hrow, rfl⟩ := Option.map_eq_some_iff.mp hn
  exact h.number row hrow

/-- A frame that the client does not want. -/
theorem Bracketed.offer_passed (h : Bracketed s) (hclient : (s.registry.clients id).isSome = true)
    {outcome : Outcome} (hout : outcome = .joined ∨ outcome = .filtered) :
    Bracketed (s.note [offerEntry s id key frame ofRow outcome]) := by
  refine h.note (h.toRecorded.note (h.known_offer hclient outcome) nofun ?_ ?_ ?_ ?_)
  · rintro c ⟨-, hhanded⟩
    rcases hout with rfl | rfl <;> cases hhanded
  · rintro c during ⟨-, -, -, hrefused⟩
    rcases hout with rfl | rfl <;> cases hrefused
  · rintro c n ⟨-, -, -, hrefused⟩
    rcases hout with rfl | rfl <;> cases hrefused
  · rintro c n ⟨-, -, -, hjoined, hfiltered⟩
    rcases hout with rfl | rfl
    · exact absurd rfl hjoined
    · exact absurd rfl hfiltered

variable (key frame) in
/-- A frame of a row that has turned the client away. -/
theorem Bracketed.offer_rejected (h : Bracketed s) (hclient : (s.registry.clients id).isSome = true) {row : Row}
    (hrow : s.row = some row) (hfalse : row.admissions id = some false) :
    Bracketed (s.note [offerEntry s id key frame true .refused]) := by
  refine h.note (h.toRecorded.note (h.known_offer hclient .refused) nofun ?_ ?_ ?_ ?_)
  · rintro c ⟨-, hhanded⟩
    cases hhanded
  · rintro c during ⟨-, hno | hno, -⟩
    · cases hno
    · simp [hrow] at hno
  · rintro c n ⟨rfl, -, hduring, -⟩
    rw [hrow, Option.map_some, Option.some.injEq] at hduring
    rcases h.rejected row id hrow hfalse with hshut | hwait
    · exact .inl hshut
    · exact .inr ⟨hduring ▸ hwait, row, hrow, hfalse⟩
  · rintro c n ⟨rfl, -, hduring, -⟩
    rw [hrow, Option.map_some, Option.some.injEq] at hduring
    refine ⟨row, hrow, hduring, .inr ⟨hfalse, ?_⟩⟩
    rintro ⟨-, hhanded⟩
    cases hhanded

variable (key frame ofRow) in
/-- A frame that is sent as far as the socket is open. -/
theorem Bracketed.offer_sent (h : Bracketed s) (hclient : (s.registry.clients id).isSome = true)
    (hadmitted : ofRow = true → ∀ row, s.row = some row → row.admissions id = some true) :
    Bracketed (s.note [offerEntry s id key frame ofRow (sendOutcome (s.sockets id))]) := by
  have hout : sendOutcome (s.sockets id) = .handed ↔ (s.sockets id).isOpen = true := by
    unfold sendOutcome
    cases (s.sockets id).isOpen <;> simp
  have hnot : sendOutcome (s.sockets id) ≠ .refused := by
    unfold sendOutcome
    cases (s.sockets id).isOpen <;> simp
  refine h.note (h.toRecorded.note (h.known_offer hclient _) nofun ?_ ?_ ?_ ?_)
  · by_cases hopen : (s.sockets id).isOpen = true
    · have honly : ∀ c, (offerEntry s id key frame ofRow (sendOutcome (s.sockets id))).HandedTo c → c = id := by
        rintro c ⟨rfl, -⟩
        rfl
      refine h.toRecorded.sentOk honly (not_shut hopen hclient) ?_
      · rintro ⟨hofRow, hduring⟩
        obtain ⟨n, hn⟩ := Option.isSome_iff_exists.mp hduring
        obtain ⟨row, hrow, -⟩ := Option.map_eq_some_iff.mp hn
        exact ⟨row, hrow, hadmitted hofRow row hrow⟩
    · rintro c ⟨rfl, hhanded⟩
      exact absurd (hout.mp hhanded) hopen
  · rintro c during ⟨-, -, -, hrefused⟩
    exact absurd hrefused hnot
  · rintro c n ⟨-, -, -, hrefused⟩
    exact absurd hrefused hnot
  · rintro c n ⟨rfl, hofRow, hduring, -⟩
    obtain ⟨row, hrow, hnumber⟩ := Option.map_eq_some_iff.mp hduring
    refine ⟨row, hrow, hnumber, .inl ⟨hadmitted hofRow row hrow, ?_⟩⟩
    constructor
    · rintro ⟨-, hhanded⟩
      exact hout.mp hhanded
    · intro hopen
      exact ⟨rfl, hout.mpr hopen⟩

/-- A client whose admission is open has been offered no frame of the row. -/
theorem Recorded.not_wanted (h : Recorded s) {row : Row} (hrow : s.row = some row)
    (hnone : row.admissions id = none) : ∀ e ∈ s.journal, ¬ e.WantedIn id row.number := by
  intro e he hwanted
  rcases h.admitted row hrow e he id hwanted with ⟨htrue, -⟩ | ⟨hfalse, -⟩
  · rw [hnone] at htrue
    cases htrue
  · rw [hnone] at hfalse
    cases hfalse

/-- The first frame of a row that a client wants decides its admission. -/
theorem Bracketed.decide (h : Bracketed s) {row : Row} (hrow : s.row = some row)
    (hnone : row.admissions id = none) (sockets : ℕ → Socket) (admitted : Bool)
    (hothers : ∀ c, c ≠ id → sockets c = s.sockets c)
    (hsocket : sockets id = s.sockets id ∨ (sockets id).isOpen = false ∧
      (sockets id).backpressureClosePending = (s.sockets id).backpressureClosePending)
    (hrejected : admitted = false → (sockets id).isOpen = false ∨
      sockets id = s.sockets id ∧ (s.sockets id).backpressureClosePending = true) :
    Bracketed { s with row := some (row.decide id admitted), sockets } := by
  have hclosed : ∀ c, (s.sockets c).isOpen = false → (sockets c).isOpen = false := by
    intro c hc
    by_cases hid : c = id
    · subst hid
      rcases hsocket with heq | ⟨hclosed, -⟩
      · rwa [heq]
      · exact hclosed
    · rwa [hothers c hid]
  have hpend : ∀ c, (sockets c).backpressureClosePending = (s.sockets c).backpressureClosePending := by
    intro c
    by_cases hid : c = id
    · subst hid
      rcases hsocket with heq | ⟨-, heq⟩
      · rw [heq]
      · exact heq
    · rw [hothers c hid]
  have hshut : ∀ c, Shut s c → Shut { s with row := some (row.decide id admitted), sockets } c := by
    rintro c (hc | hgone)
    · exact .inl (hclosed c hc)
    · exact .inr hgone
  have hwait : ∀ c n journal, Waiting s c n journal →
      Waiting { s with row := some (row.decide id admitted), sockets } c n journal := by
    rintro c n journal ⟨⟨row', hrow', hnumber⟩, hpending, hdropped⟩
    rw [hrow, Option.some.injEq] at hrow'
    exact ⟨⟨_, rfl, hrow' ▸ hnumber⟩, (hpend c).trans hpending, hdropped⟩
  have hf : Follows s { s with row := some (row.decide id admitted), sockets } := by
    refine ⟨rfl, le_rfl, h.connected, le_rfl, ?_, hshut, ?_, ?_, ?_, ?_, ?_⟩
    · intro c hclosing
      by_cases hid : c = id
      · subst hid
        rcases hsocket with heq | ⟨hc, -⟩
        · dsimp only at hclosing ⊢
          rw [heq] at hclosing ⊢
          exact h.closing c hclosing
        · exact hc
      · dsimp only at hclosing ⊢
        rw [hothers c hid] at hclosing ⊢
        exact h.closing c hclosing
    · intro c n journal _ hw
      exact .inr (hwait c n journal hw)
    · intro row' hrow'
      obtain rfl := Option.some.inj hrow'
      exact ⟨h.number row hrow, fun hmem => (h.ended _ hmem).2 row hrow rfl⟩
    · intro row' c hrow' hfalse
      obtain rfl := Option.some.inj hrow'
      by_cases hid : c = id
      · subst hid
        have hadm : admitted = false := by simpa [Row.decide] using hfalse
        rcases hrejected hadm with hc | ⟨-, hpending⟩
        · exact .inl (.inl hc)
        · rcases h.pending c hpending with hs | ⟨n, hw⟩
          · exact .inl (hshut c hs)
          · have hnumber : row.number = n := hw.number_eq hrow
            exact .inr (hwait c _ _ (hnumber ▸ hw))
      · have hold : row.admissions c = some false := by simpa [Row.decide, hid] using hfalse
        rcases h.rejected row c hrow hold with hs | hw
        · exact .inl (hshut c hs)
        · exact .inr (hwait c _ _ hw)
    · intro row' c hrow' hfalse
      rw [hrow, Option.some.injEq] at hrow'
      subst hrow'
      have hid : c ≠ id := by
        rintro rfl
        rw [hnone] at hfalse
        cases hfalse
      exact .inr ⟨_, rfl, by simpa [Row.decide, hid] using hfalse⟩
    · intro row' hrow' e he c hwanted
      obtain rfl := Option.some.inj hrow'
      have hid : c ≠ id := by
        rintro rfl
        exact h.not_wanted hrow hnone e he hwanted
      have hadm : (row.decide id admitted).admissions c = row.admissions c := by simp [Row.decide, hid]
      dsimp only
      rw [hadm, hothers c hid]
      exact h.admitted row hrow e he c hwanted
  refine ⟨h.toRecorded.follow hf, ?_⟩
  intro c hpending
  rcases h.pending c ((hpend c).symm.trans hpending) with hs | ⟨n, hw⟩
  · exact .inl (hshut c hs)
  · exact .inr ⟨n, hwait c n _ hw⟩

/-- A client that loses a frame of no row is closed, or its close waits for the end of the row. -/
theorem Bracketed.offer_dropped (h : Bracketed s) (hclient : (s.registry.clients id).isSome = true)
    (hrow : ofRow = false ∨ s.row = none) :
    Bracketed ({ s with
      sockets := Function.update s.sockets id (noteBackpressureSkip (s.sockets id) s.row.isSome) }.note
        [offerEntry s id key frame ofRow .refused]) := by
  let socket := noteBackpressureSkip (s.sockets id) s.row.isSome
  let s' : State := { s with sockets := Function.update s.sockets id socket }
  have hself : s'.sockets id = socket := Function.update_self ..
  have hothers : ∀ c, c ≠ id → s'.sockets c = s.sockets c := fun c hid => Function.update_of_ne hid ..
  have hsome : ∀ row, s.row = some row →
      socket = { s.sockets id with backpressureClosePending := true } := by
    intro row hrow'
    simp [socket, noteBackpressureSkip, hrow']
  have hnone : s.row = none → socket.isOpen = false := by
    intro hrow'
    simp only [socket, noteBackpressureSkip, hrow']
    exact isOpen_shed (h.closing id)
  have hclosing : socket.backpressureClosing = true → socket.isOpen = false := by
    cases hrow' : s.row with
    | none =>
      intro _
      exact hnone hrow'
    | some row =>
      rw [hsome row hrow']
      exact h.closing id
  have hclosed : ∀ c, (s.sockets c).isOpen = false → (s'.sockets c).isOpen = false := by
    intro c hc
    by_cases hid : c = id
    · subst hid
      rw [hself]
      cases hrow' : s.row with
      | none => exact hnone hrow'
      | some row =>
        rw [hsome row hrow']
        exact hc
    · rwa [hothers c hid]
  have hshut : ∀ c, Shut s c → Shut s' c := by
    rintro c (hc | hgone)
    · exact .inl (hclosed c hc)
    · exact .inr hgone
  have hwait : ∀ c n journal, Waiting s c n journal → Waiting s' c n journal := by
    rintro c n journal ⟨⟨row, hrow', hnumber⟩, hpending, hdropped⟩
    refine ⟨⟨row, hrow', hnumber⟩, ?_, hdropped⟩
    by_cases hid : c = id
    · subst hid
      rw [hself, hsome row hrow']
    · rwa [hothers c hid]
  have hf : Follows s s' := by
    refine ⟨rfl, le_rfl, h.connected, le_rfl, ?_, hshut, ?_, ?_, ?_, ?_, ?_⟩
    · intro c hc
      by_cases hid : c = id
      · subst hid
        rw [hself] at hc ⊢
        exact hclosing hc
      · rw [hothers c hid] at hc ⊢
        exact h.closing c hc
    · intro c n journal _ hw
      exact .inr (hwait c n journal hw)
    · intro row hrow'
      exact ⟨h.number row hrow', fun hmem => (h.ended _ hmem).2 row hrow' rfl⟩
    · intro row c hrow' hfalse
      rcases h.rejected row c hrow' hfalse with hs | hw
      · exact .inl (hshut c hs)
      · exact .inr (hwait c _ _ hw)
    · intro row c hrow' hfalse
      exact .inr ⟨row, hrow', hfalse⟩
    · intro row hrow' e he c hwanted
      have hopen : (s'.sockets c).isOpen = (s.sockets c).isOpen := by
        by_cases hid : c = id
        · subst hid
          rw [hself, hsome row hrow']
        · rw [hothers c hid]
      rw [hopen]
      exact h.admitted row hrow' e he c hwanted
  have hverdict : ∀ row, s.row = some row → Waiting s' id row.number
      (s.journal ++ [offerEntry s id key frame ofRow .refused]) := by
    intro row hrow'
    refine ⟨⟨row, hrow', rfl⟩, ?_, offerEntry s id key frame ofRow .refused, by simp, ?_⟩
    · rw [hself, hsome row hrow']
    · have hno : ofRow = false := hrow.resolve_right (by simp [hrow'])
      exact ⟨rfl, .inl hno, by simp [hrow'], rfl⟩
  refine ⟨(h.toRecorded.follow hf).note ((h.known_offer hclient .refused)) nofun ?_ ?_ ?_ ?_, ?_⟩
  · rintro c ⟨-, hhanded⟩
    cases hhanded
  · rintro c during ⟨rfl, -, hduring, -⟩
    rcases Option.eq_none_or_eq_some s.row with hrow' | ⟨row, hrow'⟩
    · have hclosed' := hnone hrow'
      rw [← hself] at hclosed'
      exact .inl (.inl hclosed')
    · rw [hrow'] at hduring
      exact .inr ⟨row.number, hduring.symm, hverdict row hrow'⟩
  · rintro c n ⟨-, hofRow, hduring, -⟩
    rcases hrow with hno | hno
    · rw [hno] at hofRow
      cases hofRow
    · simp [hno] at hduring
  · rintro c n ⟨-, hofRow, hduring, -⟩
    rcases hrow with hno | hno
    · rw [hno] at hofRow
      cases hofRow
    · simp [hno] at hduring
  · intro c hpending
    by_cases hid : c = id
    · subst hid
      rcases Option.eq_none_or_eq_some s.row with hrow' | ⟨row, hrow'⟩
      · have hclosed' := hnone hrow'
        rw [← hself] at hclosed'
        exact .inl (.inl hclosed')
      · exact .inr ⟨row.number, hverdict row hrow'⟩
    · have hold : (s.sockets c).backpressureClosePending = true := by
        have hsame := hothers c hid
        change (s'.sockets c).backpressureClosePending = true at hpending
        rwa [hsame] at hpending
      rcases h.pending c hold with hs | ⟨n, hw⟩
      · exact .inl (hshut c hs)
      · exact .inr ⟨n, (hwait c n _ hw).mono (List.subset_append_left _ _)⟩

theorem Bracketed.deliver_row (h : Bracketed s) (hclient : (s.registry.clients id).isSome = true)
    (hpass : passesFilter filter frame = true) {row : Row} (hrow : s.row = some row) :
    Bracketed ((deliverToSubscriber maxBackpressure s id filter frame true).1.note
      [offerEntry s id key frame true (deliverToSubscriber maxBackpressure s id filter frame true).2]) := by
  rw [Broadcaster.deliver_row hpass hrow]
  cases hadmission : row.admissions id with
  | some admitted =>
    cases admitted with
    | false => exact h.offer_rejected key frame hclient hrow hadmission
    | true =>
      refine h.offer_sent key frame true hclient ?_
      intro _ row' hrow'
      rw [hrow, Option.some.injEq] at hrow'
      exact hrow' ▸ hadmission
  | none =>
    dsimp only
    split
    · have hdecided := h.decide hrow hadmission s.sockets true (fun c _ => rfl) (.inl rfl) (by simp)
      have hsent := hdecided.offer_sent key frame true hclient (by
        intro _ row' hrow'
        obtain rfl := Option.some.inj hrow'
        exact Function.update_self ..)
      simpa [offerEntry, Row.decide, hrow] using hsent
    · have hdecided := h.decide hrow hadmission
        (Function.update s.sockets id
          (noteBackpressureSkip (s.sockets id) (s.sockets id).backpressureClosePending))
        false (fun c hid => Function.update_of_ne hid ..) ?_ ?_
      · have hrejected := hdecided.offer_rejected key frame hclient rfl (Function.update_self ..)
        simpa [offerEntry, Row.decide, hrow] using hrejected
      · rw [Function.update_self]
        cases hpending : (s.sockets id).backpressureClosePending with
        | true => exact .inl (by simp [noteBackpressureSkip, ← hpending])
        | false =>
          refine .inr ⟨isOpen_shed (h.closing id), ?_⟩
          simp only [noteBackpressureSkip, shedBackedUpClient, if_false, Bool.false_eq_true]
          split <;> exact hpending
      · intro _
        rw [Function.update_self]
        cases hpending : (s.sockets id).backpressureClosePending with
        | true => exact .inr ⟨by simp [noteBackpressureSkip, ← hpending], rfl⟩
        | false => exact .inl (isOpen_shed (h.closing id))

/-- Whatever one offer comes to, the bracket holds with its entry. -/
theorem Bracketed.afterOffer (h : Bracketed s) (hclient : (s.registry.clients id).isSome = true) :
    Bracketed (afterOffer maxBackpressure s key frame ofRow replayed id filter) := by
  unfold Broadcaster.afterOffer offerTo
  dsimp only
  split
  · exact h.offer_passed hclient (.inl rfl)
  · cases hpass : passesFilter filter frame with
    | false =>
      have hfiltered : deliverToSubscriber maxBackpressure s id filter frame ofRow = (s, .filtered) := by
        unfold deliverToSubscriber
        rw [hpass]
        rfl
      rw [hfiltered]
      exact h.offer_passed hclient (.inr rfl)
    | true =>
      by_cases hrow : ofRow = false ∨ s.row = none
      · rw [deliver_other hpass hrow]
        split
        · exact h.offer_dropped hclient hrow
        · refine h.offer_sent key frame ofRow hclient ?_
          intro hofRow row hrow'
          rcases hrow with hno | hno
          · rw [hno] at hofRow
            cases hofRow
          · rw [hno] at hrow'
            cases hrow'
      · rw [not_or, Bool.not_eq_false] at hrow
        obtain ⟨row, hrow'⟩ := Option.ne_none_iff_exists'.mp hrow.2
        rw [hrow.1]
        exact h.deliver_row hclient hpass hrow'

/-! ### A fan-out -/

variable (maxBackpressure replayed) in
/-- A frame of a row that passes the filter of a key held since before the row is wanted. -/
theorem wanted_offerTo (hpass : passesFilter filter frame = true) {row : Row} (hrow : s.row = some row)
    (hjoined : (id, key) ∉ row.joined) :
    (offerEntry s id key frame true (offerTo maxBackpressure s key frame true replayed id filter).2).WantedIn id
      row.number := by
  have hskip : skipsJoined s id key true replayed = false := by simp [skipsJoined, hrow, hjoined]
  refine ⟨rfl, rfl, by simp [hrow], ?_⟩
  unfold Broadcaster.offerTo
  rw [hskip, if_neg (by simp), Broadcaster.deliver_row hpass hrow]
  unfold sendOutcome
  split
  · simp
  · dsimp only
    split <;> simp
  · split
    · dsimp only
      split <;> simp
    · simp

variable (maxBackpressure replayed) in
theorem wanted_offerAll {row : Row} (hrow : s.row = some row) {subscribers : List (Sigma fun _ : ℕ => Filter)}
    (toRemove : List ℕ) (hmem : ⟨id, filter⟩ ∈ subscribers) (hclient : (s.registry.clients id).isSome = true)
    (hpass : passesFilter filter frame = true) (hjoined : (id, key) ∉ row.joined) :
    ∃ outcome, (offerEntry s id key frame true outcome).WantedIn id row.number ∧
      offerEntry s id key frame true outcome ∈
        (offerAll maxBackpressure key frame true replayed s toRemove subscribers).1.journal := by
  induction subscribers generalizing s toRemove row with
  | nil => simp at hmem
  | cons subscriber subscribers ih =>
    obtain ⟨id', filter'⟩ := subscriber
    unfold offerAll
    rcases List.mem_cons.mp hmem with heq | hmem
    · cases heq
      rw [if_pos hclient]
      refine ⟨_, wanted_offerTo maxBackpressure replayed hpass hrow hjoined,
        (journal_offerAll _ _).subset ?_⟩
      rw [journal_afterOffer]
      exact List.mem_append_right _ (List.mem_singleton.mpr rfl)
    · split
      · obtain ⟨admissions, hrow'⟩ := row_afterOffer maxBackpressure id' key frame true replayed filter' hrow
        have hclient' := hclient
        rw [← registry_afterOffer maxBackpressure id' key frame true replayed filter'] at hclient'
        obtain ⟨outcome, hwanted, hin⟩ := ih hrow' _ hmem hclient' hjoined
        have hsame : ∀ outcome, offerEntry (afterOffer maxBackpressure s key frame true replayed id' filter') id key
            frame true outcome = offerEntry s id key frame true outcome := by
          intro outcome
          simp [offerEntry, hrow', hrow]
        rw [hsame] at hwanted hin
        exact ⟨outcome, hwanted, hin⟩
      · exact ih hrow _ hmem hclient hjoined

end offer

theorem aged_of_eq {r r' : Registry} (h : ∀ c, (r.clients c).isSome = true → c < r.nextId)
    (hclients : r'.clients = r.clients) (hnext : r'.nextId = r.nextId) : Aged r r' where
  nextId := hnext.ge
  gone c _ hgone := by rwa [hclients]
  connected c hc := by
    rw [hclients] at hc
    rw [hnext]
    exact h c hc

/-- Entries that reach clients who are there, with sockets that are open. -/
theorem Bracketed.note_told (h : Bracketed s) {entries : List Entry}
    (hentries : ∀ e ∈ entries, ∃ id key, (s.registry.clients id).isSome = true ∧
      e = .told id key (s.sockets id).isOpen) : Bracketed (s.note entries) := by
  induction entries using List.reverseRecOn with
  | nil =>
    have hnote : s.note [] = s := by simp [State.note]
    rwa [hnote]
  | append_singleton entries e ih =>
    have hbracketed := ih fun e' he' => hentries e' (by simp [he'])
    obtain ⟨id, key, hclient, rfl⟩ := hentries e (by simp)
    have hnote : s.note (entries ++ [.told id key (s.sockets id).isOpen]) =
        (s.note entries).note [.told id key (s.sockets id).isOpen] := by
      simp [State.note]
    rw [hnote]
    refine hbracketed.note (hbracketed.toRecorded.note trivial nofun ?_ nofun nofun nofun)
    by_cases hopen : (s.sockets id).isOpen = true
    · have honly : ∀ c, (Entry.told id key (s.sockets id).isOpen).HandedTo c → c = id := by
        rintro c ⟨rfl, -⟩
        rfl
      exact hbracketed.toRecorded.sentOk honly (not_shut (s := s.note entries) hopen hclient) nofun
    · rintro c ⟨-, hsent⟩
      exact absurd hsent hopen

theorem Bracketed.removeOnce (h : Bracketed s) (key : Text) (ids : List ℕ) : Bracketed (removeOnce s key ids) := by
  have hclients := (people_removeOnce s.registry key ids).1
  have ha : Alike s { s with registry := removeOnceSubscriptions s.registry key ids } :=
    ⟨aged_of_eq h.connected hclients (people_removeOnce s.registry key ids).2, fun _ => rfl, rfl, rfl, rfl⟩
  refine (h.alike ha).note_told ?_
  intro e he
  unfold toldEntries at he
  split at he
  · simp at he
  · obtain ⟨id, hid, rfl⟩ := List.mem_map.mp he
    refine ⟨id, key, ?_, rfl⟩
    dsimp only
    rw [hclients]
    exact (List.mem_filter.mp hid).2

theorem Bracketed.broadcastToChannelKey (h : Bracketed s) (maxBackpressure : ℕ) (key : Text) (frame : Frame)
    (ofRow replayed : Bool) : Bracketed (broadcastToChannelKey maxBackpressure s key frame ofRow replayed) :=
  Bracketed.removeOnce
    (offerAll_inv (fun _ _ _ hs hclient => hs.afterOffer hclient) (s.registry.getSubscribers key).entries [] h) _ _

theorem Bracketed.broadcastToKeys (h : Bracketed s) (maxBackpressure : ℕ) (keys : List Text) (frame : Frame)
    (ofRow replayed : Bool) : Bracketed (broadcastToKeys maxBackpressure s keys frame ofRow replayed) := by
  induction keys generalizing s with
  | nil => exact h
  | cons key keys ih => exact ih (h.broadcastToChannelKey maxBackpressure key frame ofRow replayed)

/-- A replayed frame is no live frame. -/
theorem Bracketed.note_replayed (h : Bracketed s) (id : ℕ) (key : Text) (frame : Frame) (outcome : Outcome) :
    Bracketed (s.note [.replayed id key frame outcome]) :=
  h.note (h.toRecorded.note trivial nofun nofun nofun nofun nofun)

theorem Bracketed.sendToTargets (h : Bracketed s) (id : ℕ) (frame : Frame) (targets : List (Text × Filter)) :
    Bracketed (sendToTargets s id frame targets) := by
  induction targets generalizing s with
  | nil => exact h
  | cons target targets ih =>
    refine ih ?_
    unfold sendToTarget
    split
    · dsimp only
      split
      · exact (h.note_replayed id target.1 frame _).removeOnce target.1 [id]
      · exact h.note_replayed id target.1 frame _
    · exact h.note_replayed id target.1 frame _

/-! ### Every run -/

section runs
variable {stringify : Json → Text} {maxSubscriptions maxBackpressure : ℕ} {coin : Coin}

theorem aged_step {r r' : Registry} {op : ChannelManager.Op}
    (h : ∀ c, (r.clients c).isSome = true → c < r.nextId)
    (hstep : ChannelManager.step stringify maxSubscriptions r op = some r') : Aged r r' := by
  cases op with
  | connect coin =>
    obtain rfl := Option.some.inj hstep
    refine ⟨Nat.le_succ _, ?_, ?_⟩
    · intro c hc hgone
      exact (Function.update_of_ne hc.ne _ _).trans hgone
    · intro c hc
      by_cases hid : c = r.nextId
      · exact hid ▸ Nat.lt_succ_self _
      · dsimp only at hc
        rw [Function.update_of_ne hid] at hc
        exact (h c hc).trans (Nat.lt_succ_self _)
  | subscribe id channels params =>
    obtain ⟨coin, -, rfl⟩ := Option.map_eq_some_iff.mp hstep
    have hpeople := people_subscribe stringify maxSubscriptions r ⟨id, coin⟩ channels params
    exact aged_of_eq h hpeople.1 hpeople.2
  | unsubscribe id channels params =>
    obtain ⟨coin, -, rfl⟩ := Option.map_eq_some_iff.mp hstep
    have hpeople := people_unsubscribe stringify ⟨id, coin⟩ params channels r ⟨[], []⟩
    exact aged_of_eq h hpeople.1 hpeople.2
  | removeClient id =>
    obtain rfl := Option.some.inj hstep
    exact aged_of_eq h rfl rfl
  | close id =>
    obtain rfl := Option.some.inj hstep
    refine ⟨le_rfl, ?_, ?_⟩
    · intro c _ hgone
      by_cases hid : c = id
      · exact hid ▸ Function.update_self ..
      · exact (Function.update_of_ne hid _ _).trans hgone
    · intro c hc
      refine h c ?_
      by_cases hid : c = id
      · subst hid
        simp [onClose] at hc
      · unfold onClose at hc
        dsimp only at hc
        rw [Function.update_of_ne hid] at hc
        exact hc
  | spend key ids =>
    obtain rfl := Option.some.inj hstep
    exact aged_of_eq h (people_removeOnce r key ids).1 (people_removeOnce r key ids).2

/-- Entries about the subscriptions alone. -/
theorem Bracketed.note_plain (h : Bracketed s) {entries : List Entry}
    (hentries : ∀ e ∈ entries, (∃ id key f, e = .subscribed id key f) ∨ ∃ id key, e = .released id key) :
    Bracketed (s.note entries) := by
  induction entries using List.reverseRecOn with
  | nil =>
    have hnote : s.note [] = s := by simp [State.note]
    rwa [hnote]
  | append_singleton entries e ih =>
    have hbracketed := ih fun e' he' => hentries e' (by simp [he'])
    have hnote : s.note (entries ++ [e]) = (s.note entries).note [e] := by simp [State.note]
    rw [hnote]
    refine hbracketed.note ?_
    rcases hentries e (by simp) with ⟨id, key, f, rfl⟩ | ⟨id, key, rfl⟩
    · exact hbracketed.toRecorded.note trivial nofun nofun nofun nofun nofun
    · exact hbracketed.toRecorded.note trivial nofun nofun nofun nofun nofun

theorem Bracketed.releasing (h : Bracketed s) {r' : Registry} (ha : Aged s.registry r') (id : ℕ) :
    Bracketed (releasing s id r') := by
  have halike : Alike s { s with registry := r' } := ⟨ha, fun _ => rfl, rfl, rfl, rfl⟩
  refine (h.alike halike).note_plain ?_
  intro e he
  obtain ⟨key, -, rfl⟩ := List.mem_map.mp he
  exact .inr ⟨id, key, rfl⟩

theorem Bracketed.onSubscribe (h : Bracketed s) (client : Client) (channels params : Json) :
    Bracketed (onSubscribe stringify maxSubscriptions s client channels params) := by
  have hpeople := people_subscribe stringify maxSubscriptions s.registry client channels params
  have haged := aged_of_eq h.connected hpeople.1 hpeople.2
  have hjoin : ∀ row', row'.map Row.verdicts = s.row.map Row.verdicts → Bracketed { s with
      registry := (subscribe stringify maxSubscriptions s.registry client channels params).1, row := row' } := by
    intro row' hrow'
    exact h.alike ⟨haged, fun _ => rfl, hrow', rfl, rfl⟩
  unfold Broadcaster.onSubscribe
  refine (hjoin _ ?_).note_plain ?_
  · cases s.row <;> rfl
  · intro e he
    unfold subscribedEntries at he
    split at he
    · obtain ⟨entry, -, hentry⟩ := List.mem_filterMap.mp he
      obtain ⟨key, -, rfl⟩ := Option.map_eq_some_iff.mp hentry
      exact .inl ⟨client.id, key, _, rfl⟩
    · simp at he

theorem Bracketed.step (h : Bracketed s) {op : Op} (hlose : ∀ id, op ≠ .lose id)
    (hstep : step stringify maxSubscriptions maxBackpressure coin s op = some s') : Bracketed s' := by
  unfold Broadcaster.step at hstep
  cases op with
  | connect =>
    obtain ⟨r', hr', rfl⟩ := Option.map_eq_some_iff.mp hstep
    exact h.alike ⟨aged_step h.connected hr', fun _ => rfl, rfl, rfl, rfl⟩
  | subscribe id channels params =>
    obtain ⟨coin', -, rfl⟩ := Option.map_eq_some_iff.mp hstep
    exact h.onSubscribe ⟨id, coin'⟩ channels params
  | unsubscribe id channels params =>
    obtain ⟨r', hr', rfl⟩ := Option.map_eq_some_iff.mp hstep
    exact h.releasing (aged_step h.connected hr') id
  | removeClient id =>
    obtain ⟨r', hr', rfl⟩ := Option.map_eq_some_iff.mp hstep
    exact h.releasing (aged_step h.connected hr') id
  | close id =>
    obtain ⟨r', hr', rfl⟩ := Option.map_eq_some_iff.mp hstep
    exact h.releasing (aged_step h.connected hr') id
  | buffered id amount =>
    obtain rfl := Option.some.inj hstep
    refine h.alike ⟨aged_of_eq h.connected rfl rfl, ?_, rfl, rfl, rfl⟩
    intro c
    by_cases hid : c = id
    · subst hid
      simp [Socket.status]
    · simp [Function.update_of_ne hid]
  | lose id => exact absurd rfl (hlose id)
  | actionRowStart =>
    dsimp only at hstep
    split at hstep
    · cases hstep
    · rename_i hrow
      obtain rfl := Option.some.inj hstep
      exact h.rowStart (by simpa using hrow)
  | actionRowEnd =>
    obtain ⟨row, hrow, rfl⟩ := Option.map_eq_some_iff.mp hstep
    exact h.rowEnd hrow
  | action frame source destinations =>
    obtain rfl := Option.some.inj hstep
    exact h.broadcastToKeys maxBackpressure _ frame true false
  | lifecycleEvent frame ev =>
    obtain rfl := Option.some.inj hstep
    exact h.broadcastToKeys maxBackpressure _ frame true true
  | entityUpdate frame key =>
    obtain rfl := Option.some.inj hstep
    exact h.broadcastToKeys maxBackpressure [key] frame true false
  | other frame keys =>
    obtain rfl := Option.some.inj hstep
    exact h.broadcastToKeys maxBackpressure keys frame false false
  | replayAction id owed frame source destinations =>
    obtain rfl := Option.some.inj hstep
    exact h.sendToTargets id frame _
  | replayLifecycle id owed frame ev =>
    obtain rfl := Option.some.inj hstep
    exact h.sendToTargets id frame _

theorem bracketed_run {ops : List Op} (hlose : ∀ id, .lose id ∉ ops)
    (hrun : Runs.run (step stringify maxSubscriptions maxBackpressure coin) initial ops = some s) : Bracketed s := by
  refine Runs.run_inv_mem ?_ bracketed_initial hrun
  intro s op s' hop h hstep
  refine h.step ?_ hstep
  rintro id rfl
  exact hlose id hop

/-! ### What a frame of a row is offered to -/

variable (maxBackpressure) in
theorem wanted_broadcastToKeys {row : Row} (hrow : s.row = some row) {keys : List Text} {key : Text}
    (hkey : key ∈ keys) {c : ℕ} {filter : Filter} (hfilter : s.registry.filterAt key c = some filter)
    (hclient : (s.registry.clients c).isSome = true) (frame : Frame) (hpass : passesFilter filter frame = true)
    (replayed : Bool) (hjoined : (c, key) ∉ row.joined) :
    ∃ outcome, (offerEntry s c key frame true outcome).WantedIn c row.number ∧
      offerEntry s c key frame true outcome ∈
        (broadcastToKeys maxBackpressure s keys frame true replayed).journal := by
  induction keys generalizing s row with
  | nil => simp at hkey
  | cons key' keys ih =>
    by_cases heq : key = key'
    · subst heq
      have hmem : ⟨c, filter⟩ ∈ (s.registry.getSubscribers key).entries := KeyedMap.mem_lookup_iff_mem.mp hfilter
      obtain ⟨outcome, hwanted, hin⟩ := wanted_offerAll maxBackpressure replayed hrow [] hmem hclient hpass hjoined
      exact ⟨outcome, hwanted, ((journal_broadcast key frame true replayed).trans
        (prefix_broadcastToKeys keys frame true replayed)).subset hin⟩
    · obtain ⟨admissions, hrow'⟩ := row_broadcast maxBackpressure key' frame true replayed hrow
      obtain ⟨ids, hids⟩ := registry_broadcast s maxBackpressure key' frame true replayed
      have hsame : ∀ outcome, offerEntry (broadcastToChannelKey maxBackpressure s key' frame true replayed) c key frame
          true outcome = offerEntry s c key frame true outcome := by
        intro outcome
        simp [offerEntry, hrow', hrow]
      have hfilter' : (broadcastToChannelKey maxBackpressure s key' frame true replayed).registry.filterAt key c =
          some filter := by rw [hids, filterAt_removeOnce (.inl heq), hfilter]
      have hclient' : ((broadcastToChannelKey maxBackpressure s key' frame true replayed).registry.clients
          c).isSome = true := by rw [hids, (people_removeOnce _ _ _).1, hclient]
      obtain ⟨outcome, hwanted, hin⟩ := ih hrow' (List.mem_of_ne_of_mem heq hkey) hfilter' hclient' hjoined
      rw [hsame] at hwanted hin
      exact ⟨outcome, hwanted, hin⟩

/-! ### Whole or not at all -/

/-- The keys and the frame of a row's event, and whether the replay rebuilds it. -/
def Op.rowFrame (coin : Coin) : Op → Option (List Text × Frame × Bool)
  | .action frame source destinations => some (actionChannelKeys coin source destinations, frame, false)
  | .lifecycleEvent frame ev => some (lifecycleChannelKeys coin ev, frame, true)
  | .entityUpdate frame key => some ([key], frame, false)
  | _ => none

theorem step_rowFrame {op : Op} {keys : List Text} {frame : Frame} {replayed : Bool}
    (h : op.rowFrame coin = some (keys, frame, replayed)) :
    step stringify maxSubscriptions maxBackpressure coin s op =
      some (broadcastToKeys maxBackpressure s keys frame true replayed) := by
  cases op with
  | action | lifecycleEvent | entityUpdate =>
    obtain ⟨rfl, rfl, rfl⟩ := Prod.mk.injEq .. ▸ (Option.some.inj h)
    rfl
  | _ => cases h

/-- In every run of the fan-out, whatever the sockets hold: each frame of a row that routes to a key
    held since before the row and passes its filter is offered under the row's admission, and of
    these a client is handed all or none; after a frame of a row that a client was refused nothing
    reaches it but frames of no row before that row's end, and these only where the client had lost
    a frame of no row earlier in the row; and after such a loss nothing reaches it once the row has
    ended. -/
theorem rows_whole {ops : List Op} (hlose : ∀ id, .lose id ∉ ops)
    (hrun : Runs.run (step stringify maxSubscriptions maxBackpressure coin) initial ops = some s) :
    (∀ before op after u keys frame replayed row key c filter, ops = before ++ op :: after →
      Runs.run (step stringify maxSubscriptions maxBackpressure coin) initial before = some u →
      op.rowFrame coin = some (keys, frame, replayed) → u.row = some row → key ∈ keys →
      u.registry.filterAt key c = some filter → passesFilter filter frame = true → (c, key) ∉ row.joined →
      ∃ outcome, (offerEntry u c key frame true outcome).WantedIn c row.number ∧
        offerEntry u c key frame true outcome ∈ s.journal) ∧
    (∀ c n, (∀ e ∈ s.journal, e.WantedIn c n → e.HandedTo c) ∨
      ∀ e ∈ s.journal, e.WantedIn c n → ¬ e.HandedTo c) ∧
    (∀ c n pre r mid e post, s.journal = pre ++ r :: mid ++ e :: post → r.RowRefused c n → e.HandedTo c →
      ¬ e.RowFrame ∧ .rowEnded n ∉ mid ∧ ∃ d ∈ pre, d.Dropped c (some n)) ∧
    (∀ c during pre d mid e post, s.journal = pre ++ d :: mid ++ e :: post → d.Dropped c during →
      e.HandedTo c → ∃ n, during = some n ∧ .rowEnded n ∉ mid) := by
  have hbracketed := bracketed_run hlose hrun
  refine ⟨?_, hbracketed.whole, ?_, ?_⟩
  · intro before op after u keys frame replayed row key c filter hops hbefore hop hrow hkey hfilter hpass hjoined
    rw [hops] at hrun
    obtain ⟨u', hu', hafter⟩ := Runs.run_append.mp hrun
    obtain rfl := Option.some.inj (hbefore.symm.trans hu')
    obtain ⟨v, hstep, hrest⟩ := Runs.run_cons.mp hafter
    rw [step_rowFrame hop] at hstep
    obtain rfl := Option.some.inj hstep
    have hcons := consistent_run hbefore
    have hheld : key ∈ u.registry.held c := (hcons.mirrored key c).mpr (by rw [hfilter]; rfl)
    obtain ⟨coin', -, hclient, -⟩ := hcons.named c key hheld
    obtain ⟨outcome, hwanted, hin⟩ := wanted_broadcastToKeys maxBackpressure hrow hkey hfilter
      (by rw [hclient]; rfl) frame hpass replayed hjoined
    exact ⟨outcome, hwanted, (prefix_run hrest).subset hin⟩
  · intro c n pre r mid e post heq hr hhanded
    obtain ⟨hrow, hended, hdropped⟩ := (hbracketed.sent (pre ++ r :: mid) e post heq c hhanded).1 n pre r mid rfl hr
    exact ⟨hrow, fun hmem => hended (by simp [hmem]), hdropped⟩
  · intro c during pre d mid e post heq hd hhanded
    obtain ⟨n, rfl, hended⟩ :=
      (hbracketed.sent (pre ++ d :: mid) e post heq c hhanded).2 d (by simp) during hd
    exact ⟨n, rfl, fun hmem => hended (by simp [hmem])⟩

end runs

/-- A client of `network` and `attestation` that loses a frame of each during one row, and whose
    socket has drained when the next network frame comes. -/
def drainedRun (coin : Coin) : List Op :=
  [.connect,
    .subscribe 1 (.array [.string (ofString "network"), .string (ofString "attestation")]) .null,
    .actionRowStart, .buffered 1 100,
    .other ⟨ofString "NETWORK_STATS", none, none⟩ [channelKey coin .network],
    .lifecycleEvent ⟨ofString "ATTESTATION_REQUEST", none, none⟩
      ⟨some .attestation, none, none, none, none, none, none, none⟩,
    .buffered 1 0,
    .other ⟨ofString "NETWORK_STATS", none, none⟩ [channelKey coin .network]]

def bitcoin : Coin := ⟨ofString "BTC", bitcoin_mem_validCoins⟩

theorem rows_whole_drained :
    ∃ s, Runs.run (step (fun _ => []) 25 64 bitcoin) initial (drainedRun bitcoin) = some s ∧
      ∀ c n, (∀ e ∈ s.journal, e.WantedIn c n → e.HandedTo c) ∨
        ∀ e ∈ s.journal, e.WantedIn c n → ¬ e.HandedTo c := by
  have hrun : Runs.run (step (fun _ => []) 25 64 bitcoin) initial (drainedRun bitcoin) = some _ := rfl
  exact ⟨_, hrun, (rows_whole (by simp [drainedRun]) hrun).2.1⟩

/-- After a frame of a row is refused a later frame can still reach the client. -/
theorem handed_after_refusal :
    ¬ ∀ ops s, Runs.run (step (fun _ => []) 25 64 bitcoin) initial ops = some s → (∀ id, .lose id ∉ ops) →
      ∀ c n pre r mid e post, s.journal = pre ++ r :: mid ++ e :: post → r.RowRefused c n → ¬ e.HandedTo c := by
  intro h
  have hrun : Runs.run (step (fun _ => []) 25 64 bitcoin) initial (drainedRun bitcoin) = some _ := rfl
  refine h (drainedRun bitcoin) _ hrun (by simp [drainedRun]) 1 0
    [.subscribed 1 _ _, .subscribed 1 _ _, .offered ⟨1, _, _, false, some 0, .refused⟩]
    (.offered ⟨1, _, _, true, some 0, .refused⟩) [] (.offered ⟨1, _, _, false, some 0, .handed⟩) [] rfl ?_ ?_
  · exact ⟨rfl, rfl, rfl, rfl⟩
  · exact ⟨rfl, rfl⟩

end Broadcaster
