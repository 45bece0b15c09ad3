import Mathlib.Data.List.Find
import XChainExplorer.Explorer.ProjectRosters

/-! # Ticks by name

    A tick is resolved to its id and to its stored spelling through two caches under the name in lower
    case. They are filled together, but a hit renews one of them only and each drops its own oldest
    entry. Case variants share a key, and a name can outlive its id. Where neither can happen, the
    caches hold the same keys and what they hold is what the table finds. -/

namespace TickNames

open ProjectRosters

variable (r : Reader) (maxSize : ℕ)

/-! ### The resolvers, over caches of any size -/

/-- The native tick of the coin, in any case. -/
def Native (tick : Text) : Prop := r.chain ≠ [] ∧ r.toLowerCase tick = r.toLowerCase r.chain

instance (tick : Text) : Decidable (Native r tick) := inferInstanceAs (Decidable (_ ∧ _))

/-- The key of a tick in the caches. Case does not count. -/
def key (tick : Text) : Text := r.cacheKey (r.toLowerCase tick)

/-- The name of a tick, over caches of any size. -/
def getCanonicalTick (tick : Text) (caches : Caches) : Option Text × Caches :=
  if tick = [] then (none, caches)
  else if Native r tick then (some r.chain, caches)
  else
    match Lru.get caches.tickName (key r tick) with
    | (some cached, tickName) => (some cached, { caches with tickName })
    | (none, _) =>
      match r.findTicker tick with
      | none => (none, caches)
      | some row =>
        (some row.tick,
          { tickName := Lru.set caches.tickName (key r tick) row.tick maxSize
            tickId := Lru.set caches.tickId (key r tick) row.id maxSize })

/-- The id of a tick, over caches of any size. -/
def getTickId (tick : Text) (caches : Caches) : Option ℕ × Caches :=
  match referencedId tick with
  | some id => (some id, caches)
  | none =>
    match Lru.get caches.tickId (key r tick) with
    | (some cached, tickId) => (some cached, { caches with tickId })
    | (none, _) =>
      let caches := (getCanonicalTick r maxSize tick caches).2
      let (cached, tickId) := Lru.get caches.tickId (key r tick)
      (cached, { caches with tickId })

/-- The caches of the process hold 1000 entries. -/
theorem getCanonicalTick_eq (tick : Text) (caches : Caches) :
    r.getCanonicalTick tick caches = getCanonicalTick r 1000 tick caches := rfl

theorem getTickId_eq (tick : Text) (caches : Caches) : r.getTickId tick caches = getTickId r 1000 tick caches := rfl

/-- A call of one of the two. -/
inductive Call where
  | getTickId (tick : Text)
  | getCanonicalTick (tick : Text)

/-- The tick that it asks for. -/
def Call.tick : Call → Text
  | .getTickId tick => tick
  | .getCanonicalTick tick => tick

/-- The caches after a call. -/
def step (caches : Caches) : Call → Caches
  | .getTickId tick => (getTickId r maxSize tick caches).2
  | .getCanonicalTick tick => (getCanonicalTick r maxSize tick caches).2

/-- The caches after some calls. -/
def run (calls : List Call) : Caches := calls.foldl (step r maxSize) {}

/-! ### What a call does to the caches -/

/-- Reading a name moves it to the end. -/
def renewName (k : Text) (caches : Caches) : Caches := { caches with tickName := (Lru.get caches.tickName k).2 }

/-- An entry of the ids made the newest. -/
def renewId (k : Text) (caches : Caches) : Caches := { caches with tickId := (Lru.get caches.tickId k).2 }

/-- The row that a name finds is filed in both caches. -/
def file (tick : Text) (row : Ticker) (caches : Caches) : Caches where
  tickName := Lru.set caches.tickName (key r tick) row.tick maxSize
  tickId := Lru.set caches.tickId (key r tick) row.id maxSize

/-- What the queries find; none is sent for an empty name. -/
def lookup (tick : Text) : Option Ticker := if tick = [] then none else r.findTicker tick

/-- A call can file the name under this row. -/
def Found (tick : Text) (row : Ticker) : Prop := ¬ Native r tick ∧ lookup r tick = some row

/-! ### What is meant -/

/-- A tick that is spelled as a row is answered from that row, any other name as from empty caches. -/
def Right {ν : Type*} (column : Ticker → ν) (fresh : Option ν) (tick : Text) (answer : Option ν) : Prop :=
  (∀ row ∈ r.db.tickers.rows, row.tick = tick → ¬ Native r tick → answer = some (column row)) ∧
    ((∀ row ∈ r.db.tickers.rows, row.tick = tick → Native r tick) → answer = fresh)

/-- The id is right. -/
def IdRight (tick : Text) (answer : Option ℕ) : Prop := Right r (·.id) (getTickId r maxSize tick {}).1 tick answer

/-- The name is right. -/
def NameRight (tick : Text) (answer : Option Text) : Prop :=
  Right r (·.tick) (getCanonicalTick r maxSize tick {}).1 tick answer

/-- After every run of calls on these names, each of them is answered right. -/
def HistoryFree (asked : Set Text) : Prop :=
  ∀ calls : List Call, (∀ call ∈ calls, call.tick ∈ asked) → ∀ tick ∈ asked,
    IdRight r maxSize tick (getTickId r maxSize tick (run r maxSize calls)).1 ∧
      NameRight r maxSize tick (getCanonicalTick r maxSize tick (run r maxSize calls)).1

/-- The cached name is the one of the row the tick finds. -/
def NameKept (tick : Text) (caches : Caches) : Prop :=
  tick = [] ∨ Native r tick ∨
    ∀ name, (Lru.get caches.tickName (key r tick)).1 = some name → (lookup r tick).map (·.tick) = some name

/-- A reference is no row's tick, or it refers to that row. Another tick finds its id cached, or neither an
    id nor a name. -/
def IdKept (tick : Text) (caches : Caches) : Prop :=
  match referencedId tick with
  | some id => ∀ row ∈ r.db.tickers.rows, row.tick = tick → ¬ Native r tick → row.id = id
  | none =>
    match (Lru.get caches.tickId (key r tick)).1 with
    | some id => ¬ Native r tick ∧ (lookup r tick).map (·.id) = some id
    | none => Native r tick ∨ (Lru.get caches.tickName (key r tick)).1 = none ∨ lookup r tick = none

/-! ### When no history shows -/

/-- The name is not the empty tick of a row, for which no query is sent. -/
def Named (tick : Text) : Prop := ∀ row ∈ r.db.tickers.rows, row.tick = tick → ¬ Native r tick → tick ≠ []

/-- A cache has room for the names that are found, whichever are asked for. -/
def Fits (asked : Set Text) : Prop := ∀ names : List Text, (names.map r.toLowerCase).Nodup →
  (∀ t ∈ names, t ∈ asked ∧ ∃ row, Found r t row) → names.length ≤ maxSize

/-- Names that share a key are found in one row; no row's tick is empty, and one that is a reference refers to
    its row; and the names that are found have room, or there is room for one only, or all are references. -/
structure Settled (asked : Set Text) : Prop where
  variants : ∀ t ∈ asked, ∀ u ∈ asked, r.toLowerCase t = r.toLowerCase u → ¬ Native r t → lookup r t = lookup r u
  named : ∀ t ∈ asked, Named r t
  references : ∀ row ∈ r.db.tickers.rows, row.tick ∈ asked → ¬ Native r row.tick →
    ∀ id, referencedId row.tick = some id → row.id = id
  room : maxSize ≤ 1 ∨ (∀ t ∈ asked, ∀ row, Found r t row → referencedId t ≠ none) ∨ Fits r maxSize asked

/-- What is cached was found under a name of that key. -/
structure Sourced (asked : Set Text) (caches : Caches) : Prop where
  names : ∀ e ∈ caches.tickName, ∃ t ∈ asked, ∃ row, Found r t row ∧ key r t = e.1 ∧ row.tick = e.2
  ids : ∀ e ∈ caches.tickId, ∃ t ∈ asked, ∃ row, Found r t row ∧ key r t = e.1 ∧ row.id = e.2

/-- Nothing is in one cache only. -/
structure Paired (caches : Caches) : Prop where
  nodup : (Lru.keys caches.tickName).Nodup
  same : (Lru.keys caches.tickId).Perm (Lru.keys caches.tickName)
  single : maxSize ≤ 1 → (Lru.keys caches.tickName).length ≤ 1

variable {r maxSize} {tick : Text} {caches : Caches} {row : Ticker} {asked : Set Text}

/-! ### Answers -/

theorem get_nil {ν : Type*} (k : Text) : Lru.get ([] : List (Text × ν)) k = (none, []) := rfl

theorem findTicker_of_mem (hrow : row ∈ r.db.tickers.rows) : r.findTicker row.tick = some row := by
  have hfind : (r.db.tickers.rows.find? fun other => other.tick = row.tick) = some row := by
    cases hother : r.db.tickers.rows.find? fun other => other.tick = row.tick with
    | none => exact absurd (List.find?_eq_none.mp hother row hrow) (by simp)
    | some other =>
      have htick : other.tick = row.tick := by simpa using List.find?_some hother
      rw [List.inj_on_of_nodup_map r.db.tickers.unique_tick (List.mem_of_find?_eq_some hother) hrow htick]
  rw [Reader.findTicker, hfind, Option.some_or]

theorem lookup_of_mem (hrow : row ∈ r.db.tickers.rows) (hnamed : row.tick ≠ []) : lookup r row.tick = some row := by
  rw [lookup, if_neg hnamed, findTicker_of_mem hrow]

theorem getCanonicalTick_nil : getCanonicalTick r maxSize [] caches = (none, caches) := if_pos rfl

theorem getCanonicalTick_native (h : Native r tick) :
    getCanonicalTick r maxSize tick caches = (if tick = [] then none else some r.chain, caches) := by
  rw [getCanonicalTick]
  split_ifs <;> rfl

/-- The name that is answered is the cached one, or else the one that is found. -/
theorem getCanonicalTick_fst (hnil : tick ≠ []) (h : ¬ Native r tick) : (getCanonicalTick r maxSize tick caches).1 =
    ((Lru.get caches.tickName (key r tick)).1).or ((lookup r tick).map (·.tick)) := by
  rw [getCanonicalTick, if_neg hnil, if_neg h, lookup, if_neg hnil]
  rcases hget : Lru.get caches.tickName (key r tick) with ⟨_ | cached, tickName⟩
  · cases r.findTicker tick with
    | none => rfl
    | some row => rfl
  · rfl

/-- A name that misses both caches is filed in both. -/
theorem getCanonicalTick_tickId (h : ¬ Native r tick) (hname : (Lru.get caches.tickName (key r tick)).1 = none) :
    (getCanonicalTick r maxSize tick caches).2.tickId = match lookup r tick with
      | none => caches.tickId
      | some row => Lru.set caches.tickId (key r tick) row.id maxSize := by
  by_cases hnil : tick = []
  · rw [hnil, getCanonicalTick_nil, lookup, if_pos rfl]
  · rw [getCanonicalTick, if_neg hnil, if_neg h, lookup, if_neg hnil]
    rcases hget : Lru.get caches.tickName (key r tick) with ⟨_ | cached, tickName⟩
    · cases r.findTicker tick with
      | none => rfl
      | some row => rfl
    · rw [hget] at hname
      cases hname

theorem getCanonicalTick_tickId_of_hit {name : Text} (hname : (Lru.get caches.tickName (key r tick)).1 = some name) :
    (getCanonicalTick r maxSize tick caches).2.tickId = caches.tickId := by
  rw [getCanonicalTick]
  split_ifs
  · rfl
  · rfl
  · rcases hget : Lru.get caches.tickName (key r tick) with ⟨_ | cached, tickName⟩
    · rw [hget] at hname
      cases hname
    · rfl

/-- The id that is answered is the cached one. Without it a cached name hides the row. -/
theorem getTickId_fst (href : referencedId tick = none) : (getTickId r maxSize tick caches).1 =
    ((Lru.get caches.tickId (key r tick)).1).or
      (if Native r tick ∨ (Lru.get caches.tickName (key r tick)).1.isSome then none
        else (lookup r tick).map (·.id)) := by
  rw [getTickId, href]
  simp only
  rcases hget : Lru.get caches.tickId (key r tick) with ⟨_ | cached, tickId⟩
  · have hmiss : (Lru.get caches.tickId (key r tick)).1 = none := by rw [hget]
    simp only [Option.none_or]
    by_cases hnative : Native r tick
    · rw [getCanonicalTick_native hnative, hmiss, if_pos (Or.inl hnative)]
    · cases hname : (Lru.get caches.tickName (key r tick)).1 with
      | some name => rw [getCanonicalTick_tickId_of_hit hname, if_pos (.inr rfl), hmiss]
      | none =>
        rw [getCanonicalTick_tickId hnative hname, if_neg (by simp [hnative])]
        cases lookup r tick with
        | none => exact hmiss
        | some row => exact Lru.get_set_self
  · rfl

theorem right_native {ν : Type*} {column : Ticker → ν} {fresh answer : Option ν} (h : Native r tick) :
    Right r column fresh tick answer ↔ answer = fresh :=
  ⟨fun hright => hright.2 fun _ _ _ => h, fun heq => ⟨fun _ _ _ hnot => absurd h hnot, fun _ => heq⟩⟩

/-- What is right is what the table finds. -/
theorem right_iff {ν : Type*} {column : Ticker → ν} {fresh answer : Option ν} (hnamed : Named r tick)
    (h : ¬ Native r tick) (hfresh : fresh = (lookup r tick).map column) :
    Right r column fresh tick answer ↔ answer = (lookup r tick).map column := by
  by_cases hrow : ∃ row ∈ r.db.tickers.rows, row.tick = tick
  · obtain ⟨row, hrow, rfl⟩ := hrow
    rw [lookup_of_mem hrow (hnamed row hrow rfl h), Option.map_some]
    refine ⟨fun hright => hright.1 row hrow rfl h, fun heq => ⟨fun other hother htick _ => ?_, fun hnone => ?_⟩⟩
    · rw [heq, List.inj_on_of_nodup_map r.db.tickers.unique_tick hother hrow htick]
    · exact absurd (hnone row hrow rfl) h
  · have hnone : ∀ row ∈ r.db.tickers.rows, row.tick ≠ tick := fun row hmem htick => hrow ⟨row, hmem, htick⟩
    rw [← hfresh]
    exact ⟨fun hright => hright.2 fun row hmem htick => absurd htick (hnone row hmem),
      fun heq => ⟨fun row hmem htick => absurd htick (hnone row hmem), fun _ => heq⟩⟩

/-! ### When an answer is right -/

theorem nameRight_iff (hnamed : Named r tick) :
    NameRight r maxSize tick (getCanonicalTick r maxSize tick caches).1 ↔ NameKept r tick caches := by
  by_cases h : Native r tick
  · rw [NameRight, right_native h, getCanonicalTick_native h, getCanonicalTick_native h]
    exact iff_of_true rfl (.inr (.inl h))
  · by_cases hnil : tick = []
    · subst hnil
      rw [NameRight, getCanonicalTick_nil, getCanonicalTick_nil, right_iff hnamed h (by rw [lookup, if_pos rfl]; rfl), lookup,
        if_pos rfl]
      exact iff_of_true rfl (.inl rfl)
    · rw [NameRight, right_iff hnamed h (by rw [getCanonicalTick_fst hnil h, get_nil, Option.none_or]),
        getCanonicalTick_fst hnil h, NameKept, or_iff_right hnil, or_iff_right h]
      cases (Lru.get caches.tickName (key r tick)).1 with
      | none => simp
      | some name => simp [eq_comm]

theorem idRight_of_reference {id : ℕ} (href : referencedId tick = some id) :
    IdRight r maxSize tick (getTickId r maxSize tick caches).1 ↔ IdKept r tick caches := by
  have hanswer : ∀ caches, (getTickId r maxSize tick caches).1 = some id := by
    intro caches
    rw [getTickId, href]
  rw [IdRight, hanswer, hanswer, IdKept, href]
  simp only [Right, Option.some.injEq, implies_true, and_true, eq_comm]

theorem idRight_iff (hnamed : Named r tick) :
    IdRight r maxSize tick (getTickId r maxSize tick caches).1 ↔ IdKept r tick caches := by
  cases href : referencedId tick with
  | some id => exact idRight_of_reference href
  | none =>
    rw [IdKept, href]
    simp only
    have hfresh : (getTickId r maxSize tick {}).1 = if Native r tick then none else (lookup r tick).map (·.id) := by
      simp [getTickId_fst href, get_nil]
    by_cases h : Native r tick
    · rw [IdRight, right_native h, hfresh, if_pos h, getTickId_fst href, if_pos (.inl h), Option.or_none]
      cases (Lru.get caches.tickId (key r tick)).1 with
      | none => simp [h]
      | some id => simp [h]
    · rw [IdRight, right_iff hnamed h (by rw [hfresh, if_neg h]), getTickId_fst href]
      cases (Lru.get caches.tickId (key r tick)).1 with
      | some id => exact ⟨fun heq => ⟨h, heq.symm⟩, fun hkept => hkept.2.symm⟩
      | none =>
        cases (Lru.get caches.tickName (key r tick)).1 with
        | none => exact iff_of_true (if_neg (by simp [h])) (.inr (.inl rfl))
        | some name =>
          cases lookup r tick with
          | none => simp
          | some row => simp [h]

/-- Already with empty caches an empty name is answered wrong where it is a row's tick. -/
theorem named_of_right (h : NameRight r maxSize tick (getCanonicalTick r maxSize tick {}).1) : Named r tick := by
  rintro row hrow htick hnative rfl
  have hanswer := h.1 row hrow htick hnative
  rw [getCanonicalTick_nil] at hanswer
  cases hanswer

/-! ### What the calls of a run do to the caches -/

theorem ne_nil_of_lookup (h : lookup r tick = some row) : tick ≠ [] := by
  rintro rfl
  rw [lookup, if_pos rfl] at h
  cases h

theorem getCanonicalTick_hit (hnil : tick ≠ []) (h : ¬ Native r tick) (hmem : key r tick ∈ Lru.keys caches.tickName) :
    (getCanonicalTick r maxSize tick caches).2 = renewName (key r tick) caches := by
  have hsome : (Lru.get caches.tickName (key r tick)).1 ≠ none := fun hnone => Lru.get_eq_none.mp hnone hmem
  rw [getCanonicalTick, if_neg hnil, if_neg h, renewName]
  rcases hget : Lru.get caches.tickName (key r tick) with ⟨_ | cached, tickName⟩
  · exact absurd (by rw [hget]) hsome
  · rfl

theorem getCanonicalTick_miss (h : Found r tick row) (hmem : key r tick ∉ Lru.keys caches.tickName) :
    (getCanonicalTick r maxSize tick caches).2 = file r maxSize tick row caches := by
  have hnil := ne_nil_of_lookup h.2
  have hfind := h.2
  rw [lookup, if_neg hnil] at hfind
  rw [getCanonicalTick, if_neg hnil, if_neg h.1, Lru.get_miss hmem, hfind]
  rfl

/-- What reading either cache and filing a missed name preserve, a call preserves. -/
theorem step_inv {P : Caches → Prop} (call : Call) (hname : ∀ caches k, P caches → P (renewName k caches))
    (hid : ∀ caches k, P caches → P (renewId k caches))
    (hfile : ∀ caches row, Found r call.tick row → key r call.tick ∉ Lru.keys caches.tickName → P caches →
      P (file r maxSize call.tick row caches)) (h : P caches) : P (step r maxSize caches call) := by
  have hcanonical : ∀ caches, P caches → P (getCanonicalTick r maxSize call.tick caches).2 := by
    intro caches h
    by_cases hnative : Native r call.tick
    · rwa [getCanonicalTick_native hnative]
    · by_cases hnil : call.tick = []
      · rwa [hnil, getCanonicalTick_nil]
      · by_cases hmem : key r call.tick ∈ Lru.keys caches.tickName
        · rw [getCanonicalTick_hit hnil hnative hmem]
          exact hname caches _ h
        · cases hfind : r.findTicker call.tick with
          | none =>
            rw [getCanonicalTick, if_neg hnil, if_neg hnative, Lru.get_miss hmem, hfind]
            exact h
          | some row =>
            have hfound : Found r call.tick row := ⟨hnative, by rw [lookup, if_neg hnil, hfind]⟩
            rw [getCanonicalTick_miss hfound hmem]
            exact hfile caches row hfound hmem h
  cases call with
  | getCanonicalTick tick => exact hcanonical caches h
  | getTickId tick =>
    rw [step, getTickId]
    split
    · exact h
    · split
      case h_1 hget =>
        have hrenew := hid caches (key r tick) h
        rwa [renewId, hget] at hrenew
      case h_2 => exact hid _ (key r tick) (hcanonical caches h)

/-- What every call preserves, a run preserves. -/
theorem run_inv {P : Caches → Prop}
    (hstep : ∀ caches call, call.tick ∈ asked → P caches → P (step r maxSize caches call)) (hempty : P {})
    (calls : List Call) (hcalls : ∀ call ∈ calls, call.tick ∈ asked) : P (run r maxSize calls) := by
  induction calls using List.reverseRecOn with
  | nil => exact hempty
  | append_singleton calls call ih =>
    rw [run, List.foldl_append, List.foldl_cons, List.foldl_nil]
    exact hstep _ call (hcalls call (by simp)) (ih fun other hother => hcalls other (by simp [hother]))

/-! ### The caches of a run -/

theorem sourced_renewName (k : Text) (h : Sourced r asked caches) : Sourced r asked (renewName k caches) :=
  ⟨fun e he => h.names e (Lru.mem_of_mem_get he), h.ids⟩

theorem sourced_renewId (k : Text) (h : Sourced r asked caches) : Sourced r asked (renewId k caches) :=
  ⟨h.names, fun e he => h.ids e (Lru.mem_of_mem_get he)⟩

theorem sourced_file (htick : tick ∈ asked) (hfound : Found r tick row) (h : Sourced r asked caches) :
    Sourced r asked (file r maxSize tick row caches) where
  names e he := by
    rcases Lru.mem_of_mem_set he with rfl | he
    · exact ⟨tick, htick, row, hfound, rfl, rfl⟩
    · exact h.names e he
  ids e he := by
    rcases Lru.mem_of_mem_set he with rfl | he
    · exact ⟨tick, htick, row, hfound, rfl, rfl⟩
    · exact h.ids e he

theorem paired_renewName (k : Text) (h : Paired maxSize caches) : Paired maxSize (renewName k caches) := by
  have hperm : (Lru.keys (renewName k caches).tickName).Perm (Lru.keys caches.tickName) := Lru.keys_get_perm h.nodup
  exact ⟨hperm.nodup_iff.mpr h.nodup, h.same.trans hperm.symm, fun hone => hperm.length_eq ▸ h.single hone⟩

theorem paired_renewId (k : Text) (h : Paired maxSize caches) : Paired maxSize (renewId k caches) :=
  ⟨h.nodup, (Lru.keys_get_perm (h.same.nodup_iff.mpr h.nodup)).trans h.same, h.single⟩

/-- A name is filed in pairs where there is room for it, and where there is room for one only: the two caches
    then drop the same one. -/
theorem paired_file (hmem : key r tick ∉ Lru.keys caches.tickName)
    (hroom : maxSize ≤ 1 ∨ (Lru.keys caches.tickName).length < maxSize) (h : Paired maxSize caches) :
    Paired maxSize (file r maxSize tick row caches) := by
  have hlen := h.same.length_eq
  have hnames : Lru.keys (file r maxSize tick row caches).tickName = _ := Lru.keys_set hmem
  have hids : Lru.keys (file r maxSize tick row caches).tickId = _ :=
    Lru.keys_set fun hid => hmem (h.same.mem_iff.mp hid)
  by_cases hfull : maxSize ≤ (Lru.keys caches.tickName).length
  · have hone : maxSize ≤ 1 := hroom.resolve_right (by omega)
    have hnil : ∀ keys : List Text, keys.length ≤ 1 → keys.tail = [] := fun keys hkeys =>
      List.length_eq_zero_iff.mp (by rw [List.length_tail]; omega)
    rw [if_pos hfull, hnil _ (h.single hone)] at hnames
    rw [if_pos (hlen.symm ▸ hfull), hnil _ (hlen.symm ▸ h.single hone)] at hids
    refine ⟨?_, ?_, fun _ => ?_⟩
    · exact hnames ▸ List.nodup_singleton _
    · exact hnames ▸ hids ▸ .refl _
    · exact (congrArg List.length hnames).le
  · rw [if_neg hfull] at hnames
    rw [if_neg (hlen.symm ▸ hfull)] at hids
    refine ⟨?_, ?_, fun hone => ?_⟩
    · have hnodup := h.nodup.concat hmem
      rw [List.concat_eq_append] at hnodup
      exact hnames ▸ hnodup
    · exact hnames ▸ hids ▸ h.same.append_right _
    · have hlength := congrArg List.length hnames
      rw [List.length_append, List.length_singleton] at hlength
      exact hlength.le.trans (by omega)

/-- A name that is not cached has room next to those that are. -/
theorem length_lt (htick : tick ∈ asked) (hfound : Found r tick row) (hmem : key r tick ∉ Lru.keys caches.tickName)
    (hfits : Fits r maxSize asked) (hsourced : Sourced r asked caches) (hnodup : (Lru.keys caches.tickName).Nodup) :
    (Lru.keys caches.tickName).length < maxSize := by
  let names : Set Text := {t | t ∈ asked ∧ ∃ row, Found r t row}
  have hrange : ∀ k ∈ key r tick :: Lru.keys caches.tickName, k ∈ Set.range fun t : names => key r t := by
    intro k hk
    rcases List.mem_cons.mp hk with rfl | hk
    · exact ⟨⟨tick, htick, row, hfound⟩, rfl⟩
    · obtain ⟨e, he, rfl⟩ := List.mem_map.mp hk
      obtain ⟨t, ht, row, hrow, hkey, -⟩ := hsourced.names e he
      exact ⟨⟨t, ht, row, hrow⟩, hkey⟩
  obtain ⟨filed, hfiled⟩ : key r tick :: Lru.keys caches.tickName ∈ Set.range (List.map fun t : names => key r t) := by
    rw [Set.range_list_map]
    exact hrange
  have hkeys : (filed.map fun t : names => key r t).Nodup := hfiled ▸ List.nodup_cons.mpr ⟨hmem, hnodup⟩
  have hlower : ((filed.map Subtype.val).map r.toLowerCase).Nodup := by
    refine List.Nodup.of_map r.cacheKey ?_
    rwa [List.map_map, List.map_map]
  have hlength := hfits (filed.map Subtype.val) hlower fun t ht => by
    obtain ⟨t, -, rfl⟩ := List.mem_map.mp ht
    exact t.2
  rw [List.length_map, ← List.length_map fun t : names => key r t, hfiled, List.length_cons] at hlength
  omega

theorem sourced_run (calls : List Call) (hcalls : ∀ call ∈ calls, call.tick ∈ asked) :
    Sourced r asked (run r maxSize calls) :=
  run_inv (fun _ call hcall h => step_inv call (fun _ k h => sourced_renewName k h) (fun _ k h => sourced_renewId k h)
    (fun _ _ hfound _ h => sourced_file hcall hfound h) h) ⟨by simp, by simp⟩ calls hcalls

theorem paired_run (hroom : maxSize ≤ 1 ∨ Fits r maxSize asked) (calls : List Call)
    (hcalls : ∀ call ∈ calls, call.tick ∈ asked) : Paired maxSize (run r maxSize calls) := by
  let P : Caches → Prop := fun caches => Sourced r asked caches ∧ Paired maxSize caches
  have hrun : P (run r maxSize calls) := by
    refine run_inv (fun caches call hcall h => ?_) ⟨⟨by simp, by simp⟩, .nil, .refl _, fun _ => Nat.zero_le _⟩ calls hcalls
    refine step_inv call (fun caches k (h : P caches) => ⟨sourced_renewName k h.1, paired_renewName k h.2⟩)
      (fun caches k h => ⟨sourced_renewId k h.1, paired_renewId k h.2⟩) (fun caches row hfound hmem h => ?_) h
    exact ⟨sourced_file hcall hfound h.1, paired_file hmem
      (hroom.imp_right fun hfits => length_lt hcall hfound hmem hfits h.1 h.2.nodup) h.2⟩
  exact hrun.2

/-! ### Settled tables show no history -/

theorem native_of_key {other : Text} (hkey : Function.Injective r.cacheKey) (h : key r other = key r tick)
    (hnative : Native r tick) : Native r other := ⟨hnative.1, (hkey h).trans hnative.2⟩

/-- A cached name comes from the row that the tick finds. -/
theorem found_of_key {other : Text} (hkey : Function.Injective r.cacheKey) (h : Settled r maxSize asked)
    (htick : tick ∈ asked) (hother : other ∈ asked) (hfound : Found r other row) (heq : key r other = key r tick) :
    Found r tick row :=
  ⟨fun hnative => hfound.1 (native_of_key hkey heq hnative),
    h.variants other hother tick htick (hkey heq) hfound.1 ▸ hfound.2⟩

theorem nameKept_run (hkey : Function.Injective r.cacheKey) (h : Settled r maxSize asked) (htick : tick ∈ asked)
    (hsourced : Sourced r asked caches) : NameKept r tick caches := by
  refine .inr (.inr fun name hname => ?_)
  obtain ⟨other, hother, row, hfound, heq, rfl⟩ := hsourced.names _ (Lru.mem_of_get hname)
  rw [(found_of_key hkey h htick hother hfound heq).2, Option.map_some]

theorem idKept_run (hkey : Function.Injective r.cacheKey) (h : Settled r maxSize asked) (htick : tick ∈ asked)
    (hsourced : Sourced r asked caches) (hpaired : maxSize ≤ 1 ∨ Fits r maxSize asked → Paired maxSize caches) :
    IdKept r tick caches := by
  unfold IdKept
  cases href : referencedId tick with
  | some id =>
    rintro row hrow rfl hnative
    exact h.references row hrow htick hnative id href
  | none =>
    cases hid : (Lru.get caches.tickId (key r tick)).1 with
    | some id =>
      obtain ⟨other, hother, row, hfound, heq, rfl⟩ := hsourced.ids _ (Lru.mem_of_get hid)
      have hrow := found_of_key hkey h htick hother hfound heq
      exact ⟨hrow.1, by rw [hrow.2, Option.map_some]⟩
    | none =>
      by_cases hnative : Native r tick
      · exact .inl hnative
      · cases hfind : lookup r tick with
        | none => exact .inr (.inr rfl)
        | some row =>
          have hroom : maxSize ≤ 1 ∨ Fits r maxSize asked :=
            h.room.imp_right (Or.resolve_left · fun hall => hall tick htick row ⟨hnative, hfind⟩ href)
          have hname : key r tick ∉ Lru.keys caches.tickName :=
            fun hmem => Lru.get_eq_none.mp hid ((hpaired hroom).same.mem_iff.mpr hmem)
          exact .inr (.inl (Lru.get_eq_none.mpr hname))

/-! ### Histories that show -/

theorem mem_of_lookup (h : lookup r tick = some row) : row ∈ r.db.tickers.rows := by
  rw [lookup, if_neg (ne_nil_of_lookup h), Reader.findTicker] at h
  rcases Option.or_eq_some_iff.mp h with hfind | ⟨-, hfind⟩
  · exact List.mem_of_find?_eq_some hfind
  · exact List.mem_of_find?_eq_some hfind

/-- A name is answered from the row that another of its key was found in just before. -/
theorem lookup_of_variant {other : Text} (hkey : key r other = key r tick) (hfound : Found r other row)
    (hnative : ¬ Native r tick) (hname : NameKept r tick (run r maxSize [.getCanonicalTick other]))
    (hid : IdKept r tick (run r maxSize [.getCanonicalTick other])) : lookup r tick = some row := by
  have hrun : run r maxSize [.getCanonicalTick other] = file r maxSize other row {} :=
    getCanonicalTick_miss hfound List.not_mem_nil
  by_cases hnil : tick = []
  · subst hnil
    -- an empty name is answered from the ids only
    have hcached : (Lru.get (file r maxSize other row {}).tickId (key r [])).1 = some row.id := by
      rw [← hkey]
      exact Lru.get_set_self
    rw [hrun, IdKept, show referencedId [] = none from rfl] at hid
    simp only [hcached, lookup, if_pos, Option.map_none, reduceCtorEq, and_false] at hid
  · have hcached : (Lru.get (run r maxSize [.getCanonicalTick other]).tickName (key r tick)).1 = some row.tick := by
      rw [hrun, ← hkey]
      exact Lru.get_set_self
    obtain ⟨found, hfind, htick⟩ :=
      Option.map_eq_some_iff.mp (((hname.resolve_left hnil).resolve_left hnative) row.tick hcached)
    rw [hfind, List.inj_on_of_nodup_map r.db.tickers.unique_tick (mem_of_lookup hfind) (mem_of_lookup hfound.2) htick]

/-- Names of different keys, for which there is room, are filed in the order they are asked for. -/
theorem keys_run (names : List Text) (hnames : ∀ t ∈ names, ∃ row, Found r t row) (hnodup : (names.map (key r)).Nodup)
    (hlength : names.length ≤ maxSize) :
    Lru.keys (run r maxSize (names.map .getCanonicalTick)).tickName = names.map (key r) ∧
      Lru.keys (run r maxSize (names.map .getCanonicalTick)).tickId = names.map (key r) := by
  induction names using List.reverseRecOn with
  | nil => exact ⟨rfl, rfl⟩
  | append_singleton names t ih =>
    rw [List.map_append, List.map_singleton, List.nodup_append] at hnodup
    rw [List.length_append, List.length_singleton] at hlength
    obtain ⟨hname, hid⟩ := ih (fun u hu => hnames u (by simp [hu])) hnodup.1 (by omega)
    obtain ⟨row, hfound⟩ := hnames t (by simp)
    have hmem : key r t ∉ names.map (key r) := fun hmem => hnodup.2.2 _ hmem _ (List.mem_singleton_self _) rfl
    have hroom : ¬ maxSize ≤ (names.map (key r)).length := by rw [List.length_map]; omega
    rw [List.map_append, List.map_singleton, run, List.foldl_append, List.foldl_cons, List.foldl_nil, ← run, step,
      getCanonicalTick_miss hfound (hname ▸ hmem), List.map_append, List.map_singleton]
    constructor
    · rw [file, Lru.keys_set (hname ▸ hmem), hname, if_neg hroom]
    · rw [file, Lru.keys_set (hid ▸ hmem), hid, if_neg hroom]

/-- The oldest of the names is renewed behind the others. -/
theorem keys_renewName {k : Text} {ks : List Text} {caches : Caches} (hkeys : Lru.keys caches.tickName = k :: ks)
    (hk : k ∉ ks) : Lru.keys (renewName k caches).tickName = ks ++ [k] := by
  have hget : Lru.keys (renewName k caches).tickName = (Lru.keys caches.tickName).filter (· ≠ k) ++ [k] :=
    Lru.keys_get (hkeys ▸ List.mem_cons_self)
  have hothers : ks.filter (· ≠ k) = ks :=
    List.filter_eq_self.mpr fun k' hk' => decide_eq_true fun heq => hk (heq ▸ hk')
  rw [hget, hkeys, List.filter_cons_of_neg (by simp), hothers]

/-- Both caches are filled from a name on, the name is renewed among the names, and one more is filed: the
    name outlives its id. -/
theorem not_idKept (hfound : Found r tick row) (href : referencedId tick = none) {first last : Text} {names : List Text}
    (hnames : ∀ t ∈ first :: names ++ [last], ∃ row, Found r t row)
    (hnodup : ((tick :: (first :: names ++ [last])).map (key r)).Nodup) (hlength : names.length + 2 = maxSize) :
    ¬ IdKept r tick (run r maxSize
      ((tick :: first :: names).map .getCanonicalTick ++ [.getCanonicalTick tick, .getCanonicalTick last])) := by
  let filled := run r maxSize ((tick :: first :: names).map .getCanonicalTick)
  have hsplit : (tick :: (first :: names ++ [last])).map (key r) =
      (tick :: first :: names).map (key r) ++ [key r last] := by simp
  rw [hsplit, List.nodup_append] at hnodup
  have hfilling : ∀ t ∈ tick :: first :: names, ∃ row, Found r t row := by
    intro t ht
    rcases List.mem_cons.mp ht with rfl | ht
    · exact ⟨row, hfound⟩
    · exact hnames t (List.mem_append_left _ ht)
  obtain ⟨hname, hid⟩ : Lru.keys filled.tickName = _ ∧ Lru.keys filled.tickId = _ :=
    keys_run (tick :: first :: names) hfilling hnodup.1 (by simp; omega)
  have hothers : key r tick ∉ (first :: names).map (key r) := (List.nodup_cons.mp hnodup.1).1
  have hlast : key r last ∉ (tick :: first :: names).map (key r) :=
    fun hmem => hnodup.2.2 _ hmem _ (List.mem_singleton_self _) rfl
  -- the name moves behind the others, its id does not
  let renewed := renewName (key r tick) filled
  have hrenewed : Lru.keys renewed.tickName = (first :: names).map (key r) ++ [key r tick] :=
    keys_renewName hname hothers
  have hmiss : key r last ∉ Lru.keys renewed.tickName := by
    rw [hrenewed, List.mem_append, List.mem_singleton]
    rintro (hmem | heq)
    · exact hlast (List.mem_cons_of_mem _ hmem)
    · exact hlast (heq ▸ List.mem_cons_self)
  obtain ⟨lastRow, hlastRow⟩ := hnames last (by simp)
  have hrun : run r maxSize ((tick :: first :: names).map .getCanonicalTick ++
      [.getCanonicalTick tick, .getCanonicalTick last]) = file r maxSize last lastRow renewed := by
    rw [run, List.foldl_append, ← run, List.foldl_cons, List.foldl_cons, List.foldl_nil, step, step,
      getCanonicalTick_hit (ne_nil_of_lookup hfound.2) hfound.1 (hname ▸ List.mem_cons_self), getCanonicalTick_miss hlastRow hmiss]
  rw [hrun]
  have hcached : key r tick ∈ Lru.keys (file r maxSize last lastRow renewed).tickName := by
    rw [file, Lru.keys_set hmiss, hrenewed, if_pos (by simp; omega)]
    simp
  have hdropped : key r tick ∉ Lru.keys (file r maxSize last lastRow renewed).tickId := by
    rw [file, Lru.keys_set (show key r last ∉ Lru.keys renewed.tickId from hid ▸ hlast),
      show Lru.keys renewed.tickId = _ from hid, if_pos (by simp; omega), List.map_cons, List.tail_cons, List.mem_append,
      List.mem_singleton]
    rintro (hmem | heq)
    · exact hothers hmem
    · exact hlast (heq ▸ List.mem_cons_self)
  rw [IdKept, href]
  simp only [Lru.get_eq_none.mpr hdropped, hfound.2, reduceCtorEq, or_false]
  exact fun h => h.elim hfound.1 fun hnone => Lru.get_eq_none.mp hnone hcached

/-- Names that do not fit are as many as a cache holds next to any one of them. -/
theorem exists_others (hfits : ¬ Fits r maxSize asked) (tick : Text) : ∃ names : List Text, names.length = maxSize ∧
    (∀ t ∈ names, t ∈ asked ∧ ∃ row, Found r t row) ∧ ((tick :: names).map r.toLowerCase).Nodup := by
  unfold Fits at hfits
  push Not at hfits
  obtain ⟨names, hnodup, hnames, hlength⟩ := hfits
  let others := names.filter fun t => r.toLowerCase t ≠ r.toLowerCase tick
  have hothers : others.map r.toLowerCase = (names.map r.toLowerCase).erase (r.toLowerCase tick) := by
    rw [hnodup.erase_eq_filter, List.filter_map]
    exact congrArg _ (List.filter_congr fun t _ => by simp [bne, beq_eq_decide])
  have hle : maxSize ≤ others.length := by
    have hcard := congrArg List.length hothers
    rw [List.length_map, List.length_erase, List.length_map] at hcard
    split_ifs at hcard <;> omega
  refine ⟨others.take maxSize, List.length_take_of_le hle, fun t ht => ?_, ?_⟩
  · exact hnames t (List.mem_of_mem_filter (List.mem_of_mem_take ht))
  · rw [List.map_cons, List.nodup_cons, List.map_take, hothers]
    refine ⟨fun hmem => ?_, (hnodup.erase _).sublist (List.take_sublist _ _)⟩
    exact hnodup.not_mem_erase (List.mem_of_mem_take hmem)

theorem historyFree_of_settled (hkey : Function.Injective r.cacheKey) (h : Settled r maxSize asked) :
    HistoryFree r maxSize asked := by
  intro calls hcalls tick htick
  have hsourced : Sourced r asked (run r maxSize calls) := sourced_run calls hcalls
  have hnamed := h.named tick htick
  exact ⟨(idRight_iff hnamed).mpr (idKept_run hkey h htick hsourced fun hroom => paired_run hroom calls hcalls),
    (nameRight_iff hnamed).mpr (nameKept_run hkey h htick hsourced)⟩

theorem HistoryFree.named (h : HistoryFree r maxSize asked) (htick : tick ∈ asked) : Named r tick :=
  named_of_right (h [] (by simp) tick htick).2

theorem HistoryFree.idKept (h : HistoryFree r maxSize asked) (htick : tick ∈ asked) (calls : List Call)
    (hcalls : ∀ call ∈ calls, call.tick ∈ asked) : IdKept r tick (run r maxSize calls) :=
  (idRight_iff (h.named htick)).mp (h calls hcalls tick htick).1

theorem HistoryFree.nameKept (h : HistoryFree r maxSize asked) (htick : tick ∈ asked) (calls : List Call)
    (hcalls : ∀ call ∈ calls, call.tick ∈ asked) : NameKept r tick (run r maxSize calls) :=
  (nameRight_iff (h.named htick)).mp (h calls hcalls tick htick).2

/-- Where no history shows, names that share a key find the same row. -/
theorem HistoryFree.lookup_of_key (hkey : Function.Injective r.cacheKey) (h : HistoryFree r maxSize asked)
    {other : Text} (hother : other ∈ asked) (htick : tick ∈ asked) (heq : key r other = key r tick)
    (hfound : Found r other row) : lookup r tick = some row := by
  have hcalls : ∀ call ∈ [Call.getCanonicalTick other], call.tick ∈ asked := by simpa [Call.tick] using hother
  exact lookup_of_variant heq hfound (fun hnative => hfound.1 (native_of_key hkey heq hnative))
    (h.nameKept htick _ hcalls) (h.idKept htick _ hcalls)

theorem settled_of_historyFree (hkey : Function.Injective r.cacheKey) (h : HistoryFree r maxSize asked) :
    Settled r maxSize asked where
  variants t ht u hu heq hnative := by
    have hkeys : key r t = key r u := congrArg r.cacheKey heq
    cases hfind : lookup r t with
    | some row => rw [h.lookup_of_key hkey ht hu hkeys ⟨hnative, hfind⟩]
    | none =>
      cases hother : lookup r u with
      | none => rfl
      | some row =>
        have hu' : ¬ Native r u := fun hu' => hnative (native_of_key hkey hkeys hu')
        rw [h.lookup_of_key hkey hu ht hkeys.symm ⟨hu', hother⟩] at hfind
        cases hfind
  named t ht := h.named ht
  references row hrow htick hnative id href := by
    have hkept := h.idKept htick [] (by simp)
    rw [IdKept, href] at hkept
    exact hkept row hrow rfl hnative
  room := by
    by_contra hroom
    push Not at hroom
    obtain ⟨htwo, ⟨tick, htick, row, hfound, href⟩, hfits⟩ := hroom
    obtain ⟨others, hlength, hothers, hnodup⟩ := exists_others hfits tick
    obtain ⟨first, rest, rfl⟩ : ∃ first rest, others = first :: rest :=
      List.exists_cons_of_length_pos (by omega)
    obtain ⟨names, last, rfl⟩ : ∃ names last, rest = names ++ [last] := by
      rcases List.eq_nil_or_concat' rest with rfl | h
      · simp at hlength
        omega
      · exact h
    have hkeys : ((tick :: (first :: names ++ [last])).map (key r)).Nodup := by
      have hmap := hnodup.map hkey
      rwa [List.map_map] at hmap
    refine not_idKept hfound href (fun t ht => (hothers t ht).2) hkeys (by simpa using hlength)
      (h.idKept htick _ fun call hcall => ?_)
    simp only [List.map_cons, List.cons_append, List.mem_cons, List.mem_append, List.mem_map, List.not_mem_nil,
      or_false] at hcall
    rcases hcall with rfl | rfl | ⟨t, ht, rfl⟩ | rfl | rfl
    · exact htick
    · exact (hothers first (by simp)).1
    · exact (hothers t (by simp [ht])).1
    · exact htick
    · exact (hothers last (by simp)).1

/-! ### The caches of the process -/

/-- Rows whose ticks differ in lower case too are found by any spelling of their ticks. -/
theorem findTicker_eq (hLOWER : ∀ row ∈ r.db.tickers.rows, r.LOWER row.tick = r.toLowerCase row.tick)
    (hdistinct : (r.db.tickers.rows.map fun row => r.toLowerCase row.tick).Nodup) (tick : Text) :
    r.findTicker tick = r.db.tickers.rows.find? fun row => r.toLowerCase row.tick = r.toLowerCase tick := by
  have hfolded : (r.db.tickers.rows.find? fun row => r.LOWER row.tick = r.toLowerCase tick) =
      r.db.tickers.rows.find? fun row => r.toLowerCase row.tick = r.toLowerCase tick :=
    List.find?_congr fun row hrow => by rw [hLOWER row hrow]
  rw [Reader.findTicker, hfolded]
  cases hexact : r.db.tickers.rows.find? fun row => row.tick = tick with
  | none => exact Option.none_or
  | some row =>
    have hrow := List.mem_of_find?_eq_some hexact
    have htick : row.tick = tick := by simpa using List.find?_some hexact
    cases hother : r.db.tickers.rows.find? fun row => r.toLowerCase row.tick = r.toLowerCase tick with
    | none => exact absurd (List.find?_eq_none.mp hother row hrow) (by simp [htick])
    | some other =>
      have hlower : r.toLowerCase other.tick = r.toLowerCase tick := by simpa using List.find?_some hother
      rw [Option.some_or, List.inj_on_of_nodup_map hdistinct hrow (List.mem_of_find?_eq_some hother) (by rw [htick, hlower])]

theorem lookup_eq (hLOWER : ∀ row ∈ r.db.tickers.rows, r.LOWER row.tick = r.toLowerCase row.tick)
    (hdistinct : (r.db.tickers.rows.map fun row => r.toLowerCase row.tick).Nodup)
    (hnil : ∀ row ∈ r.db.tickers.rows, r.toLowerCase row.tick ≠ r.toLowerCase []) (tick : Text) :
    lookup r tick = r.db.tickers.rows.find? fun row => r.toLowerCase row.tick = r.toLowerCase tick := by
  rw [lookup]
  split_ifs with h
  · exact (List.find?_eq_none.mpr fun row hrow => by simpa [h] using hnil row hrow).symm
  · exact findTicker_eq hLOWER hdistinct tick

theorem settled_of_distinct (hLOWER : ∀ row ∈ r.db.tickers.rows, r.LOWER row.tick = r.toLowerCase row.tick)
    (hdistinct : (r.db.tickers.rows.map fun row => r.toLowerCase row.tick).Nodup)
    (hnil : ∀ row ∈ r.db.tickers.rows, r.toLowerCase row.tick ≠ r.toLowerCase [])
    (hreferences : ∀ row ∈ r.db.tickers.rows, referencedId row.tick = none) (hlength : r.db.tickers.rows.length ≤ maxSize) :
    Settled r maxSize Set.univ where
  variants t _ u _ heq _ := by rw [lookup_eq hLOWER hdistinct hnil, lookup_eq hLOWER hdistinct hnil, heq]
  named t _ row hrow htick _ h := hnil row hrow (by rw [htick, h])
  references row hrow _ _ id href := by
    rw [hreferences row hrow] at href
    cases href
  room := by
    refine .inr (.inr fun names hnodup hnames => ?_)
    have hsubset : names.map r.toLowerCase ⊆ r.db.tickers.rows.map fun row => r.toLowerCase row.tick := by
      intro lower hmem
      obtain ⟨t, ht, rfl⟩ := List.mem_map.mp hmem
      obtain ⟨-, row, -, hfind⟩ := hnames t ht
      rw [lookup_eq hLOWER hdistinct hnil] at hfind
      exact List.mem_map.mpr ⟨row, List.mem_of_find?_eq_some hfind, by simpa using List.find?_some hfind⟩
    have hle := (hnodup.subperm hsubset).length_le
    rw [List.length_map, List.length_map] at hle
    exact hle.trans hlength

/-- A table of at most 1000 rows without case variants, without an empty tick and without one that reads as a
    reference: the caches of the process never show. -/
theorem process_right (hkey : Function.Injective r.cacheKey)
    (hLOWER : ∀ row ∈ r.db.tickers.rows, r.LOWER row.tick = r.toLowerCase row.tick)
    (hdistinct : (r.db.tickers.rows.map fun row => r.toLowerCase row.tick).Nodup)
    (hnil : ∀ row ∈ r.db.tickers.rows, r.toLowerCase row.tick ≠ r.toLowerCase [])
    (hreferences : ∀ row ∈ r.db.tickers.rows, referencedId row.tick = none) (hlength : r.db.tickers.rows.length ≤ 1000)
    (calls : List Call) (tick : Text) : IdRight r 1000 tick (r.getTickId tick (run r 1000 calls)).1 ∧
      NameRight r 1000 tick (r.getCanonicalTick tick (run r 1000 calls)).1 := by
  rw [getTickId_eq, getCanonicalTick_eq]
  have hsettled := settled_of_distinct hLOWER hdistinct hnil hreferences hlength
  exact historyFree_of_settled hkey hsettled calls (fun _ _ => trivial) tick trivial

/-- The key of a coin in one reorg generation. -/
def cacheKey (coin : Text) (reorgGen : ℕ) (name : Text) : Text :=
  coin ++ ':' :: ((toString reorgGen).toList ++ ':' :: name)

theorem cacheKey_injective (coin : Text) (reorgGen : ℕ) : Function.Injective (cacheKey coin reorgGen) := by
  intro name other h
  simpa [cacheKey] using h

/-- The reader while the generation of the coin stands. -/
def inGeneration (r : Reader) (coin : Text) (reorgGen : ℕ) : Reader := { r with cacheKey := cacheKey coin reorgGen }

/-- A reader of a table that has no links. -/
def readerOf (tickers : Tickers) : Reader where
  db :=
    { tickers, links := [], ordered := List.Pairwise.nil, issues := fun _ => none
      lists := { rows := [], unique := List.nodup_nil }, listType := fun _ => none, list_items := [], tokens := [] }
  chain := "BTC".toList
  toLowerCase := List.map Char.toLower
  LOWER := List.map Char.toLower
  cacheKey := fun name => "BTC:0:".toList ++ name

/-- One name in two cases. -/
def twoCases : Reader := readerOf ⟨[⟨1, "FOO".toList, some 5⟩, ⟨2, "foo".toList, some 6⟩], by decide, by decide⟩

/-- Three names. -/
def threeNames : Reader :=
  readerOf ⟨[⟨2, "BAR".toList, some 5⟩, ⟨3, "BAZ".toList, some 6⟩, ⟨1, "FOO".toList, some 5⟩], by decide, by decide⟩

end TickNames
