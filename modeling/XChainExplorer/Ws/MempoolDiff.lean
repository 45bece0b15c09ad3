import Mathlib.Data.List.AList
import Mathlib.Data.String.Basic
import XChainExplorer.Db.MempoolFeed

/-! # The mempool diff

    Each poll diffs the window it read against the hashes it remembers: a new row emits
    `mempool_action`, a remembered hash that the window proves gone emits `mempool_removed`. A full
    window proves nothing above its largest hash, so what lies there is carried forward. -/

namespace ChangeDetector
open DecoderMempool

/-- What a removal frame needs of a row that is gone by then. -/
structure Parties where
  source : Option String
  action : Option String
  data : Option String
  deriving DecidableEq, Repr

/-- What is said of a transaction that left. -/
structure RemovedRow where
  tx_hash : String
  source : Option String
  action : Option String
  data : Option String
  deriving DecidableEq, Repr

/-- What the detector emits. -/
inductive MempoolEmit where
  | mempool_action (decoded : DecodedRow)
  | mempool_removed (removed : RemovedRow)
  deriving DecidableEq, Repr

/-- A `Map` from hashes, newest key first. -/
abbrev SeenHashes := AList fun _ : String => Parties

/-- The hashes that were seen, and whether the first pool was read. -/
structure MempoolState where
  seenHashes : SeenHashes
  initialized : Bool

/-- Nothing is seen yet. -/
def MempoolState.start : MempoolState := ⟨∅, false⟩

variable {κ : Type*} [LinearOrder κ] (lower : String → κ) (toUpperCase : String → String)

/-- One window walked into the map that the next poll diffs against. -/
structure IndexedRows (κ : Type*) where
  current : SeenHashes
  decodedNew : List DecodedRow
  maxHash : Option κ

/-- One row of the pool: new or seen, and the greatest hash so far. -/
def indexRow (state : MempoolState) (acc : IndexedRows κ) (row : MempoolRow) : IndexedRows κ :=
  if row.tx_hash = "" then acc
  else
    let key := lower row.tx_hash
    let maxHash := match acc.maxHash with
      | none => key
      | some maxHash => if maxHash < key then key else maxHash
    match state.seenHashes.lookup row.tx_hash with
    | some known => { acc with current := acc.current.insert row.tx_hash known, maxHash := some maxHash }
    | none =>
      let decoded := decodeMempoolRow toUpperCase row
      { current := acc.current.insert row.tx_hash
          { source := ((decoded.bind (·.source)).or (orNull row.source))
            action := decoded.map (·.action)
            data := decoded.map (·.data) }
        decodedNew := acc.decodedNew ++ decoded.toList
        maxHash := some maxHash }

/-- The rows of a pool. -/
def indexMempoolRows (state : MempoolState) (rows : List MempoolRow) : IndexedRows κ :=
  rows.foldl (indexRow lower toUpperCase state) ⟨∅, [], none⟩

/-- Whether a hash lies out of the range that a window covers. -/
def beyond (covered : Option κ) (hash : String) : Bool :=
  covered.any fun covered => covered < lower hash

/-- The event of a hash that is gone. -/
def removal (seen : Sigma fun _ : String => Parties) : MempoolEmit :=
  .mempool_removed { tx_hash := seen.1, source := orNull seen.2.source, action := orNull seen.2.action,
                     data := orNull seen.2.data }

/-- One remembered hash against the window: held, carried forward, or removed. -/
def sweepHash (covered : Option κ) (acc : SeenHashes × List MempoolEmit) (seen : Sigma fun _ : String => Parties) :
    SeenHashes × List MempoolEmit :=
  if seen.1 ∈ acc.1 then acc
  else if beyond lower covered seen.1 then (acc.1.insert seen.1 seen.2, acc.2)
  else (acc.1, acc.2 ++ [removal seen])

/-- One poll, over the rows it read or null for no window. -/
def checkMempoolForCoin (state : MempoolState) (rows : Option (List MempoolRow)) :
    MempoolState × List MempoolEmit :=
  match rows with
  | none => (state, [])
  | some rows =>
    let indexed := indexMempoolRows lower toUpperCase state rows
    let covered := if MEMPOOL_WINDOW ≤ rows.length then indexed.maxHash else none
    -- the first poll seeds without emitting
    if state.initialized = false then (⟨indexed.current, true⟩, [])
    else
      let swept := state.seenHashes.entries.reverse.foldl (sweepHash lower covered) (indexed.current, [])
      (⟨swept.1, true⟩, indexed.decodedNew.map .mempool_action ++ swept.2)

/-- The hash that an event removes. -/
def removedHash : MempoolEmit → Option String
  | .mempool_action _ => none
  | .mempool_removed removed => some removed.tx_hash

/-- The row that an event announces. -/
def announced : MempoolEmit → Option DecodedRow
  | .mempool_action decoded => some decoded
  | .mempool_removed _ => none

/-! ### The walk over a window -/

/-- The rows of a window that were not remembered. -/
def newRows (state : MempoolState) (rows : List MempoolRow) : List MempoolRow :=
  rows.filter fun row => decide (row.tx_hash ≠ "" ∧ row.tx_hash ∉ state.seenHashes)

variable {lower toUpperCase} {state : MempoolState} {rows : List MempoolRow} {row : MempoolRow} {hash : String}

theorem indexMempoolRows_concat :
    indexMempoolRows lower toUpperCase state (rows ++ [row]) =
      indexRow lower toUpperCase state (indexMempoolRows lower toUpperCase state rows) row := by
  rw [indexMempoolRows, List.foldl_append, List.foldl_cons, List.foldl_nil, indexMempoolRows]

theorem indexRow_unnamed {acc : IndexedRows κ} (h : row.tx_hash = "") :
    indexRow lower toUpperCase state acc row = acc := by
  simp [indexRow, h]

theorem mem_indexRow {acc : IndexedRows κ} (h : row.tx_hash ≠ "") :
    hash ∈ (indexRow lower toUpperCase state acc row).current ↔ hash = row.tx_hash ∨ hash ∈ acc.current := by
  rw [indexRow, if_neg h]
  cases state.seenHashes.lookup row.tx_hash <;> simp [AList.mem_insert]

theorem mem_current :
    hash ∈ (indexMempoolRows lower toUpperCase state rows).current ↔
      ∃ row ∈ rows, row.tx_hash = hash ∧ hash ≠ "" := by
  induction rows using List.reverseRecOn with
  | nil => simp [indexMempoolRows]
  | append_singleton rows row ih =>
    rw [indexMempoolRows_concat]
    by_cases hrow : row.tx_hash = ""
    · rw [indexRow_unnamed hrow, ih]
      constructor
      · rintro ⟨r, hr, h⟩
        exact ⟨r, List.mem_append_left _ hr, h⟩
      · rintro ⟨r, hr, rfl, hne⟩
        rcases List.mem_append.mp hr with hr | hr
        · exact ⟨r, hr, rfl, hne⟩
        · rw [List.mem_singleton.mp hr] at hne
          exact absurd hrow hne
    · rw [mem_indexRow hrow, ih]
      constructor
      · rintro (rfl | ⟨r, hr, h⟩)
        · exact ⟨row, by simp, rfl, hrow⟩
        · exact ⟨r, List.mem_append_left _ hr, h⟩
      · rintro ⟨r, hr, rfl, hne⟩
        rcases List.mem_append.mp hr with hr | hr
        · exact Or.inr ⟨r, hr, rfl, hne⟩
        · exact Or.inl (congrArg _ (List.mem_singleton.mp hr))

/-- What is decoded for an announcement are the new rows, in window order. -/
theorem decodedNew_eq :
    (indexMempoolRows lower toUpperCase state rows).decodedNew =
      (newRows state rows).filterMap (decodeMempoolRow toUpperCase) := by
  induction rows using List.reverseRecOn with
  | nil => rfl
  | append_singleton rows row ih =>
    rw [indexMempoolRows_concat, newRows, List.filter_append, List.filterMap_append, ← newRows, ← ih]
    by_cases hrow : row.tx_hash = ""
    · simp [indexRow_unnamed hrow, hrow]
    · by_cases hseen : row.tx_hash ∈ state.seenHashes
      · obtain ⟨known, hknown⟩ := Option.isSome_iff_exists.mp (AList.lookup_isSome.mpr hseen)
        simp [indexRow, hrow, hseen, hknown]
      · have hknown := AList.lookup_eq_none.mpr hseen
        cases hdec : decodeMempoolRow toUpperCase row <;> simp [indexRow, hrow, hseen, hknown, hdec]

theorem maxHash_indexRow {acc : IndexedRows κ} (h : row.tx_hash ≠ "") :
    (indexRow lower toUpperCase state acc row).maxHash = some (match acc.maxHash with
      | none => lower row.tx_hash
      | some maxHash => if maxHash < lower row.tx_hash then lower row.tx_hash else maxHash) := by
  rw [indexRow, if_neg h]
  cases state.seenHashes.lookup row.tx_hash <;> rfl

/-- The largest hash of a window belongs to a row of it. -/
theorem maxHash_mem {k : κ} (h : (indexMempoolRows lower toUpperCase state rows).maxHash = some k) :
    ∃ row ∈ rows, k = lower row.tx_hash := by
  induction rows using List.reverseRecOn generalizing k with
  | nil => simp [indexMempoolRows] at h
  | append_singleton rows row ih =>
    rw [indexMempoolRows_concat] at h
    by_cases hrow : row.tx_hash = ""
    · rw [indexRow_unnamed hrow] at h
      obtain ⟨r, hr, hk⟩ := ih h
      exact ⟨r, List.mem_append_left _ hr, hk⟩
    · rw [maxHash_indexRow hrow] at h
      split at h
      · exact ⟨row, by simp, (Option.some.inj h).symm⟩
      · rename_i maxHash hmax
        split at h
        · exact ⟨row, by simp, (Option.some.inj h).symm⟩
        · obtain ⟨r, hr, hk⟩ := ih (hmax.trans h)
          exact ⟨r, List.mem_append_left _ hr, hk⟩

variable (lower toUpperCase) in
theorem maxHash_isSome (hrow : row ∈ rows) (hname : row.tx_hash ≠ "") :
    ((indexMempoolRows lower toUpperCase state rows).maxHash).isSome := by
  induction rows using List.reverseRecOn with
  | nil => simp at hrow
  | append_singleton rows r ih =>
    rw [indexMempoolRows_concat]
    by_cases hr : r.tx_hash = ""
    · rw [indexRow_unnamed hr]
      rcases List.mem_append.mp hrow with hrow | hrow
      · exact ih hrow
      · exact absurd (List.mem_singleton.mp hrow ▸ hr) hname
    · rw [maxHash_indexRow hr]
      rfl

/-! ### The sweep over what was remembered -/

variable (lower) in
theorem sweep_eq {covered : Option κ} {seen : List (Sigma fun _ : String => Parties)}
    (hnodup : (seen.map (·.1)).Nodup) (next : SeenHashes) (emits : List MempoolEmit) :
    let swept := seen.foldl (sweepHash lower covered) (next, emits)
    swept.2 = emits ++ (seen.filter fun e => decide (e.1 ∉ next) && !beyond lower covered e.1).map removal ∧
    ∀ hash, hash ∈ swept.1 ↔
      hash ∈ next ∨ hash ∈ seen.map (·.1) ∧ beyond lower covered hash = true := by
  induction seen generalizing next emits with
  | nil => simp
  | cons e seen ih =>
    obtain ⟨hnot, hnodup⟩ := List.nodup_cons.mp hnodup
    rw [List.foldl_cons]
    by_cases hin : e.1 ∈ next
    · have hstep : sweepHash lower covered (next, emits) e = (next, emits) := if_pos hin
      obtain ⟨hemits, hmem⟩ := ih hnodup next emits
      rw [hstep]
      refine ⟨by simp [hemits, hin], fun hash => ?_⟩
      rw [hmem hash, List.map_cons, List.mem_cons]
      constructor
      · tauto
      · rintro (h | ⟨rfl | h, hb⟩)
        · exact Or.inl h
        · exact Or.inl hin
        · exact Or.inr ⟨h, hb⟩
    · by_cases hbeyond : beyond lower covered e.1 = true
      · have hstep : sweepHash lower covered (next, emits) e = (next.insert e.1 e.2, emits) := by
          rw [sweepHash, if_neg hin, if_pos hbeyond]
        obtain ⟨hemits, hmem⟩ := ih hnodup (next.insert e.1 e.2) emits
        rw [hstep]
        refine ⟨?_, fun hash => ?_⟩
        · -- the hash carried forward is not named again further down the walk
          have hsame : (seen.filter fun x => decide (x.1 ∉ next.insert e.1 e.2) && !beyond lower covered x.1) =
              seen.filter fun x => decide (x.1 ∉ next) && !beyond lower covered x.1 := by
            refine List.filter_congr fun x hx => ?_
            have hne : x.1 ≠ e.1 := by
              intro heq
              exact hnot (List.mem_map.mpr ⟨x, hx, heq⟩)
            simp [AList.mem_insert, hne]
          rw [hemits, hsame, List.filter_cons_of_neg (by simp [hbeyond])]
        · rw [hmem hash, AList.mem_insert, List.map_cons, List.mem_cons]
          constructor
          · rintro ((rfl | h) | ⟨h, hb⟩)
            · exact Or.inr ⟨Or.inl rfl, hbeyond⟩
            · exact Or.inl h
            · exact Or.inr ⟨Or.inr h, hb⟩
          · tauto
      · have hstep : sweepHash lower covered (next, emits) e = (next, emits ++ [removal e]) := by
          rw [sweepHash, if_neg hin, if_neg hbeyond]
        obtain ⟨hemits, hmem⟩ := ih hnodup next (emits ++ [removal e])
        rw [hstep]
        refine ⟨?_, fun hash => ?_⟩
        · rw [hemits, List.filter_cons_of_pos (by simp [hin, hbeyond]), List.map_cons, List.append_assoc]
          rfl
        · rw [hmem hash, List.map_cons, List.mem_cons]
          constructor
          · tauto
          · rintro (h | ⟨rfl | h, hb⟩)
            · exact Or.inl h
            · exact absurd hb hbeyond
            · exact Or.inr ⟨h, hb⟩

/-! ### One poll -/

/-- The range that a window covers: everything, or up to its largest hash when it is full. -/
def coveredBy (lower : String → κ) (toUpperCase : String → String) (state : MempoolState)
    (rows : List MempoolRow) : Option κ :=
  if MEMPOOL_WINDOW ≤ rows.length then (indexMempoolRows lower toUpperCase state rows).maxHash else none

/-- A state that was not seeded remembers nothing. -/
def Seeded (state : MempoolState) : Prop := state.initialized = false → state.seenHashes = ∅

/-- The remembered hashes that a window has removed. -/
def goneHashes (lower : String → κ) (toUpperCase : String → String) (state : MempoolState)
    (rows : List MempoolRow) : List String :=
  state.seenHashes.keys.reverse.filter fun hash =>
    decide (hash ∉ (indexMempoolRows lower toUpperCase state rows).current) &&
      !beyond lower (coveredBy lower toUpperCase state rows) hash

variable (lower toUpperCase) in
theorem sweep_state (state : MempoolState) (rows : List MempoolRow) :
    let swept := state.seenHashes.entries.reverse.foldl
      (sweepHash lower (coveredBy lower toUpperCase state rows))
      ((indexMempoolRows lower toUpperCase state rows).current, [])
    swept.2.filterMap removedHash = goneHashes lower toUpperCase state rows ∧
    swept.2.filterMap announced = [] ∧
    ∀ hash, hash ∈ swept.1 ↔
      hash ∈ (indexMempoolRows lower toUpperCase state rows).current ∨
        hash ∈ state.seenHashes ∧ beyond lower (coveredBy lower toUpperCase state rows) hash = true := by
  have hnodup : (state.seenHashes.entries.reverse.map (·.1)).Nodup := by
    rw [List.map_reverse, List.nodup_reverse]
    exact state.seenHashes.nodupKeys
  obtain ⟨hemits, hmem⟩ := sweep_eq lower hnodup
    (indexMempoolRows lower toUpperCase state rows).current []
  refine ⟨?_, ?_, fun hash => ?_⟩
  · rw [hemits, List.nil_append, List.filterMap_map, goneHashes, AList.keys, List.keys, ← List.map_reverse,
      List.filter_map]
    exact congrFun (List.filterMap_eq_map ) _
  · rw [hemits, List.nil_append, List.filterMap_map]
    exact List.filterMap_eq_nil_iff.mpr fun _ _ => rfl
  · rw [hmem hash, List.map_reverse, List.mem_reverse]
    rfl

theorem announced_actions (decoded : List DecodedRow) :
    (decoded.map MempoolEmit.mempool_action).filterMap announced = decoded ∧
      (decoded.map MempoolEmit.mempool_action).filterMap removedHash = [] := by
  simp [List.filterMap_map, Function.comp_def, announced, removedHash]

variable (lower toUpperCase rows) in
/-- One poll over a window. -/
theorem check_spec (hs : Seeded state) :
    let out := checkMempoolForCoin lower toUpperCase state (some rows)
    out.2.filterMap removedHash = goneHashes lower toUpperCase state rows ∧
    out.2.filterMap announced =
      (if state.initialized then (newRows state rows).filterMap (decodeMempoolRow toUpperCase) else []) ∧
    out.1.initialized = true ∧
    ∀ hash, hash ∈ out.1.seenHashes ↔
      hash ∈ (indexMempoolRows lower toUpperCase state rows).current ∨
        hash ∈ state.seenHashes ∧ beyond lower (coveredBy lower toUpperCase state rows) hash = true := by
  by_cases hinit : state.initialized = false
  · have hempty := hs hinit
    have hout : checkMempoolForCoin lower toUpperCase state (some rows) =
        (⟨(indexMempoolRows lower toUpperCase state rows).current, true⟩, []) := if_pos hinit
    rw [hout]
    refine ⟨by simp [goneHashes, hempty], by simp [hinit], rfl, fun hash => by simp [hempty]⟩
  · have hout : checkMempoolForCoin lower toUpperCase state (some rows) =
        (⟨(state.seenHashes.entries.reverse.foldl (sweepHash lower (coveredBy lower toUpperCase state rows))
            ((indexMempoolRows lower toUpperCase state rows).current, [])).1, true⟩,
          (indexMempoolRows lower toUpperCase state rows).decodedNew.map .mempool_action ++
            (state.seenHashes.entries.reverse.foldl (sweepHash lower (coveredBy lower toUpperCase state rows))
              ((indexMempoolRows lower toUpperCase state rows).current, [])).2) := if_neg hinit
    obtain ⟨hgone, hquiet, hmem⟩ := sweep_state lower toUpperCase state rows
    obtain ⟨hann, hnot⟩ := announced_actions (indexMempoolRows lower toUpperCase state rows).decodedNew
    rw [hout]
    refine ⟨?_, ?_, rfl, hmem⟩
    · rw [List.filterMap_append, hnot, hgone, List.nil_append]
    · rw [List.filterMap_append, hann, hquiet, List.append_nil, decodedNew_eq]
      simp only [Bool.not_eq_false] at hinit
      simp [hinit]

theorem mem_goneHashes :
    hash ∈ goneHashes lower toUpperCase state rows ↔ hash ∈ state.seenHashes ∧
      hash ∉ (indexMempoolRows lower toUpperCase state rows).current ∧
        beyond lower (coveredBy lower toUpperCase state rows) hash = false := by
  simp [goneHashes, AList.mem_keys]

theorem nodup_goneHashes : (goneHashes lower toUpperCase state rows).Nodup :=
  (List.nodup_reverse.mpr state.seenHashes.keys_nodup).sublist List.filter_sublist

variable (lower toUpperCase state) in
/-- A hash that a mempool holds is in its window, or lies beyond what the window covers. -/
theorem current_or_beyond {m : Mempool lower} (hholds : m.Holds hash) (hname : hash ≠ "") :
    hash ∈ (indexMempoolRows lower toUpperCase state m.window).current ∨
      beyond lower (coveredBy lower toUpperCase state m.window) hash = true := by
  rcases m.holds_cases hholds with ⟨row, hrow, rfl⟩ | ⟨hfull, habove⟩
  · exact Or.inl (mem_current.mpr ⟨row, hrow, rfl, hname⟩)
  · -- two rows have different hashes, so one of them has a hash to cover by
    have hnamed : ∃ row ∈ m.window, row.tx_hash ≠ "" := by
      by_contra hno
      push Not at hno
      have h0 : 0 < m.window.length := by rw [hfull]; decide
      have h1 : 1 < m.window.length := by rw [hfull]; decide
      have hlt := List.pairwise_iff_getElem.mp m.window_ordered 0 1 h0 h1 Nat.zero_lt_one
      rw [hno _ (List.getElem_mem h0), hno _ (List.getElem_mem h1)] at hlt
      exact absurd hlt (lt_irrefl _)
    obtain ⟨row, hrow, hne⟩ := hnamed
    obtain ⟨k, hk⟩ := Option.isSome_iff_exists.mp
      (maxHash_isSome lower toUpperCase hrow hne)
    obtain ⟨top, htop, rfl⟩ := maxHash_mem hk
    right
    rw [coveredBy, if_pos hfull.ge, hk, beyond]
    simpa using habove top htop

/-! ### Runs -/

/-- A poll: the mempool at that moment, and whether a window onto it was read. -/
structure Poll (lower : String → κ) where
  pool : Mempool lower
  answered : Bool

/-- What a poll reads, unless it fails. -/
def Poll.window (p : Poll lower) : Option (List MempoolRow) :=
  if p.answered then some p.pool.window else none

/-- What a decoder's feed hands over is read by some poll. -/
theorem exists_poll (d : Decoder)
    (htable : ∀ table ∈ d.mempool_transactions, (table.filter carriesAction).Pairwise (lower ·.tx_hash ≠ lower ·.tx_hash))
    (hsnapshot : ∀ snap ∈ d.snapshot, snap.rows.Pairwise (lower ·.tx_hash < lower ·.tx_hash)) :
    ∃ p : Poll lower, p.window = getDecoderMempoolFeed lower d MEMPOOL_WINDOW := by
  rcases getDecoderMempoolFeed_window lower d htable hsnapshot with hnull | ⟨m, hfeed⟩
  · exact ⟨⟨⟨[], .nil⟩, false⟩, hnull.symm⟩
  · exact ⟨⟨m, true⟩, hfeed.symm⟩

/-- A change of what is known of the mempool. -/
inductive Change where
  | added (hash : String)
  | removed (hash : String)
  deriving DecidableEq, Repr

/-- What is added without an event: the named rows of the seed, later the new rows that do not decode. -/
def silentHashes (toUpperCase : String → String) (seed : Bool) (state : MempoolState) (rows : List MempoolRow) :
    List String :=
  if seed then (rows.filter (·.tx_hash ≠ "")).map (·.tx_hash)
  else ((newRows state rows).filter fun row => (decodeMempoolRow toUpperCase row).isNone).map (·.tx_hash)

/-- The hashes that the emitted `mempool_action` events name. -/
def actionHashes (emits : List MempoolEmit) : List String := (emits.filterMap announced).filterMap (·.tx_hash)

/-- What a poll changes: each `mempool_action` it emits adds, as does what is added silently, and each
    `mempool_removed` it emits removes. -/
def changes (lower : String → κ) (toUpperCase : String → String) (seed : Bool) (state : MempoolState)
    (rows : Option (List MempoolRow)) : List Change :=
  let emits := (checkMempoolForCoin lower toUpperCase state rows).2
  (actionHashes emits ++ silentHashes toUpperCase seed state (rows.getD [])).map .added ++
    (emits.filterMap removedHash).map .removed

/-- The changes of one hash, true for an addition. -/
def turn (hash : String) : Change → Option Bool
  | .added h => if h = hash then some true else none
  | .removed h => if h = hash then some false else none

/-- Additions and removals take turns; `b` is the kind that comes first. -/
def Alternates : Bool → List Bool → Prop
  | _, [] => True
  | b, x :: xs => x = b ∧ Alternates (!b) xs

/-- The state after some polls. -/
def stateAfter (lower : String → κ) (toUpperCase : String → String) (state : MempoolState)
    (polls : List (Poll lower)) : MempoolState :=
  polls.foldl (fun s p => (checkMempoolForCoin lower toUpperCase s p.window).1) state

/-- The changes of a run; the first poll that is answered is the seed. -/
def history (lower : String → κ) (toUpperCase : String → String) :
    Bool → MempoolState → List (Poll lower) → List Change
  | _, _, [] => []
  | seed, s, p :: ps => changes lower toUpperCase seed s p.window ++
      history lower toUpperCase (seed && !p.answered) (checkMempoolForCoin lower toUpperCase s p.window).1 ps

/-- A hash is among those seen. -/
def held (state : MempoolState) (hash : String) : Bool := decide (hash ∈ state.seenHashes)

variable {p : Poll lower} {polls : List (Poll lower)}

/-- In a list without duplicates a hash has one turn. -/
theorem turns_of_nodup {hashes : List String} {b : Bool} (h : hashes.Nodup) :
    (hashes.filterMap fun x => if x = hash then some b else none) = if hash ∈ hashes then [b] else [] := by
  induction hashes with
  | nil => rfl
  | cons x xs ih =>
    obtain ⟨hx, hxs⟩ := List.nodup_cons.mp h
    by_cases hxh : x = hash
    · subst hxh
      simp [ih hxs, hx]
    · simp [ih hxs, hxh, Ne.symm hxh]

variable (lower toUpperCase) in
theorem Seeded.check (hs : Seeded state) (rows : Option (List MempoolRow)) :
    Seeded (checkMempoolForCoin lower toUpperCase state rows).1 := by
  cases rows with
  | none => exact hs
  | some rows =>
    intro hinit
    rw [(check_spec _ _ _ hs).2.2.1] at hinit
    exact absurd hinit (by decide)

theorem nodup_newRows (m : Mempool lower) : ((newRows state m.window).map (·.tx_hash)).Nodup := by
  refine List.pairwise_map.mpr ((m.window_ordered.filter _).imp ?_)
  intro a b hab heq
  exact absurd (congrArg lower heq) hab.ne

theorem initialized_check (p : Poll lower) (hs : Seeded state) :
    (checkMempoolForCoin lower toUpperCase state p.window).1.initialized = (state.initialized || p.answered) := by
  by_cases hp : p.answered = true
  · have hw : p.window = some p.pool.window := if_pos hp
    rw [hw, (check_spec _ _ _ hs).2.2.1, hp, Bool.or_true]
  · have hw : p.window = none := if_neg hp
    rw [hw, Bool.eq_false_iff.mpr hp, Bool.or_false]
    rfl

theorem actionHashes_decoded {rows : List MempoolRow} (h : ∀ row ∈ rows, row.tx_hash ≠ "") :
    (rows.filterMap (decodeMempoolRow toUpperCase)).filterMap (·.tx_hash) =
      (rows.filter fun row => (decodeMempoolRow toUpperCase row).isSome).map (·.tx_hash) := by
  induction rows with
  | nil => rfl
  | cons row rows ih =>
    obtain ⟨hrow, hrows⟩ := List.forall_mem_cons.mp h
    cases hdec : decodeMempoolRow toUpperCase row with
    | none => simp [hdec, ih hrows]
    | some decoded =>
      have hhash : decoded.tx_hash = some row.tx_hash := by
        rw [decodeMempoolRow_tx_hash _ hdec, orNull, Option.filter_some_pos (by simpa using hrow)]
      simp [hdec, hhash, ih hrows]

variable (lower toUpperCase rows) in
/-- What is announced and what is added silently are together the rows that are new. -/
theorem added_perm (hs : Seeded state) :
    (actionHashes (checkMempoolForCoin lower toUpperCase state (some rows)).2 ++
      silentHashes toUpperCase (!state.initialized) state rows).Perm ((newRows state rows).map (·.tx_hash)) := by
  rw [actionHashes, (check_spec lower toUpperCase rows hs).2.1]
  cases hinit : state.initialized with
  | false =>
    have hempty : newRows state rows = rows.filter (·.tx_hash ≠ "") :=
      List.filter_congr fun row _ => by simp [hs hinit]
    simp [silentHashes, hempty]
  | true =>
    have hnamed : ∀ row ∈ newRows state rows, row.tx_hash ≠ "" := fun row hrow =>
      (of_decide_eq_true (List.mem_filter.mp hrow).2).1
    have hperm := List.filter_append_perm (fun row => (decodeMempoolRow toUpperCase row).isSome) (newRows state rows)
    simp only [if_true, actionHashes_decoded hnamed, silentHashes, Bool.not_true, Bool.false_eq_true, if_false,
      ← List.map_append]
    simpa [Option.not_isSome] using hperm.map (·.tx_hash)

variable (lower toUpperCase) in
theorem mem_hashes_newRows : hash ∈ (newRows state rows).map (·.tx_hash) ↔
    hash ∈ (indexMempoolRows lower toUpperCase state rows).current ∧ hash ∉ state.seenHashes := by
  rw [mem_current]
  constructor
  · intro h
    obtain ⟨row, hrow, rfl⟩ := List.mem_map.mp h
    obtain ⟨hrow, hkeep⟩ := List.mem_filter.mp hrow
    obtain ⟨hne, hfresh⟩ := of_decide_eq_true hkeep
    exact ⟨⟨row, hrow, rfl, hne⟩, hfresh⟩
  · rintro ⟨⟨row, hrow, rfl, hne⟩, hfresh⟩
    exact List.mem_map.mpr ⟨row, List.mem_filter.mpr ⟨hrow, decide_eq_true ⟨hne, hfresh⟩⟩, rfl⟩

theorem turns_added (hs : Seeded state) (m : Mempool lower) :
    ((actionHashes (checkMempoolForCoin lower toUpperCase state (some m.window)).2 ++
      silentHashes toUpperCase (!state.initialized) state m.window).map Change.added).filterMap (turn hash) =
      if hash ∈ (newRows state m.window).map (·.tx_hash) then [true] else [] := by
  have hperm := added_perm lower toUpperCase m.window hs
  rw [List.filterMap_map, ← if_congr hperm.mem_iff rfl rfl,
    ← turns_of_nodup (hperm.nodup_iff.mpr (nodup_newRows m))]
  rfl

theorem turns_removed : ((goneHashes lower toUpperCase state rows).map Change.removed).filterMap (turn hash) =
    if hash ∈ goneHashes lower toUpperCase state rows then [false] else [] := by
  rw [← turns_of_nodup nodup_goneHashes, List.filterMap_map]
  rfl

/-- A poll turns a hash when it changes whether the hash is remembered, and to that side. -/
theorem turns_changes (hs : Seeded state) :
    (changes lower toUpperCase (!state.initialized) state p.window).filterMap (turn hash) =
      if held (checkMempoolForCoin lower toUpperCase state p.window).1 hash = held state hash then []
      else [held (checkMempoolForCoin lower toUpperCase state p.window).1 hash] := by
  by_cases hp : p.answered = true
  · have hw : p.window = some p.pool.window := if_pos hp
    obtain ⟨hgone, -, -, hmem⟩ := check_spec lower toUpperCase p.pool.window hs
    have hturns : (changes lower toUpperCase (!state.initialized) state p.window).filterMap (turn hash) =
        (if hash ∈ (newRows state p.pool.window).map (·.tx_hash) then [true] else []) ++
          if hash ∈ goneHashes lower toUpperCase state p.pool.window then [false] else [] := by
      rw [changes, hw, Option.getD_some, hgone, List.filterMap_append, turns_added hs, turns_removed]
    have hnow : held (checkMempoolForCoin lower toUpperCase state p.window).1 hash =
        decide (hash ∈ (indexMempoolRows lower toUpperCase state p.pool.window).current ∨
          hash ∈ state.seenHashes ∧
            beyond lower (coveredBy lower toUpperCase state p.pool.window) hash = true) := by
      rw [held, hw]
      exact decide_eq_decide.mpr (hmem hash)
    rw [hturns, hnow, held]
    simp only [mem_hashes_newRows lower toUpperCase, mem_goneHashes]
    by_cases hc : hash ∈ (indexMempoolRows lower toUpperCase state p.pool.window).current <;>
      by_cases hseen : hash ∈ state.seenHashes <;>
      cases hb : beyond lower (coveredBy lower toUpperCase state p.pool.window) hash <;>
      simp [hc, hseen]
  · have hw : p.window = none := if_neg hp
    simp [changes, hw, checkMempoolForCoin, actionHashes, silentHashes, newRows]

theorem alternates_history (hs : Seeded state) :
    Alternates (!held state hash)
      ((history lower toUpperCase (!state.initialized) state polls).filterMap (turn hash)) := by
  induction polls generalizing state with
  | nil => trivial
  | cons p polls ih =>
    have hseed : (!state.initialized && !p.answered) =
        !(checkMempoolForCoin lower toUpperCase state p.window).1.initialized := by
      rw [initialized_check p hs, Bool.not_or]
    rw [history, List.filterMap_append, turns_changes hs, hseed]
    have hrest := ih (hs.check lower toUpperCase p.window)
    by_cases hsame : held (checkMempoolForCoin lower toUpperCase state p.window).1 hash = held state hash
    · rw [if_pos hsame, List.nil_append]
      exact hsame ▸ hrest
    · rw [if_neg hsame]
      have hflip : held (checkMempoolForCoin lower toUpperCase state p.window).1 hash = !held state hash := by
        cases h : held state hash <;> simp_all
      exact ⟨hflip, hflip ▸ hrest⟩

theorem initialized_stateAfter (hs : Seeded state) :
    (stateAfter lower toUpperCase state polls).initialized = (state.initialized || polls.any (·.answered)) := by
  induction polls generalizing state with
  | nil => exact (Bool.or_false _).symm
  | cons p polls ih =>
    rw [stateAfter, List.foldl_cons, ← stateAfter, ih (hs.check _ _ p.window), initialized_check p hs, List.any_cons,
      Bool.or_assoc]

theorem seeded_stateAfter (hs : Seeded state) : Seeded (stateAfter lower toUpperCase state polls) := by
  induction polls generalizing state with
  | nil => exact hs
  | cons p polls ih => exact ih (hs.check _ _ p.window)

/-- What a poll does over a state. -/
structure PollSound (toUpperCase : String → String) (state : MempoolState) (p : Poll lower) : Prop where
  /-- what is announced are the rows first remembered, those that decode, once seeded -/
  announces : (checkMempoolForCoin lower toUpperCase state p.window).2.filterMap announced =
    if state.initialized then (newRows state (p.window.getD [])).filterMap (decodeMempoolRow toUpperCase)
    else []
  /-- a removal's window shows in itself that no mempool behind it has the hash -/
  proves : ∀ hash ∈ (checkMempoolForCoin lower toUpperCase state p.window).2.filterMap removedHash,
    p.answered = true ∧ ∀ m : Mempool lower, m.window = p.pool.window → ¬m.Holds hash
  /-- a window that is not full removes everything it does not name -/
  sweeps : p.answered = true → p.pool.window.length < MEMPOOL_WINDOW → ∀ hash ∈ state.seenHashes,
    (∀ row ∈ p.pool.window, row.tx_hash ≠ hash) →
      hash ∈ (checkMempoolForCoin lower toUpperCase state p.window).2.filterMap removedHash

/-- The empty text is no hash, so it is never remembered. -/
theorem named_of_seen (hname : ∀ hash ∈ state.seenHashes, hash ≠ "") (hs : Seeded state) :
    ∀ hash ∈ (checkMempoolForCoin lower toUpperCase state p.window).1.seenHashes, hash ≠ "" := by
  by_cases hp : p.answered = true
  · have hw : p.window = some p.pool.window := if_pos hp
    intro hash hhash
    rw [hw, (check_spec _ _ _ hs).2.2.2 hash] at hhash
    rcases hhash with hcur | ⟨hseen, -⟩
    · obtain ⟨row, -, -, hne⟩ := mem_current.mp hcur
      exact hne
    · exact hname hash hseen
  · have hw : p.window = none := if_neg hp
    rw [hw]
    exact hname

theorem named_stateAfter (hname : ∀ hash ∈ state.seenHashes, hash ≠ "") (hs : Seeded state) :
    ∀ hash ∈ (stateAfter lower toUpperCase state polls).seenHashes, hash ≠ "" := by
  induction polls generalizing state with
  | nil => exact hname
  | cons p polls ih => exact ih (named_of_seen hname hs) (hs.check _ _ p.window)

theorem pollSound (hname : ∀ hash ∈ state.seenHashes, hash ≠ "") (hs : Seeded state) :
    PollSound toUpperCase state p := by
  by_cases hp : p.answered = true
  · have hw : p.window = some p.pool.window := if_pos hp
    obtain ⟨hgone, hann, -, -⟩ := check_spec lower toUpperCase p.pool.window hs
    refine ⟨hw ▸ hann, ?_, ?_⟩
    · rw [hw, hgone]
      intro hash hhash
      obtain ⟨hseen, hnot, hcovered⟩ := mem_goneHashes.mp hhash
      refine ⟨hp, fun m hm hholds => ?_⟩
      rw [← hm] at hnot hcovered
      rcases current_or_beyond lower toUpperCase state hholds (hname hash hseen) with
        hcur | hbeyond
      · exact hnot hcur
      · rw [hbeyond] at hcovered
        exact absurd hcovered (by decide)
    · rw [hw, hgone]
      intro _ hshort hash hseen hnot
      refine mem_goneHashes.mpr ⟨hseen, fun hcur => ?_, ?_⟩
      · obtain ⟨row, hrow, heq, -⟩ := mem_current.mp hcur
        exact hnot row hrow heq
      · rw [coveredBy, if_neg (by omega)]
        rfl
  · have hw : p.window = none := if_neg hp
    refine ⟨by simp [hw, checkMempoolForCoin, newRows], by simp [hw, checkMempoolForCoin], ?_⟩
    intro hans
    exact absurd hans hp

variable (lower toUpperCase) in
/-- A remembered hash that the mempool still holds is neither removed nor forgotten by a poll. -/
theorem kept_of_holds (seed : Bool) (hname : hash ≠ "") (hs : Seeded state) (hseen : hash ∈ state.seenHashes)
    (hholds : p.pool.Holds hash) :
    Change.removed hash ∉ changes lower toUpperCase seed state p.window ∧
      hash ∈ (checkMempoolForCoin lower toUpperCase state p.window).1.seenHashes := by
  by_cases hp : p.answered = true
  · have hw : p.window = some p.pool.window := if_pos hp
    obtain ⟨hgone, -, -, hmem⟩ := check_spec lower toUpperCase p.pool.window hs
    have hor := current_or_beyond lower toUpperCase state hholds hname
    rw [changes, hw, hgone, hmem hash]
    refine ⟨?_, hor.imp_right fun hbeyond => ⟨hseen, hbeyond⟩⟩
    intro hmem
    have hgone : hash ∈ goneHashes lower toUpperCase state p.pool.window := by simpa using hmem
    obtain ⟨-, hnot, hcovered⟩ := mem_goneHashes.mp hgone
    rcases hor with hcur | hbeyond
    · exact hnot hcur
    · rw [hbeyond] at hcovered
      exact absurd hcovered (by decide)
  · have hw : p.window = none := if_neg hp
    rw [changes, hw]
    exact ⟨by simp [checkMempoolForCoin], hseen⟩

variable (lower toUpperCase) in
theorem kept_while_held {mid : List (Poll lower)} (seed : Bool) (hname : ∀ hash ∈ state.seenHashes, hash ≠ "")
    (hs : Seeded state) (hseen : hash ∈ state.seenHashes) (hholds : ∀ p ∈ mid, p.pool.Holds hash) :
    Change.removed hash ∉ history lower toUpperCase seed state mid ∧
      hash ∈ (stateAfter lower toUpperCase state mid).seenHashes := by
  induction mid generalizing seed state with
  | nil => exact ⟨by simp [history], hseen⟩
  | cons p mid ih =>
    obtain ⟨hp, hmid⟩ := List.forall_mem_cons.mp hholds
    obtain ⟨hquiet, hseen⟩ := kept_of_holds lower toUpperCase seed (hname hash hseen) hs hseen hp
    obtain ⟨hrest, hkept⟩ := ih (seed && !p.answered) (named_of_seen hname hs) (hs.check _ _ p.window) hseen hmid
    exact ⟨by rw [history, List.mem_append]; tauto, hkept⟩

theorem seeded_start : Seeded MempoolState.start := fun _ => rfl

theorem named_start : ∀ hash ∈ MempoolState.start.seenHashes, hash ≠ "" := by
  simp [MempoolState.start]

theorem stateAfter_append (before mid : List (Poll lower)) :
    stateAfter lower toUpperCase state (before ++ mid) =
      stateAfter lower toUpperCase (stateAfter lower toUpperCase state before) mid :=
  List.foldl_append

/-- Over every sequence of polls the changes of a hash take turns and begin with an addition, every
    poll is sound, the first one answered is the seed, and a remembered hash stays remembered for as
    long as the mempool holds it. -/
theorem mempool_diff_sound (lower : String → κ) (toUpperCase : String → String) :
    (∀ (polls : List (Poll lower)) (hash : String),
      Alternates true ((history lower toUpperCase true .start polls).filterMap (turn hash))) ∧
    (∀ (before : List (Poll lower)) (p : Poll lower),
      PollSound toUpperCase (stateAfter lower toUpperCase .start before) p) ∧
    (∀ before : List (Poll lower),
      (stateAfter lower toUpperCase .start before).initialized = before.any (·.answered)) ∧
    ∀ (before mid : List (Poll lower)) (hash : String),
      hash ∈ (stateAfter lower toUpperCase .start before).seenHashes → (∀ p ∈ mid, p.pool.Holds hash) →
        Change.removed hash ∉ history lower toUpperCase (!before.any (·.answered))
          (stateAfter lower toUpperCase .start before) mid ∧
        hash ∈ (stateAfter lower toUpperCase .start (before ++ mid)).seenHashes := by
  refine ⟨fun polls hash => ?_, fun before p => ?_, fun before => ?_, fun before mid hash hseen hholds => ?_⟩
  · exact alternates_history seeded_start
  · exact pollSound (named_stateAfter named_start seeded_start) (seeded_stateAfter seeded_start)
  · exact (initialized_stateAfter seeded_start).trans (Bool.false_or _)
  · have hkept := kept_while_held lower toUpperCase (!before.any (·.answered))
      (named_stateAfter named_start seeded_start) (seeded_stateAfter seeded_start) hseen hholds
    rw [stateAfter_append]
    exact hkept

/-- A row whose action string is this text. -/
def rowOf (tx_hash data : String) : MempoolRow := ⟨tx_hash, some "alice", some data, none⟩

/-- The mempool over two hashes, or over the second alone. -/
def poolOf (both : Bool) : Mempool (id : String → String) where
  rows := (if both then [rowOf "aa" "SEND|0|XCP|5|bob"] else []) ++ [rowOf "bb" "7"]
  ordered := by cases both <;> decide

/-- The seed is added without an event, a poll that gets no window changes nothing, and a hash that stays
    is never removed, also when it did not decode. -/
theorem mempool_diff_sound_two :
    history id id true .start [⟨poolOf false, true⟩, ⟨poolOf true, true⟩, ⟨poolOf true, false⟩, ⟨poolOf false, true⟩] =
        [.added "bb", .added "aa", .removed "aa"] ∧
      "bb" ∈ (stateAfter id id .start [⟨poolOf false, true⟩, ⟨poolOf true, true⟩, ⟨poolOf false, true⟩]).seenHashes :=
  ⟨by decide, ((mempool_diff_sound id id).2.2.2 [⟨poolOf false, true⟩] [⟨poolOf true, true⟩, ⟨poolOf false, true⟩] "bb"
    (by decide) (by simp [Mempool.Holds, poolOf, rowOf])).2⟩

end ChangeDetector
