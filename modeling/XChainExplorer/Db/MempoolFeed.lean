import Mathlib.Data.List.Sort
import XChainExplorer.Lib.JsNumber
import XChainExplorer.Lib.Page

/-! # The decoder mempool feed

    The window of unconfirmed actions that a poll reads: the action-carrying rows of the decoder's
    mempool in the order of their hashes, cut at a cap. It comes from the decoder DB or from a
    configured decoder endpoint, and is null when neither gave a window that can be trusted. -/

namespace DecoderMempool

/-- A row of `mempool_transactions` as a read hands it over. -/
structure MempoolRow where
  tx_hash : String
  source : Option String
  data : Option String
  first_seen : Option ℤ
  deriving DecidableEq, Repr

/-- A row whose action string was split. -/
structure DecodedRow where
  tx_hash : Option String
  source : Option String
  action : String
  data : String
  first_seen : Option ℤ
  deriving DecidableEq, Repr

/-- `value || null` for a text, of which the empty one is falsy. -/
def orNull (value : Option String) : Option String := value.filter (· ≠ "")

/-- `/^[A-Z_]{2,32}$/`. -/
def isActionName (action : String) : Bool :=
  decide (2 ≤ action.toList.length ∧ action.toList.length ≤ 32) &&
    action.toList.all fun c => c.isUpper || c = '_'

section decode
-- JavaScript's `toUpperCase`
variable (toUpperCase : String → String)

/-- Splits the action string of a row; null on garbage. -/
def decodeMempoolRow (row : MempoolRow) : Option DecodedRow :=
  match orNull row.data with
  | none => none
  | some text =>
    let segment := text.toList.takeWhile (· ≠ '|')
    let action := toUpperCase (String.ofList (JsNumber.trim segment))
    if isActionName action then
      some { tx_hash := orNull (some row.tx_hash), source := orNull row.source, action := action,
             data := text, first_seen := row.first_seen }
    else none

theorem decodeMempoolRow_tx_hash {row : MempoolRow} {decoded : DecodedRow}
    (h : decodeMempoolRow toUpperCase row = some decoded) : decoded.tx_hash = orNull (some row.tx_hash) := by
  unfold decodeMempoolRow at h
  split at h
  · exact absurd h (by simp)
  · dsimp only at h
    split at h
    · rw [← Option.some.inj h]
    · exact absurd h (by simp)

end decode

section feed
-- a hash in lower case, in the order strings are compared by
variable {κ : Type*} [LinearOrder κ] (lower : String → κ)

/-- A mempool whose hashes are unique, in the order of its lowercased hashes. -/
structure Mempool where
  rows : List MempoolRow
  ordered : rows.Pairwise (lower ·.tx_hash < lower ·.tx_hash)

/-- The rows of the feed. -/
def MEMPOOL_WINDOW : ℕ := 500

variable {lower}

/-- The window onto a mempool. -/
def Mempool.window (m : Mempool lower) : List MempoolRow := m.rows.take MEMPOOL_WINDOW

/-- The pool holds a transaction. -/
def Mempool.Holds (m : Mempool lower) (hash : String) : Prop := ∃ row ∈ m.rows, row.tx_hash = hash

variable (lower)

/-- The row carries data. -/
def carriesAction (row : MempoolRow) : Bool := (orNull row.data).isSome

/-- A decoder endpoint's last reply. -/
structure Snapshot where
  rows : List MempoolRow
  read_ok_at : Option ℕ

/-- What the feed can be read from. -/
structure Decoder where
  /-- a decoder DB is configured under a name that is safe to quote -/
  decoderDb : Bool
  /-- `mempool_transactions`, none when its read fails -/
  mempool_transactions : Option (List MempoolRow)
  decoderMempoolUrl : Bool
  malformed : Bool
  snapshot : Option Snapshot
  okAt : Option ℕ
  ttl : ℕ
  now : ℕ

/-- The rows that are asked for. -/
def mempoolWindow (limit : ℕ) : ℕ := max 1 (min (if limit = 0 then 200 else limit) 500)

/-- `ORDER BY tx_hash LIMIT max` over the action-carrying rows, none when the read throws. -/
def queryDecoderMempoolRows (d : Decoder) (limit : ℕ) : Option (List MempoolRow) :=
  if d.decoderDb then
    d.mempool_transactions.map fun table =>
      ((table.filter carriesAction).insertionSort (lower ·.tx_hash ≤ lower ·.tx_hash)).take limit
  else some []

/-- The read behind the feed, null for a read that failed. -/
def getDecoderMempoolRows (d : Decoder) (limit : ℕ) : Option (List MempoolRow) :=
  match d.snapshot with
  | some snap => some (snap.rows.take (mempoolWindow limit))
  | none =>
    if d.decoderMempoolUrl && !d.malformed then none
    else queryDecoderMempoolRows lower d (mempoolWindow limit)

/-- The feed, from the service where there is one. -/
def getDecoderMempoolFeed (d : Decoder) (limit : ℕ) : Option (List MempoolRow) :=
  if !d.decoderMempoolUrl || d.malformed then getDecoderMempoolRows lower d limit
  else
    match d.snapshot with
    | none => none
    | some snap =>
      match (snap.read_ok_at.filter (0 < ·)).or (d.okAt.filter (0 < ·)) with
      | none => none
      | some okAt => if 2 * d.ttl ≤ d.now - okAt then none else some (snap.rows.take (mempoolWindow limit))

/-- The mempool that a table with unique hashes holds. -/
def Mempool.ofTable (table : List MempoolRow)
    (huniq : (table.filter carriesAction).Pairwise (lower ·.tx_hash ≠ lower ·.tx_hash)) : Mempool lower where
  rows := (table.filter carriesAction).insertionSort (lower ·.tx_hash ≤ lower ·.tx_hash)
  ordered := by
    have hle := List.pairwise_insertionSort (fun a b : MempoolRow => lower a.tx_hash ≤ lower b.tx_hash)
      (table.filter carriesAction)
    have hne := ((List.perm_insertionSort (fun a b : MempoolRow => lower a.tx_hash ≤ lower b.tx_hash)
      (table.filter carriesAction)).pairwise_iff fun h => Ne.symm h).mpr huniq
    exact (hle.and hne).imp fun h => lt_of_le_of_ne h.1 h.2

/-- Every feed is a window onto a mempool, or null, where the table's hashes are unique and an endpoint
    replies in the order of the hashes. -/
theorem getDecoderMempoolFeed_window (d : Decoder)
    (htable : ∀ table ∈ d.mempool_transactions, (table.filter carriesAction).Pairwise (lower ·.tx_hash ≠ lower ·.tx_hash))
    (hsnapshot : ∀ snap ∈ d.snapshot, snap.rows.Pairwise (lower ·.tx_hash < lower ·.tx_hash)) :
    getDecoderMempoolFeed lower d MEMPOOL_WINDOW = none ∨
      ∃ m : Mempool lower, getDecoderMempoolFeed lower d MEMPOOL_WINDOW = some m.window := by
  have hwindow : mempoolWindow MEMPOOL_WINDOW = MEMPOOL_WINDOW := by decide
  have hreply : ∀ snap ∈ d.snapshot, ∃ m : Mempool lower, some (snap.rows.take MEMPOOL_WINDOW) = some m.window :=
    fun snap hsnap => ⟨⟨snap.rows, hsnapshot snap hsnap⟩, rfl⟩
  have hquery : queryDecoderMempoolRows lower d MEMPOOL_WINDOW = none ∨
      ∃ m : Mempool lower, queryDecoderMempoolRows lower d MEMPOOL_WINDOW = some m.window := by
    rw [queryDecoderMempoolRows]
    split_ifs
    · cases hread : d.mempool_transactions with
      | none => exact .inl rfl
      | some table => exact .inr ⟨Mempool.ofTable lower table (htable table hread), rfl⟩
    · exact .inr ⟨⟨[], .nil⟩, rfl⟩
  have hrows : getDecoderMempoolRows lower d MEMPOOL_WINDOW = none ∨
      ∃ m : Mempool lower, getDecoderMempoolRows lower d MEMPOOL_WINDOW = some m.window := by
    rw [getDecoderMempoolRows, hwindow]
    cases hsnap : d.snapshot with
    | some snap => exact .inr (hreply snap hsnap)
    | none =>
      dsimp only
      split_ifs
      · exact .inl rfl
      · exact hquery
  rw [getDecoderMempoolFeed, hwindow]
  split_ifs
  · exact hrows
  · cases hsnap : d.snapshot with
    | none => exact .inl rfl
    | some snap =>
      dsimp only
      split
      · exact .inl rfl
      · split_ifs
        · exact .inl rfl
        · exact .inr (hreply snap hsnap)

variable {lower} {m : Mempool lower} {hash : String}

theorem Mempool.window_ordered (m : Mempool lower) :
    m.window.Pairwise (lower ·.tx_hash < lower ·.tx_hash) :=
  m.ordered.sublist (List.take_sublist _ _)

/-- A hash is named by one row. -/
theorem Mempool.row_unique {row row' : MempoolRow} (hrow : row ∈ m.window) (hrow' : row' ∈ m.window)
    (hhash : row.tx_hash = row'.tx_hash) : row = row' :=
  Page.eq_of_key_eq m.window_ordered hrow hrow' (congrArg lower hhash)

/-- A hash that the window left out lies above every hash in it, and then the window is full. -/
theorem Mempool.holds_cases (h : m.Holds hash) :
    (∃ row ∈ m.window, row.tx_hash = hash) ∨
      m.window.length = MEMPOOL_WINDOW ∧ ∀ row ∈ m.window, lower row.tx_hash < lower hash := by
  obtain ⟨row, hrow, rfl⟩ := h
  rw [← List.take_append_drop MEMPOOL_WINDOW m.rows] at hrow
  rcases List.mem_append.mp hrow with hin | hout
  · exact Or.inl ⟨row, hin, rfl⟩
  · have hsep := List.pairwise_append.mp ((List.take_append_drop MEMPOOL_WINDOW m.rows).symm ▸ m.ordered)
    have hlen : MEMPOOL_WINDOW < m.rows.length := by
      have := List.length_pos_of_mem hout
      rw [List.length_drop] at this
      omega
    refine Or.inr ⟨by rw [Mempool.window, List.length_take]; omega, ?_⟩
    intro row' hrow'
    exact hsep.2.2 row' hrow' row hout

end feed

end DecoderMempool
