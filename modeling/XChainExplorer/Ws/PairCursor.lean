import Mathlib
import XChainExplorer.Lib.Page
import XChainExplorer.Ws.CoinState

/-! # The `(block, action_index)` cursors

    Bet latches and call resolutions mint no action row, so each has a cursor of its own over the
    height its end-of-block pass stamped. A cursor stands at a height, and while a capped fetch has
    stopped inside a block also at the last index sent from it. -/

namespace ChangeDetector
open Tables

/-- A cursor over rows in `(block, action_index)` order. A null action means that the whole block
    has gone out. -/
structure PairCursor where
  block : ℤ
  action : Option ℤ
  deriving DecidableEq, Repr

/-- The inclusive height a cursor may read up to. A bound of null means the action step could not
    say how far it got, so the read stays inside the block the cursor already holds. -/
def readCeiling (currentBlockIndex since : ℤ) (upToBlock : Option ℤ) : ℤ :=
  match upToBlock with
  | none => since
  | some upToBlock => min currentBlockIndex upToBlock

/-- The highest block whose NEW_BLOCK and every action row have gone out, null when the action step
    sent nothing to measure it by. -/
def deliveredBlock {H : Type*} (prev : Coin H) (currentBlockIndex currentActionIndex : ℤ)
    (lastActionBlock : Option ℤ) : Option ℤ :=
  let blocks := min currentBlockIndex prev.blockIndex
  if currentActionIndex ≤ prev.actionIndex then some blocks
  else lastActionBlock.map fun last => min blocks (last - 1)

/-- Lowers a cursor to `height` for a rewind; a lowered cursor holds the whole block. -/
def lowerPairCursor (prev : PairCursor) (height : ℤ) : PairCursor :=
  if height < prev.block then ⟨height, none⟩ else prev

/-- The WHERE clause of a read over a stamped height. -/
def blockPairRange (sinceBlock : ℤ) (afterActionIndex upToBlock : Option ℤ) (p : ℤ × ℤ) : Bool :=
  (match afterActionIndex with
    | none => decide (sinceBlock < p.1)
    | some after => decide (sinceBlock ≤ p.1) && (decide (sinceBlock < p.1) || decide (after < p.2))) &&
  upToBlock.all fun upTo => decide (p.1 ≤ upTo)

section cursor
variable {ρ : Type*} (pair : ρ → ℤ × ℤ)

/-- Where the cursor lands after a non-empty fetch that ended at `last`: a full one may have
    stopped inside a block, a short one returned every row up to `upTo`. -/
def pairCursorAfter (last : ρ) (fetched fetchLimit : ℕ) (upTo : ℤ) : PairCursor :=
  if fetchLimit ≤ fetched then ⟨(pair last).1, some (pair last).2⟩
  else ⟨max upTo (pair last).1, none⟩

/-- Where a pass leaves its cursor. An empty read skips the span it scanned. -/
def pairCursorNext (since : PairCursor) (rows : List ρ) (fetchLimit : ℕ) (upTo : ℤ) : PairCursor :=
  match rows.getLast? with
  | none => if since.block ≤ upTo then ⟨upTo, none⟩ else since
  | some last => pairCursorAfter pair last rows.length fetchLimit upTo

end cursor

/-! ### The stamped tables -/

variable {β H : Type*} {L : Ledger β H}

variable (L) in
/-- The height and index of every row stamped on a chain, where each block's end-of-block pass
    stamps the rows of `stamps` with that block's height. -/
def stamped (stamps : Chain β → List ℤ) : Chain β → List (ℤ × ℤ)
  | [] => []
  | x :: c => stamped stamps c ++ (stamps (x :: c)).map fun i => (L.height (x :: c), i)

/-- A table whose rows an end-of-block pass stamps with its height. `row` is what the table says of
    a stamped row while the chain stands as it does: the other columns may be written later.
    `action_index` is unique in the table, and `shown` is what the read's joins and status filters
    ask of a row. -/
structure StampedTable (L : Ledger β H) (ρ : Type*) (pair : ρ → ℤ × ℤ) (shown : ρ → Bool) where
  stamps : Chain β → List ℤ
  row : Chain β → ℤ × ℤ → ρ
  in_order : ∀ c, (stamps c).Pairwise (· < ·)
  row_pair : ∀ c p, pair (row c p) = p
  row_shown : ∀ c, ∀ p ∈ stamped L stamps c, shown (row c p) = true

section table
variable {ρ : Type*} {pair : ρ → ℤ × ℤ} {shown : ρ → Bool}

/-- The heights and indexes of the stamped rows, in order. -/
def StampedTable.pairs (T : StampedTable L ρ pair shown) (c : Chain β) : List (ℤ × ℤ) :=
  stamped L T.stamps c

/-- The lowest stamped rows of the range, at most `limit` of them. -/
def StampedTable.since (T : StampedTable L ρ pair shown) (c : Chain β) (sinceBlock : ℤ) (limit : ℕ)
    (afterActionIndex upToBlock : Option ℤ) : List ρ :=
  (((T.pairs c).map (T.row c)).filter fun r =>
    blockPairRange sinceBlock afterActionIndex upToBlock (pair r) && shown r).take limit

end table

/-- A market with its deadline latch stamped. The read joins the transaction of its create action. -/
structure BetFeed where
  action_index : ℤ
  closed_block : ℤ
  tx_index : Option ℤ
  source : Option String
  feed_status : Option String
  deriving DecidableEq, Repr

def BetFeed.pair (r : BetFeed) : ℤ × ℤ := (r.closed_block, r.action_index)

/-- The inner join on `transactions`. -/
def BetFeed.shown (r : BetFeed) : Bool := r.tx_index.isSome

/-- A call with its resolution stamped. -/
structure Xcall where
  action_index : ℤ
  resolved_block : ℤ
  call_id : String
  contract_index : Option ℤ
  target_chain : Option String
  method : Option String
  request_status : Option String
  result_status : Option String
  callback_action_index : Option ℤ
  deadline_block : Option ℤ
  source : Option String
  status : Option String
  deriving DecidableEq, Repr

def Xcall.pair (r : Xcall) : ℤ × ℤ := (r.resolved_block, r.action_index)

/-- `request_status IN ('completed','expired') AND status='valid'`. -/
def Xcall.shown (r : Xcall) : Bool :=
  (r.request_status == some "completed" || r.request_status == some "expired") &&
    r.status == some "valid"

/-- The two stamped tables of one coin. A contract cannot emit a BET, so every market was created by
    a transaction; a call is stamped when its request goes terminal, which only a valid one does. -/
structure Latches (L : Ledger β H) where
  bet_feeds : StampedTable L BetFeed BetFeed.pair BetFeed.shown
  xcalls : StampedTable L Xcall Xcall.pair Xcall.shown

def Latches.getBetFeedsClosedSince (S : Latches L) (c : Chain β) (sinceBlock : ℤ) (limit : ℕ)
    (afterActionIndex upToBlock : Option ℤ) : List BetFeed :=
  S.bet_feeds.since c sinceBlock limit afterActionIndex upToBlock

def Latches.getXcallPhasesSince (S : Latches L) (c : Chain β) (sinceBlockIndex : ℤ) (limit : ℕ)
    (afterActionIndex upToBlock : Option ℤ) : List Xcall :=
  S.xcalls.since c sinceBlockIndex limit afterActionIndex upToBlock

/-! ### The order of a cursor -/

/-- A stamped row in the order of the reads. -/
def pairKey (p : ℤ × ℤ) : ℤ ×ₗ WithTop ℤ := toLex (p.1, (p.2 : WithTop ℤ))

/-- A cursor that holds a whole block stands above every row of it. -/
def PairCursor.key (c : PairCursor) : ℤ ×ₗ WithTop ℤ :=
  toLex (c.block, c.action.elim ⊤ fun i => (i : WithTop ℤ))

theorem pairKey_le_iff {p : ℤ × ℤ} {q : ℤ × ℤ} :
    pairKey p ≤ pairKey q ↔ p.1 < q.1 ∨ p.1 = q.1 ∧ p.2 ≤ q.2 := by
  rw [pairKey, pairKey, Prod.Lex.toLex_le_toLex]
  simp only [WithTop.coe_le_coe]

theorem pairKey_lt_iff {p q : ℤ × ℤ} :
    pairKey p < pairKey q ↔ p.1 < q.1 ∨ p.1 = q.1 ∧ p.2 < q.2 := by
  rw [pairKey, pairKey, Prod.Lex.toLex_lt_toLex]
  simp only [WithTop.coe_lt_coe]

theorem pairKey_le_whole {p : ℤ × ℤ} {b : ℤ} :
    pairKey p ≤ (PairCursor.mk b none).key ↔ p.1 ≤ b := by
  rw [pairKey, PairCursor.key, Prod.Lex.toLex_le_toLex]
  simp only [Option.elim_none, le_top, and_true]
  omega

theorem pairKey_le_inside {p q : ℤ × ℤ} :
    pairKey p ≤ (PairCursor.mk q.1 (some q.2)).key ↔ pairKey p ≤ pairKey q := Iff.rfl

theorem block_le_of_key_le {p : ℤ × ℤ} {c : PairCursor} (h : pairKey p ≤ c.key) : p.1 ≤ c.block := by
  rw [pairKey, PairCursor.key, Prod.Lex.toLex_le_toLex] at h
  rcases h with h | ⟨h, -⟩
  · exact h.le
  · exact h.le

theorem block_le_of_key_lt {p : ℤ × ℤ} {c : PairCursor} (h : c.key < pairKey p) : c.block ≤ p.1 := by
  rw [pairKey, PairCursor.key, Prod.Lex.toLex_lt_toLex] at h
  rcases h with h | ⟨h, -⟩
  · exact h.le
  · exact h.le

/-- The range of a read is what lies above the cursor, up to the ceiling. -/
theorem blockPairRange_iff {c : PairCursor} {upTo : ℤ} {p : ℤ × ℤ} :
    blockPairRange c.block c.action (some upTo) p = true ↔ c.key < pairKey p ∧ p.1 ≤ upTo := by
  obtain ⟨block, action⟩ := c
  rw [pairKey, PairCursor.key, Prod.Lex.toLex_lt_toLex]
  cases action with
  | none => simp [blockPairRange]
  | some a =>
    simp only [blockPairRange, Option.all_some, Bool.and_eq_true, Bool.or_eq_true,
      decide_eq_true_eq, Option.elim_some, WithTop.coe_lt_coe]
    omega

/-! ### The stamped rows -/

theorem mem_stamped {stamps : Chain β → List ℤ} {c : Chain β} {p : ℤ × ℤ} :
    p ∈ stamped L stamps c ↔
      ∃ x t, x :: t <:+ c ∧ p.1 = L.height (x :: t) ∧ p.2 ∈ stamps (x :: t) := by
  induction c with
  | nil => simp [stamped]
  | cons y c ih =>
    rw [stamped, List.mem_append, ih]
    constructor
    · rintro (⟨x, t, hs, h⟩ | h)
      · exact ⟨x, t, hs.trans (List.suffix_cons y c), h⟩
      · obtain ⟨i, hi, rfl⟩ := List.mem_map.mp h
        exact ⟨y, c, List.suffix_rfl, rfl, hi⟩
    · rintro ⟨x, t, hs, hh, hi⟩
      rcases List.suffix_cons_iff.mp hs with h | h
      · obtain ⟨rfl, rfl⟩ := List.cons.inj h
        exact .inr (List.mem_map.mpr ⟨p.2, hi, by rw [← hh]⟩)
      · exact .inl ⟨x, t, h, hh, hi⟩

theorem height_of_mem_stamped {stamps : Chain β → List ℤ} {c : Chain β} {p : ℤ × ℤ}
    (h : p ∈ stamped L stamps c) : p.1 ≤ L.height c := by
  obtain ⟨x, t, hs, hh, -⟩ := mem_stamped.mp h
  rw [hh]
  exact height_le_of_suffix hs

theorem stamped_pairwise {stamps : Chain β → List ℤ} (ho : ∀ c, (stamps c).Pairwise (· < ·))
    (c : Chain β) : (stamped L stamps c).Pairwise (pairKey · < pairKey ·) := by
  induction c with
  | nil => exact List.Pairwise.nil
  | cons y c ih =>
    refine List.pairwise_append.mpr ⟨ih, ?_, ?_⟩
    · rw [List.pairwise_map]
      refine (ho (y :: c)).imp fun h => ?_
      rw [pairKey_lt_iff]
      exact .inr ⟨rfl, h⟩
    · intro p hp q hq
      obtain ⟨i, -, rfl⟩ := List.mem_map.mp hq
      rw [pairKey_lt_iff]
      refine .inl ?_
      have := height_of_mem_stamped hp
      simp only [height_cons]
      omega

/-- A longer chain stamps its new rows above every height the shorter one had. -/
theorem stamped_of_suffix {stamps : Chain β → List ℤ} {c d : Chain β} (h : c <:+ d) :
    ∃ new, stamped L stamps d = stamped L stamps c ++ new ∧ ∀ p ∈ new, L.height c < p.1 := by
  induction d with
  | nil =>
    rw [List.suffix_nil] at h
    subst h
    exact ⟨[], by simp, by simp⟩
  | cons y d ih =>
    rcases List.suffix_cons_iff.mp h with rfl | h
    · exact ⟨[], by simp, by simp⟩
    · obtain ⟨new, hnew, hlow⟩ := ih h
      refine ⟨new ++ (stamps (y :: d)).map fun i => (L.height (y :: d), i), ?_, ?_⟩
      · rw [stamped, hnew, List.append_assoc]
      · intro p hp
        rcases List.mem_append.mp hp with hp | hp
        · exact hlow p hp
        · obtain ⟨i, -, rfl⟩ := List.mem_map.mp hp
          have := height_le_of_suffix (L := L) h
          simp only [height_cons]
          omega

/-! ### One page of a cursor -/

section page
variable {ρ : Type*} {pair : ρ → ℤ × ℤ} {shown : ρ → Bool} {T : StampedTable L ρ pair shown}
  {c : Chain β} {cur : PairCursor} {upTo : ℤ} {limit : ℕ}

variable (T c cur upTo limit) in
/-- The heights and indexes of the rows a pass reads. -/
def pairPage : List (ℤ × ℤ) :=
  Page.fetch pairKey ((T.pairs c).filter fun p => decide (p.1 ≤ upTo)) cur.key limit

theorem pairs_pairwise : (T.pairs c).Pairwise (pairKey · < pairKey ·) :=
  stamped_pairwise T.in_order c

/-- The joins and status filters keep every stamped row. -/
theorem map_pair_since :
    (T.since c cur.block limit cur.action (some upTo)).map pair = pairPage T c cur upTo limit := by
  rw [StampedTable.since, pairPage, Page.fetch, List.map_take, List.filter_map, List.map_map,
    List.filter_filter]
  congr 1
  have hid : (pair ∘ T.row c) = id := funext fun p => T.row_pair c p
  rw [hid, List.map_id]
  refine List.filter_congr fun p hp => ?_
  simp only [Function.comp_apply, T.row_pair, T.row_shown c p hp, Bool.and_true]
  rw [Bool.eq_iff_iff, blockPairRange_iff, Bool.and_eq_true, decide_eq_true_eq, decide_eq_true_eq]

theorem pairCursorNext_map (rows : List ρ) :
    pairCursorNext pair cur rows limit upTo = pairCursorNext id cur (rows.map pair) limit upTo := by
  rw [pairCursorNext, pairCursorNext, List.getLast?_map, List.length_map]
  cases rows.getLast? <;> rfl

theorem mem_pairPage {p : ℤ × ℤ} (hp : p ∈ pairPage T c cur upTo limit) :
    p ∈ T.pairs c ∧ cur.key < pairKey p ∧ p.1 ≤ upTo := by
  obtain ⟨hmem, hk⟩ := Page.mem_of_mem_fetch hp
  obtain ⟨hmem, hup⟩ := List.mem_filter.mp hmem
  exact ⟨hmem, hk, of_decide_eq_true hup⟩

/-- A row in range makes the page non-empty. -/
theorem pairPage_ne_nil (hl : 0 < limit) {p : ℤ × ℤ} (hp : p ∈ T.pairs c) (hk : cur.key < pairKey p)
    (hup : p.1 ≤ upTo) : pairPage T c cur upTo limit ≠ [] :=
  Page.fetch_ne_nil hl (List.mem_filter.mpr ⟨hp, decide_eq_true hup⟩) hk

/-- The rows at or below where a pass leaves its cursor are those it stood above and those it read. -/
theorem key_le_next_iff (hl : 0 < limit) {p : ℤ × ℤ} (hp : p ∈ T.pairs c) :
    pairKey p ≤ (pairCursorNext id cur (pairPage T c cur upTo limit) limit upTo).key ↔
      pairKey p ≤ cur.key ∨ p ∈ pairPage T c cur upTo limit := by
  have hsort := (pairs_pairwise (T := T) (c := c)).filter fun p => decide (p.1 ≤ upTo)
  rw [pairCursorNext]
  cases hlast : (pairPage T c cur upTo limit).getLast? with
  | none =>
    have hnil := List.getLast?_eq_none_iff.mp hlast
    rw [hnil]
    simp only [List.not_mem_nil, or_false]
    split_ifs with hup
    · rw [pairKey_le_whole]
      constructor
      · intro h
        by_contra hk
        exact pairPage_ne_nil hl hp (not_le.mp hk) h hnil
      · intro h
        exact (block_le_of_key_le h).trans hup
    · rfl
  | some last =>
    have hmem := List.mem_of_getLast? hlast
    obtain ⟨-, hlk, hlup⟩ := mem_pairPage hmem
    have hne : pairPage T c cur upTo limit ≠ [] := List.ne_nil_of_mem hmem
    simp only [pairCursorAfter, id_eq]
    split_ifs with hfull
    · -- a full page ends at the row it reached
      have hreach : Page.reached pairKey cur.key (pairPage T c cur upTo limit) = pairKey last := by
        rw [Page.reached, hlast, Option.map_some, Option.getD_some]
      rw [pairKey_le_inside, pairPage, Page.mem_fetch hsort, ← pairPage, hreach, List.mem_filter]
      constructor
      · intro h
        by_cases hk : pairKey p ≤ cur.key
        · exact .inl hk
        · refine .inr ⟨⟨hp, decide_eq_true ?_⟩, not_le.mp hk, h⟩
          rcases pairKey_le_iff.mp h with h | ⟨h, -⟩ <;> omega
      · rintro (h | ⟨-, -, h⟩)
        · exact h.trans hlk.le
        · exact h
    · -- a short page holds every row up to the ceiling
      rw [max_eq_left hlup, pairKey_le_whole, pairPage, Page.mem_fetch_of_short (not_le.mp hfull),
        List.mem_filter, decide_eq_true_eq]
      constructor
      · intro h
        by_cases hk : pairKey p ≤ cur.key
        · exact .inl hk
        · exact .inr ⟨⟨hp, h⟩, not_le.mp hk⟩
      · rintro (h | ⟨⟨-, h⟩, -⟩)
        · exact (block_le_of_key_le h).trans ((block_le_of_key_lt hlk).trans hlup)
        · exact h

/-- A pass moves its cursor up, and past its ceiling only where the cursor was already. -/
theorem key_le_next : cur.key ≤ (pairCursorNext id cur (pairPage T c cur upTo limit) limit upTo).key := by
  rw [pairCursorNext]
  cases hlast : (pairPage T c cur upTo limit).getLast? with
  | none =>
    split_ifs with hup
    · rw [PairCursor.key, PairCursor.key, Prod.Lex.toLex_le_toLex]
      rcases hup.lt_or_eq with h | h
      · exact .inl h
      · exact .inr ⟨h, le_top⟩
    · exact le_rfl
  | some last =>
    obtain ⟨-, hlk, hlup⟩ := mem_pairPage (List.mem_of_getLast? hlast)
    simp only [pairCursorAfter, id_eq]
    split_ifs
    · exact hlk.le
    · refine hlk.le.trans ?_
      rw [pairKey_le_whole]
      exact le_max_right _ _

theorem block_next_le :
    (pairCursorNext id cur (pairPage T c cur upTo limit) limit upTo).block ≤ max cur.block upTo := by
  rw [pairCursorNext]
  cases hlast : (pairPage T c cur upTo limit).getLast? with
  | none =>
    split_ifs
    · exact le_max_right _ _
    · exact le_max_left _ _
  | some last =>
    obtain ⟨-, -, hlup⟩ := mem_pairPage (List.mem_of_getLast? hlast)
    simp only [pairCursorAfter, id_eq]
    split_ifs
    · exact hlup.trans (le_max_right _ _)
    · exact max_le (le_max_right _ _) (hlup.trans (le_max_right _ _))

/-- A pass sends exactly what lies between where its cursor stood and where it leaves it, in order. -/
theorem filter_append_pairPage (hl : 0 < limit) {seed : ℤ}
    (hs : (PairCursor.mk seed none).key ≤ cur.key) :
    ((T.pairs c).filter fun p => decide (seed < p.1 ∧ pairKey p ≤ cur.key)) ++
        pairPage T c cur upTo limit =
      (T.pairs c).filter fun p => decide (seed < p.1 ∧
        pairKey p ≤ (pairCursorNext id cur (pairPage T c cur upTo limit) limit upTo).key) := by
  have hsort := pairs_pairwise (T := T) (c := c)
  have hpage : (pairPage T c cur upTo limit).Pairwise (pairKey · < pairKey ·) :=
    Page.fetch_pairwise (hsort.filter _)
  have : Std.Irrefl fun p q : ℤ × ℤ => pairKey p < pairKey q := ⟨fun p => lt_irrefl _⟩
  have : Std.Asymm fun p q : ℤ × ℤ => pairKey p < pairKey q := ⟨fun p q => lt_asymm⟩
  refine List.Pairwise.eq_of_mem_iff (r := fun p q => pairKey p < pairKey q) ?_ (hsort.filter _) ?_
  · refine List.pairwise_append.mpr ⟨hsort.filter _, hpage, fun p hp q hq => ?_⟩
    have hle := (of_decide_eq_true (List.mem_filter.mp hp).2).2
    exact hle.trans_lt (mem_pairPage hq).2.1
  · intro p
    rw [List.mem_append, List.mem_filter, List.mem_filter, decide_eq_true_eq, decide_eq_true_eq]
    constructor
    · rintro (⟨hp, hlo, hk⟩ | hp)
      · exact ⟨hp, hlo, hk.trans key_le_next⟩
      · obtain ⟨hmem, hk, -⟩ := mem_pairPage hp
        refine ⟨hmem, ?_, (key_le_next_iff hl hmem).mpr (.inr hp)⟩
        by_contra hlo
        exact absurd (hs.trans_lt hk) (not_lt.mpr (pairKey_le_whole.mpr (not_lt.mp hlo)))
    · rintro ⟨hp, hlo, hk⟩
      rcases (key_le_next_iff hl hp).mp hk with h | h
      · exact .inl ⟨hp, hlo, h⟩
      · exact .inr h

end page

end ChangeDetector
