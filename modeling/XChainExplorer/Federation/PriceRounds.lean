import XChainExplorer.Lib.IntervalPage
import XChainExplorer.Lib.JsNumber
import Mathlib.Data.List.Sort
import Mathlib.Data.Prod.Lex

/-! # Published price rounds

    The price batches of a range of rounds, a page at a time. A caller reads on behind the last batch's last
    round while pages come back full. Batches overlap and nest, and the order is by their first round, so
    what a page leaves out and the next one skips is in rounds that were answered already. -/

namespace PriceBatches

open JsNumber

/-- The batches of an answer where none is asked for. -/
def PRICE_BATCHES_DEFAULT_LIMIT : ℕ := 500

/-- The most batches of an answer. -/
def PRICE_BATCHES_MAX_LIMIT : ℕ := 1000

/-- The blocks that the median of a testnet time is taken over. -/
def MEDIAN_TIME_SPAN : ℕ := 11

/-! ### The request -/

/-- A field of the request. A number that is not finite is `none`. -/
inductive Param where
  | absent
  | null
  | number (v : Option ℚ)
  | text (s : String)
  | other

/-- The parameters of a request. -/
structure Request where
  first_round : Param
  last_round : Param
  limit : Param

/-- A non-negative safe integer. -/
abbrev Round := {n : ℕ // n < 2 ^ 53}

/-- A round is a natural number that a double holds exactly. -/
def isRound (v : Option ℚ) : Option Round :=
  v.bind fun q =>
    if h : q.den = 1 ∧ 0 ≤ q ∧ q < 2 ^ 53 then
      some ⟨q.num.toNat, by
        obtain ⟨hden, hnonneg, hlt⟩ := h
        rw [← Rat.coe_int_num_of_den_eq_one hden] at hlt
        have : q.num < 2 ^ 53 := by exact_mod_cast hlt
        omega⟩
    else none

/-- `none` for `NaN` and for what is not finite. -/
def integerParam : Param → Option ℚ
  | .number v => v
  | .text s => (decimalDigits s.toList).bind fun n : ℕ => roundToDouble n
  | _ => none

/-- A positive integer. -/
def positive (v : Option ℚ) : Option {n : ℕ // 1 ≤ n} :=
  v.bind fun q =>
    if h : q.den = 1 ∧ 1 ≤ q then
      some ⟨q.num.toNat, by
        obtain ⟨hden, hone⟩ := h
        rw [← Rat.coe_int_num_of_den_eq_one hden] at hone
        have : 1 ≤ q.num := by exact_mod_cast hone
        omega⟩
    else none

/-- A request that was accepted. -/
structure Accepted where
  first_round : Round
  last_round : Round
  limit : ℕ
  ordered : first_round ≤ last_round
  limit_pos : 1 ≤ limit
  limit_le : limit ≤ PRICE_BATCHES_MAX_LIMIT

/-- The limit asked for, which is positive. -/
def limitParam : Param → Option {n : ℕ // 1 ≤ n}
  | .absent | .null => some ⟨PRICE_BATCHES_DEFAULT_LIMIT, by decide⟩
  | v => positive (integerParam v)

/-- The parameters as they are accepted, or the text of the refusal. -/
def validatePriceBatchParams (body : Request) : Except String Accepted :=
  match isRound (integerParam body.first_round), isRound (integerParam body.last_round) with
  | none, _ => .error "first_round must be a non-negative integer"
  | some _, none => .error "last_round must be a non-negative integer"
  | some first, some last =>
    if h : first ≤ last then
      match limitParam body.limit with
      | none => .error "limit must be a positive integer"
      | some limit =>
        .ok ⟨first, last, min limit PRICE_BATCHES_MAX_LIMIT, h, le_min limit.2 (by decide), min_le_right _ _⟩
    else .error "first_round must not exceed last_round"

/-! ### The replica -/

/-- A row of `prices`. -/
structure PriceRow where
  action_index : ℕ
  version : ℕ
  validation_status : String
  batch_first_round : Option ℕ
  batch_last_round : Option ℕ
  round_count : Option ℕ

/-- A row of `actions`. -/
structure ActionRow where
  action_index : ℕ
  block_index : ℕ

/-- A block of the decoder. -/
structure DecoderBlock where
  block_index : ℕ
  block_time : Option ℕ

/-- A replica, and the decoder's blocks where its database is known. -/
structure Replica where
  prices : List PriceRow
  actions : List ActionRow
  maxBlockIndex : ℕ
  decoder : Option (List DecoderBlock)

/-- A row of the answer. -/
structure BatchRow where
  action_index : ℕ
  batch_first_round : ℕ
  batch_last_round : ℕ
  round_count : Option ℕ
  block_index : Option ℕ

/-- The rounds of a batch that has the status. -/
def PriceRow.batch (p : PriceRow) (validationStatus : String) : Option (ℕ × ℕ) :=
  if p.version = 0 ∧ p.validation_status.toLower = validationStatus.toLower then
    p.batch_first_round.bind fun first => p.batch_last_round.map fun last => (first, last)
  else none

/-- `LEFT JOIN actions a ON a.action_index = p.action_index` -/
def leftJoin (actions : List ActionRow) (action_index : ℕ) : List (Option ℕ) :=
  match actions.filter (·.action_index = action_index) with
  | [] => [none]
  | as => as.map fun a => some a.block_index

/-- A batch with the block of its action. -/
def PriceRow.joined (actions : List ActionRow) (validationStatus : String) (p : PriceRow) : List BatchRow :=
  match p.batch validationStatus with
  | none => []
  | some (first, last) => (leftJoin actions p.action_index).map fun block_index =>
      { action_index := p.action_index, batch_first_round := first, batch_last_round := last,
        round_count := p.round_count, block_index }

/-- The batches of a validation status. -/
def Replica.batchRows (db : Replica) (validationStatus : String) : List BatchRow :=
  db.prices.flatMap (PriceRow.joined db.actions validationStatus)

/-- `ORDER BY p.batch_first_round ASC, p.action_index ASC` -/
def byRound (rows : List BatchRow) : List BatchRow :=
  rows.insertionSort fun a b => toLex (a.batch_first_round, a.action_index) ≤ toLex (b.batch_first_round, b.action_index)

/-- The first batches that overlap a range of rounds. -/
def getPriceBatchesOverlappingRange (db : Replica) (validationStatus : String) (lastRound firstRound limit : ℕ) :
    List BatchRow :=
  (byRound (IntervalPage.overlapping BatchRow.batch_first_round BatchRow.batch_last_round
    (db.batchRows validationStatus) firstRound lastRound)).take limit

/-! ### The clock -/

/-- The time that the decoder stored for a block. -/
def Replica.getDecoderBlockTime (db : Replica) (height : ℕ) : Option ℕ :=
  db.decoder.bind fun blocks => (blocks.find? (·.block_index = height)).bind (·.block_time)

/-- Times before a height, newest first. -/
def Replica.getPreviousDecoderBlockTimes (db : Replica) (blockIndex span : ℕ) : List ℕ :=
  match db.decoder with
  | none => []
  | some blocks =>
    (((blocks.filter fun b => b.block_index < blockIndex ∧ b.block_time.isSome).insertionSort
      fun a b => b.block_index ≤ a.block_index).take span).filterMap (·.block_time)

/-- The time that the protocol reads: on testnet no later than the median of the blocks before. -/
def protocolTimeForStoredBlock (db : Replica) (network : String) (blockIndex : ℕ) : Option ℕ :=
  (db.getDecoderBlockTime blockIndex).map fun raw =>
    if network = "testnet" then
      let times := ((db.getPreviousDecoderBlockTimes blockIndex MEDIAN_TIME_SPAN).filter (0 < ·)).insertionSort (· ≤ ·)
      match times[times.length / 2]? with
      | none => raw
      | some median => min median raw
    else raw

/-- Landing times by block. -/
def landingBlockTimes (db : Replica) (network : String) (rows : List BatchRow) : List (ℕ × ℕ) :=
  rows.foldl (fun times row =>
    match row.block_index.bind fun h => isRound (roundToDouble h) with
    | none => times
    | some blockIndex =>
      if (times.lookup blockIndex.1).isSome then times
      else
        match protocolTimeForStoredBlock db network blockIndex with
        | none => times
        | some time => (blockIndex.1, time) :: times) []

/-! ### The response -/

/-- A batch as it is served, where a number is `none` if it is not finite. -/
structure Batch where
  action_index : Option ℚ
  first_round : Option ℚ
  last_round : Option ℚ
  round_count : Option ℚ
  block_index : Option ℚ
  block_time : Option ℕ

/-- The answer. -/
structure Response where
  block_index : Option ℚ
  first_round : ℕ
  last_round : ℕ
  batches : List Batch
  truncated : Bool

/-- A number as it is written into JSON. -/
def number (n : ℕ) : Option ℚ := roundToDouble n

/-- A height that is no safe integer has no landing time. -/
def toBatch (blockTimes : List (ℕ × ℕ)) (r : BatchRow) : Batch where
  action_index := number r.action_index
  first_round := number r.batch_first_round
  last_round := number r.batch_last_round
  round_count := r.round_count.bind number
  block_index := r.block_index.bind number
  block_time := (isRound (r.block_index.bind number)).bind fun h => blockTimes.lookup h.1

/-- The answer from what was read. A full page counts as cut. -/
def buildPriceBatchesResponse (latestBlockIndex : ℕ) (rows : List BatchRow) (v : Accepted)
    (blockTimes : List (ℕ × ℕ)) : Response where
  block_index := number latestBlockIndex
  first_round := v.first_round
  last_round := v.last_round
  batches := rows.map (toBatch blockTimes)
  truncated := v.limit ≤ (rows.map (toBatch blockTimes)).length

/-- `db` is `none` where the replica cannot be read. -/
def getpricebatches (db : Option Replica) (network : String) (q : Request) : Except String Response :=
  match validatePriceBatchParams q with
  | .error e => .error e
  | .ok v =>
    match db with
    | none => .error "failed to look up price batches"
    | some db =>
      let rows := getPriceBatchesOverlappingRange db "valid" v.last_round v.first_round v.limit
      .ok (buildPriceBatchesResponse db.maxBlockIndex rows v (landingBlockTimes db network rows))

/-! ### Reading on -/

/-- Where a caller reads on: one past the last batch, while the page was full and the range goes on. -/
def Response.next (res : Response) : Option ℚ :=
  if res.truncated then
    (res.batches.getLast?.bind (·.last_round)).bind fun last => if last + 1 ≤ res.last_round then some (last + 1) else none
  else none

/-- The answers a caller gets. -/
inductive Reads (db : Replica) (network : String) : Request → List Response → Prop where
  | last {q : Request} {res : Response} (hres : getpricebatches (some db) network q = .ok res) (hnext : res.next = none) :
      Reads db network q [res]
  | on {q : Request} {res : Response} {n : ℚ} {rs : List Response} (hres : getpricebatches (some db) network q = .ok res)
      (hnext : res.next = some n) (hrest : Reads db network { q with first_round := .number (some n) } rs) :
      Reads db network q (res :: rs)

/-- A valid batch publishes the round. -/
def Replica.Publishes (db : Replica) (r : ℕ) : Prop :=
  ∃ p ∈ db.prices, ∃ first last, p.batch "valid" = some (first, last) ∧ first ≤ r ∧ r ≤ last

/-- The round is one of the batch's. -/
def Batch.Carries (b : Batch) (r : ℕ) : Prop :=
  (∃ first, b.first_round = some first ∧ first ≤ r) ∧ ∀ last, b.last_round = some last → r ≤ last

variable {db : Replica} {network : String} {q : Request} {v : Accepted} {res : Response} {rs : List Response} {n r : ℕ}

/-! ### Numbers -/

theorem number_of_lt (hn : n < 2 ^ 53) : number n = some (n : ℚ) := roundToDouble_natCast hn

/-- What is rounded stays on its side of a round. -/
theorem number_le_iff (hr : r < 2 ^ 53) : (∃ d, number n = some d ∧ d ≤ r) ↔ n ≤ r := by
  rcases lt_or_ge n (2 ^ 53) with hn | hn
  · simp [number_of_lt hn]
  · refine iff_of_false ?_ (by omega)
    rintro ⟨d, hd, hle⟩
    have hpow : (2 : ℚ) ^ 53 ≤ r := (le_roundToDouble hn hd).trans hle
    have : 2 ^ 53 ≤ r := by exact_mod_cast hpow
    omega

theorem le_number_iff (hr : r < 2 ^ 53) : (∀ d, number n = some d → (r : ℚ) ≤ d) ↔ r ≤ n := by
  rcases lt_or_ge n (2 ^ 53) with hn | hn
  · simp [number_of_lt hn]
  · refine iff_of_true (fun d hd => ?_) (by omega)
    have hpow : (r : ℚ) ≤ 2 ^ 53 := by exact_mod_cast hr.le
    exact hpow.trans (le_roundToDouble hn hd)

theorem carries_toBatch {times : List (ℕ × ℕ)} {row : BatchRow} (hr : r < 2 ^ 53) :
    (toBatch times row).Carries r ↔ row.batch_first_round ≤ r ∧ r ≤ row.batch_last_round :=
  and_congr (number_le_iff hr) (le_number_iff hr)

/-- A batch that ends before a round ends in a safe integer. -/
theorem number_of_succ_le {d : ℚ} (hd : number n = some d) (hr : r < 2 ^ 53) (hle : d + 1 ≤ r) : d = n ∧ n < r := by
  have hn : n ≤ r := (number_le_iff hr).mp ⟨d, hd, by linarith⟩
  rw [number_of_lt (by omega), Option.some.injEq] at hd
  subst hd
  exact ⟨rfl, by exact_mod_cast hle⟩

/-! ### The request -/

theorem isRound_natCast (hn : n < 2 ^ 53) : isRound (some (n : ℚ)) = some ⟨n, hn⟩ := by
  have hcond : (n : ℚ).den = 1 ∧ 0 ≤ (n : ℚ) ∧ (n : ℚ) < 2 ^ 53 := ⟨by simp, by simp, by exact_mod_cast hn⟩
  rw [isRound, Option.bind_some, dif_pos hcond]
  simp

/-- The range a request was accepted with is the one it names. -/
theorem validate_eq_ok (hv : validatePriceBatchParams q = .ok v) :
    isRound (integerParam q.first_round) = some v.first_round ∧ isRound (integerParam q.last_round) = some v.last_round ∧
      ∃ limit, limitParam q.limit = some limit ∧ v.limit = min limit.1 PRICE_BATCHES_MAX_LIMIT := by
  unfold validatePriceBatchParams at hv
  split at hv
  case h_1 | h_2 => cases hv
  case h_3 first last hfirst hlast =>
    split_ifs at hv
    split at hv
    · cases hv
    · rename_i limit hlimit
      cases hv
      exact ⟨hfirst, hlast, limit, hlimit, rfl⟩

/-- The request that reads on is accepted too. -/
theorem validate_next (hv : validatePriceBatchParams q = .ok v) (hn : n ≤ v.last_round.1) :
    ∃ v', validatePriceBatchParams { q with first_round := .number (some (n : ℚ)) } = .ok v' ∧
      v'.first_round.1 = n ∧ v'.last_round = v.last_round := by
  obtain ⟨-, hlast, limit, hlimit, -⟩ := validate_eq_ok hv
  have hround : isRound (integerParam (.number (some (n : ℚ)))) = some ⟨n, hn.trans_lt v.last_round.2⟩ := isRound_natCast _
  refine ⟨⟨⟨n, hn.trans_lt v.last_round.2⟩, v.last_round, min limit PRICE_BATCHES_MAX_LIMIT, hn,
    le_min limit.2 (by decide), min_le_right _ _⟩, ?_, rfl, rfl⟩
  have hle : (⟨n, hn.trans_lt v.last_round.2⟩ : Round) ≤ v.last_round := hn
  simp only [validatePriceBatchParams, hround, hlast, dif_pos hle, hlimit]

/-! ### One answer -/

theorem mem_leftJoin_ne_nil (actions : List ActionRow) (i : ℕ) : leftJoin actions i ≠ [] := by
  unfold leftJoin
  split
  · exact List.cons_ne_nil _ _
  · rename_i h
    simpa using h

theorem covers_batchRows : IntervalPage.Covers BatchRow.batch_first_round BatchRow.batch_last_round
    (db.batchRows "valid") r ↔ db.Publishes r := by
  constructor
  · rintro ⟨row, hrow, hlo, hhi⟩
    obtain ⟨p, hp, hrow⟩ := List.mem_flatMap.mp hrow
    unfold PriceRow.joined at hrow
    split at hrow
    · cases hrow
    · rename_i first last hbatch
      obtain ⟨block, -, rfl⟩ := List.mem_map.mp hrow
      exact ⟨p, hp, first, last, hbatch, hlo, hhi⟩
  · rintro ⟨p, hp, first, last, hbatch, hlo, hhi⟩
    obtain ⟨block, hblock⟩ := List.exists_mem_of_ne_nil _ (mem_leftJoin_ne_nil db.actions p.action_index)
    refine ⟨⟨p.action_index, first, last, p.round_count, block⟩, List.mem_flatMap.mpr ⟨p, hp, ?_⟩, hlo, hhi⟩
    rw [PriceRow.joined, hbatch]
    exact List.mem_map_of_mem hblock

theorem byRound_pairwise (rows : List BatchRow) : (byRound rows).Pairwise (·.batch_first_round ≤ ·.batch_first_round) := by
  have hsorted : (byRound rows).Pairwise fun a b =>
      toLex (a.batch_first_round, a.action_index) ≤ toLex (b.batch_first_round, b.action_index) :=
    List.pairwise_insertionSort _ _
  exact hsorted.imp fun h => Prod.Lex.monotone_fst _ _ h

/-- What an answer was built from. -/
theorem getpricebatches_eq (hv : validatePriceBatchParams q = .ok v)
    (hres : getpricebatches (some db) network q = .ok res) :
    ∃ times, res = buildPriceBatchesResponse db.maxBlockIndex
      (getPriceBatchesOverlappingRange db "valid" v.last_round v.first_round v.limit) v times := by
  rw [getpricebatches, hv] at hres
  cases hres
  exact ⟨_, rfl⟩

/-- The rounds an answer carries are those its rows cover. -/
theorem carried_iff {rows : List BatchRow} {times : List (ℕ × ℕ)} (hr : r ≤ v.last_round.1) :
    (∃ b ∈ (buildPriceBatchesResponse db.maxBlockIndex rows v times).batches, b.Carries r) ↔
      IntervalPage.Covers BatchRow.batch_first_round BatchRow.batch_last_round rows r := by
  simp only [buildPriceBatchesResponse, List.mem_map, exists_exists_and_eq_and,
    carries_toBatch (hr.trans_lt v.last_round.2), IntervalPage.Covers]

/-- The valid batches of a range, in the order they are read. -/
def Replica.ordered (db : Replica) (v : Accepted) : List BatchRow :=
  byRound (IntervalPage.overlapping BatchRow.batch_first_round BatchRow.batch_last_round
    (db.batchRows "valid") v.first_round v.last_round)

theorem covers_ordered (hfirst : v.first_round.1 ≤ r) (hlast : r ≤ v.last_round.1) :
    IntervalPage.Covers BatchRow.batch_first_round BatchRow.batch_last_round (db.ordered v) r ↔ db.Publishes r := by
  have hperm : (db.ordered v).Perm _ := List.perm_insertionSort _ _
  refine Iff.trans ?_ ((IntervalPage.covers_overlapping hfirst hlast).trans covers_batchRows)
  exact ⟨fun h => h.mono hperm.subset, fun h => h.mono hperm.symm.subset⟩

theorem carried_published (hv : validatePriceBatchParams q = .ok v)
    (hres : getpricebatches (some db) network q = .ok res) (hlast : r ≤ v.last_round.1)
    (hcarried : ∃ b ∈ res.batches, b.Carries r) : db.Publishes r := by
  obtain ⟨times, rfl⟩ := getpricebatches_eq hv hres
  refine covers_batchRows.mp (((carried_iff hlast).mp hcarried).mono fun row hrow => ?_)
  have hover := (List.perm_insertionSort _ _).mem_iff.mp (List.mem_of_mem_take hrow)
  exact (IntervalPage.mem_overlapping.mp hover).1

theorem first_round_eq (hv : validatePriceBatchParams q = .ok v)
    (hres : getpricebatches (some db) network q = .ok res) : res.first_round = v.first_round.1 := by
  obtain ⟨times, rfl⟩ := getpricebatches_eq hv hres
  rfl

/-- Where an answer names a round to read on from, it carried every round before it. -/
theorem next_eq_some {d : ℚ} (hv : validatePriceBatchParams q = .ok v)
    (hres : getpricebatches (some db) network q = .ok res) (hnext : res.next = some d) :
    ∃ n : ℕ, d = n ∧ v.first_round.1 < n ∧ n ≤ v.last_round.1 ∧
      ∀ r, v.first_round.1 ≤ r → r < n → db.Publishes r → ∃ b ∈ res.batches, b.Carries r := by
  obtain ⟨times, rfl⟩ := getpricebatches_eq hv hres
  rw [Response.next] at hnext
  split_ifs at hnext
  obtain ⟨last, hlast, hd⟩ := Option.bind_eq_some_iff.mp hnext
  obtain ⟨b, hb, hblast⟩ := Option.bind_eq_some_iff.mp hlast
  rw [buildPriceBatchesResponse, List.getLast?_map, Option.map_eq_some_iff] at hb
  obtain ⟨row, hrow, rfl⟩ := hb
  split_ifs at hd with hle
  cases hd
  obtain ⟨rfl, hlt⟩ := number_of_succ_le hblast v.last_round.2 hle
  refine ⟨row.batch_last_round + 1, by push_cast; rfl, ?_, hlt, fun r hfirst hr hpub => ?_⟩
  · have hmem : row ∈ db.ordered v := List.mem_of_mem_take (List.mem_of_getLast? hrow)
    have hover := (List.perm_insertionSort _ _).mem_iff.mp hmem
    have := (IntervalPage.mem_overlapping.mp hover).2.2
    omega
  · refine (carried_iff (by omega)).mpr ?_
    have hcovers := (covers_ordered hfirst (by omega)).mpr hpub
    refine (IntervalPage.covers_or_behind (byRound_pairwise _) hrow hcovers).resolve_right ?_
    omega

/-- Where it names none it carried the whole range. -/
theorem next_eq_none (hv : validatePriceBatchParams q = .ok v)
    (hres : getpricebatches (some db) network q = .ok res) (hnext : res.next = none)
    (hfirst : v.first_round.1 ≤ r) (hlast : r ≤ v.last_round.1) (hpub : db.Publishes r) :
    ∃ b ∈ res.batches, b.Carries r := by
  obtain ⟨times, rfl⟩ := getpricebatches_eq hv hres
  refine (carried_iff hlast).mpr ?_
  have hcovers := (covers_ordered hfirst hlast).mpr hpub
  rcases lt_or_ge ((db.ordered v).take v.limit).length v.limit with hshort | hfull
  · exact IntervalPage.covers_of_short hshort hcovers
  · have hne : (db.ordered v).take v.limit ≠ [] := by
      intro hnil
      have := v.limit_pos
      simp [hnil] at hfull
      omega
    obtain ⟨row, hrow⟩ := Option.isSome_iff_exists.mp (List.getLast?_isSome.mpr hne)
    refine (IntervalPage.covers_or_behind (byRound_pairwise _) hrow hcovers).resolve_right fun hbehind => ?_
    -- A last batch that ends before a round of the range is read on from.
    have hnumber := number_of_lt (hbehind.trans (hlast.trans_lt v.last_round.2))
    have hle : (row.batch_last_round : ℚ) + 1 ≤ (v.last_round.1 : ℚ) := by exact_mod_cast hbehind.trans_le hlast
    have htrunc : (buildPriceBatchesResponse db.maxBlockIndex ((db.ordered v).take v.limit) v times).truncated = true := by
      simpa [buildPriceBatchesResponse] using hfull
    have hon : (buildPriceBatchesResponse db.maxBlockIndex ((db.ordered v).take v.limit) v times).next =
        some ((row.batch_last_round : ℚ) + 1) := by
      rw [Response.next, if_pos htrunc]
      simp only [buildPriceBatchesResponse, List.getLast?_map, hrow, Option.map_some, Option.bind_some, toBatch, hnumber]
      exact if_pos hle
    exact absurd (hon.symm.trans hnext) (by simp)

/-! ### Every answer -/

/-- What is read is determined by the request. -/
theorem Reads.unique {rs' : List Response} (h : Reads db network q rs) (h' : Reads db network q rs') : rs' = rs := by
  induction h generalizing rs' with
  | last hres hnext =>
    cases h' with
    | last hres' _ => rw [Except.ok.inj (hres'.symm.trans hres)]
    | on hres' hnext' _ =>
      rw [Except.ok.inj (hres'.symm.trans hres), hnext] at hnext'
      cases hnext'
  | on hres hnext _ ih =>
    cases h' with
    | last hres' hnext' =>
      rw [Except.ok.inj (hres'.symm.trans hres), hnext] at hnext'
      cases hnext'
    | on hres' hnext' hrest' =>
      obtain rfl := Except.ok.inj (hres'.symm.trans hres)
      obtain rfl := Option.some.inj (hnext'.symm.trans hnext)
      rw [ih hrest']

/-- Answers to a range: each from a later round than the one before, and together of its published rounds. -/
structure Complete (db : Replica) (v : Accepted) (rs : List Response) : Prop where
  progress : rs.Pairwise (·.first_round < ·.first_round)
  from_first : ∀ res ∈ rs, v.first_round.1 ≤ res.first_round
  sound : ∀ r ≤ v.last_round.1, (∃ res ∈ rs, ∃ b ∈ res.batches, b.Carries r) → db.Publishes r
  covers : ∀ r, v.first_round.1 ≤ r → r ≤ v.last_round.1 → db.Publishes r → ∃ res ∈ rs, ∃ b ∈ res.batches, b.Carries r

theorem complete_last (hv : validatePriceBatchParams q = .ok v) (hres : getpricebatches (some db) network q = .ok res)
    (hnext : res.next = none) : Complete db v [res] where
  progress := List.pairwise_singleton _ _
  from_first := by simpa using (first_round_eq hv hres).ge
  sound r hr hcarried := by
    simp only [List.mem_singleton, exists_eq_left] at hcarried
    exact carried_published hv hres hr hcarried
  covers r hfirst hlast hpub := ⟨res, List.mem_singleton_self _, next_eq_none hv hres hnext hfirst hlast hpub⟩

/-- The answers behind one that names where to read on complete it. -/
theorem complete_on {v' : Accepted} (hv : validatePriceBatchParams q = .ok v)
    (hres : getpricebatches (some db) network q = .ok res) (hlt : v.first_round.1 < n) (hfirst' : v'.first_round.1 = n)
    (hlast' : v'.last_round = v.last_round)
    (hbefore : ∀ r, v.first_round.1 ≤ r → r < n → db.Publishes r → ∃ b ∈ res.batches, b.Carries r)
    (hrest : Complete db v' rs) : Complete db v (res :: rs) where
  progress := by
    refine List.pairwise_cons.mpr ⟨fun res' hres' => ?_, hrest.progress⟩
    have := hrest.from_first res' hres'
    rw [first_round_eq hv hres]
    omega
  from_first := by
    refine List.forall_mem_cons.mpr ⟨(first_round_eq hv hres).ge, fun res' hres' => ?_⟩
    have := hrest.from_first res' hres'
    omega
  sound r hr hcarried := by
    simp only [List.mem_cons, exists_eq_or_imp] at hcarried
    exact hcarried.elim (carried_published hv hres hr) (hrest.sound r (by rwa [hlast']))
  covers r hfirst hlast hpub := by
    rcases lt_or_ge r n with hr | hr
    · exact ⟨res, List.mem_cons_self, hbefore r hfirst hr hpub⟩
    · obtain ⟨res', hres', hcarried⟩ := hrest.covers r (by omega) (by rwa [hlast']) hpub
      exact ⟨res', List.mem_cons_of_mem _ hres', hcarried⟩

/-- By induction on the rounds that are left of the range. -/
theorem exists_reads (db : Replica) (network : String) (hv : validatePriceBatchParams q = .ok v) :
    ∃ rs, Reads db network q rs ∧ Complete db v rs := by
  induction hk : v.last_round.1 - v.first_round.1 using Nat.strong_induction_on generalizing q v with
  | h k ih =>
    obtain ⟨res, hres⟩ : ∃ res, getpricebatches (some db) network q = .ok res := by
      rw [getpricebatches, hv]
      exact ⟨_, rfl⟩
    cases hnext : res.next with
    | none => exact ⟨[res], .last hres hnext, complete_last hv hres hnext⟩
    | some d =>
      obtain ⟨n, rfl, hlt, hle, hbefore⟩ := next_eq_some hv hres hnext
      obtain ⟨v', hv', hfirst', hlast'⟩ := validate_next hv hle
      obtain ⟨rs, hreads, hrest⟩ := ih (v'.last_round.1 - v'.first_round.1) (by rw [hlast', hfirst']; omega) hv' rfl
      exact ⟨res :: rs, .on hres hnext hreads, complete_on hv hres hlt hfirst' hlast' hbefore hrest⟩

/-- A caller who reads on is through after finitely many answers, each from a later round than the one before,
    and has been told of exactly the rounds of its range that valid batches publish. -/
theorem published_rounds_read (db : Replica) (network : String) {q : Request} {v : Accepted}
    (hv : validatePriceBatchParams q = .ok v) :
    ∃ rs, (Reads db network q rs ∧ ∀ rs', Reads db network q rs' → rs' = rs) ∧
      rs.Pairwise (·.first_round < ·.first_round) ∧
      ∀ r, v.first_round.1 ≤ r → r ≤ v.last_round.1 →
        ((∃ res ∈ rs, ∃ b ∈ res.batches, b.Carries r) ↔ db.Publishes r) := by
  obtain ⟨rs, hreads, hcomplete⟩ := exists_reads db network hv
  exact ⟨rs, ⟨hreads, fun rs' hreads' => hreads.unique hreads'⟩, hcomplete.progress,
    fun r hfirst hlast => ⟨hcomplete.sound r hlast, hcomplete.covers r hfirst hlast⟩⟩

/-- Two batches that overlap and one inside the first, read one by one. -/
def overlappingBatches : Replica where
  prices := [⟨7, 0, "valid", some 1, some 5, some 5⟩, ⟨8, 0, "valid", some 2, some 3, some 2⟩,
    ⟨9, 0, "valid", some 4, some 8, some 5⟩]
  actions := []
  maxBlockIndex := 0
  decoder := none

/-- A request for eight rounds. -/
def oneToEight : Request := ⟨.number (some ((1 : ℕ) : ℚ)), .number (some ((8 : ℕ) : ℚ)), .number (some ((1 : ℕ) : ℚ))⟩

/-- It as it is accepted, one batch a page. -/
def oneByOne : Accepted := ⟨⟨1, by decide⟩, ⟨8, by decide⟩, 1, by decide, by decide, by decide⟩

theorem published_rounds_read_overlapping :
    ∃ rs, (Reads overlappingBatches "mainnet" oneToEight rs ∧
        ∀ rs', Reads overlappingBatches "mainnet" oneToEight rs' → rs' = rs) ∧
      rs.Pairwise (·.first_round < ·.first_round) ∧
      ∀ r, 1 ≤ r → r ≤ 8 → ((∃ res ∈ rs, ∃ b ∈ res.batches, b.Carries r) ↔ overlappingBatches.Publishes r) := by
  refine published_rounds_read overlappingBatches "mainnet" (v := oneByOne) ?_
  have hfirst : isRound (integerParam oneToEight.first_round) = some oneByOne.first_round := isRound_natCast _
  have hlast : isRound (integerParam oneToEight.last_round) = some oneByOne.last_round := isRound_natCast _
  have hlimit : limitParam oneToEight.limit = some ⟨1, le_refl 1⟩ := by
    simp [limitParam, oneToEight, positive, integerParam]
  simp only [validatePriceBatchParams, hfirst, hlast, hlimit, dif_pos oneByOne.ordered]
  rfl

end PriceBatches
