import XChainExplorer.Db.PagePreload
import XChainExplorer.Lib.SharedPool
import Mathlib.Data.String.Basic

/-! # A page of actions and single reads

    `getActionDataBatch` hands its distinct indexes to workers that share a cursor and the action cache, with a
    preload of the indexes the cache did not hold. Whatever the cache holds and in whatever order the workers
    go on, the page answers what single reads without a preload answer. -/

namespace PagePreload

open DbCache (ActionData isCacheableAction Key)
open SharedPool

/-- The bound of the action cache, `cacheSet`'s default. -/
def maxSize : ℕ := 1000

variable {D V A B : Type} [LinearOrder A] [LinearOrder B]

/-- What `getActionDataBatch` runs with: the readers, the coin of the request with its reorg generation, and
    the configured number of workers, zero where there is none. -/
structure Env (D V A B : Type) extends Loader D V A B where
  coin : String
  gen : ℕ := 0
  BATCH_CONCURRENCY : ℕ := 0

/-- The action cache, shared by every coin and generation. -/
abbrev Cache (V : Type) := List (Key String × Data V)

def Env.cacheKey (E : Env D V A B) (action_index : ℤ) : Key String := ⟨E.coin, E.gen, action_index⟩

/-- The distinct indexes the cache does not hold, looked up one after the other. -/
def Env.cold (E : Env D V A B) : Cache V → List ℤ → List ℤ
  | _, [] => []
  | cache, idx :: idxs => match Lru.get cache (E.cacheKey idx) with
    | (some _, cache) => E.cold cache idxs
    | (none, cache) => idx :: E.cold cache idxs

/-- The preload of a page over these tables, none where nothing is cold. -/
def Env.preload (E : Env D V A B) (db : Tables D) (cold : List ℤ) : Option Preload :=
  match (buildActionPreload E.toLoader cold).answered db with
  | .ret pre => pre
  | _ => none

/-- The workers of `getActionDataBatch` over these tables: a call looks the cache up when it begins, and keeps
    its response there when it may. A page reads with its preload, and `read` without any. -/
def Env.service (E : Env D V A B) (db : Tables D) : Service (Tables D) ℤ (Data V) (Cache V) where
  db := db
  find cache idx := Lru.get cache (E.cacheKey idx)
  keep cache idx data := if isCacheableAction data then Lru.set cache (E.cacheKey idx) data maxSize else cache
  read idx := readAction E.toLoader idx none
  page action_indexes cache :=
    { items := action_indexes.eraseDups
      read := fun idx => readAction E.toLoader idx (E.preload db (E.cold cache action_indexes.eraseDups)) }
  workers action_indexes :=
    min (if E.BATCH_CONCURRENCY = 0 then 8 else E.BATCH_CONCURRENCY) action_indexes.eraseDups.length

/-- One call of `getActionData` without a preload. -/
def Env.single (E : Env D V A B) (action_index : ℤ) : Page (Tables D) ℤ (Data V) :=
  { items := [action_index], read := fun idx => readAction E.toLoader idx none }

/-- Calls of `getActionData` without a preload, by the workers of a page. -/
def Env.singles (E : Env D V A B) (action_indexes : List ℤ) : Page (Tables D) ℤ (Data V) :=
  { items := action_indexes.eraseDups, read := fun idx => readAction E.toLoader idx none }

/-- Under the keys of this coin and generation the cache holds what the actions read over these tables. -/
def Env.Fresh (E : Env D V A B) (db : Tables D) (cache : Cache V) : Prop :=
  ∀ idx data, (E.cacheKey idx, data) ∈ cache →
    Reading.Reads db (E.service db).read (readAction E.toLoader idx none) data

variable {E : Env D V A B} {db : Tables D}

/-- A page reads each of its items as a single read does. -/
theorem alike_singles (hkeys : OneRowPerKey E.collations db) (action_indexes : List ℤ) (opened : Cache V) :
    ((E.service db).page action_indexes opened).Alike db (E.singles action_indexes) := by
  refine ⟨rfl, fun idx => ?_⟩
  obtain ⟨pre, hpre, hcovers⟩ := answered_preload E.toLoader hkeys (E.cold opened action_indexes.eraseDups)
  have hpreload : E.preload db (E.cold opened action_indexes.eraseDups) = pre := by
    unfold Env.preload
    rw [hpre]
  change (readAction E.toLoader idx (E.preload db _)).answered db = (readAction E.toLoader idx none).answered db
  rw [hpreload]
  cases pre with
  | none => rfl
  | some p => exact answered_readAction (hcovers p rfl).2 idx

theorem lawful_service (hkeys : OneRowPerKey E.collations db) : Lawful (E.service db) (E.Fresh db) where
  found cache idx data hfresh hfind := hfresh idx data (Lru.mem_of_get hfind)
  find cache idx hfresh := fun other data hmem => hfresh other data (Lru.mem_of_mem_get hmem)
  keep cache idx data hfresh hreads := by
    intro other kept hmem
    change (E.cacheKey other, kept) ∈ (if isCacheableAction data then _ else _) at hmem
    split at hmem
    · rcases Lru.mem_of_mem_set hmem with heq | hmem
      · cases heq
        exact hreads
      · exact hfresh other kept hmem
    · exact hfresh other kept hmem
  page action_indexes opened :=
    ⟨fun i => List.mem_eraseDups, (alike_singles hkeys action_indexes opened).read⟩
  workers action_indexes hne := by
    have hlen : 0 < action_indexes.eraseDups.length := by
      obtain ⟨i, hi⟩ := List.exists_mem_of_ne_nil _ hne
      exact List.length_pos_of_mem (List.mem_eraseDups.mpr hi)
    refine lt_min ?_ hlen
    split <;> omega

/-- What a call of `getActionData` without a preload answers over a fresh cache. -/
theorem single_answer (hkeys : OneRowPerKey E.collations db) {idx : ℤ} {cache : Cache V} (hfresh : E.Fresh db cache)
    {q : Pool (Tables D) ℤ (Data V) (Cache V)} (hrun : Run (E.service db) (E.Fresh db) (E.single idx) (init 1 cache) q)
    (hdone : Done q) :
    ∃ data, q.results idx = some data ∧ Reading.Reads db (E.service db).read (readAction E.toLoader idx none) data :=
  results_of_done (lawful_service hkeys) Nat.one_pos (fun _ => rfl) hfresh hrun hdone (List.mem_singleton_self idx)

/-- Whatever the cache holds, the workers of a page come to the results and the cache that the same workers come
    to by calls without a preload. Over a fresh cache the page answers for each index what one such call answers,
    whenever it is made, and a page whose indexes can be read comes to its end from wherever it is. -/
theorem page_eq_single (hkeys : OneRowPerKey E.collations db) (action_indexes : List ℤ) (opened cache : Cache V) :
    (∀ q, Run (E.service db) (fun _ => True) ((E.service db).page action_indexes opened)
        (init ((E.service db).workers action_indexes) cache) q → Done q →
      ∃ q', Run (E.service db) (fun _ => True) (E.singles action_indexes)
        (init ((E.service db).workers action_indexes) cache) q' ∧ Done q' ∧ q'.results = q.results ∧
        q'.memory = q.memory) ∧
    (E.Fresh db cache → ∀ q, Run (E.service db) (E.Fresh db) ((E.service db).page action_indexes opened)
        (init ((E.service db).workers action_indexes) cache) q →
      (Done q → ∀ idx ∈ action_indexes, ∃ data, q.results idx = some data ∧ ∀ cache', E.Fresh db cache' → ∀ q',
        Run (E.service db) (E.Fresh db) (E.single idx) (init 1 cache') q' → Done q' → q'.results idx = some data) ∧
      ((∀ idx ∈ action_indexes, ∃ cache' q', E.Fresh db cache' ∧
          Run (E.service db) (E.Fresh db) (E.single idx) (init 1 cache') q' ∧ Done q') →
        ∃ q', Run (E.service db) (E.Fresh db) ((E.service db).page action_indexes opened) q q' ∧ Done q')) := by
  have hlawful : Lawful (E.service db) (E.Fresh db) := lawful_service hkeys
  obtain ⟨hitems, hread⟩ := hlawful.page action_indexes opened
  refine ⟨fun q hrun hdone => ?_, fun hfresh q hrun => ⟨fun hdone idx hidx => ?_, fun hsingle => ?_⟩⟩
  · obtain ⟨q', hrun', halike⟩ := Alike.run (alike_singles hkeys action_indexes opened) hrun (.refl _ _)
    exact ⟨q', hrun', halike.done hdone, halike.results.symm, halike.memory.symm⟩
  · obtain ⟨data, hdata, hreads⟩ := results_of_done hlawful (hlawful.workers action_indexes (List.ne_nil_of_mem hidx))
      hread hfresh hrun hdone ((hitems idx).mpr hidx)
    refine ⟨data, hdata, fun cache' hfresh' q' hrun' hdone' => ?_⟩
    obtain ⟨data', hdata', hreads'⟩ := single_answer hkeys hfresh' hrun' hdone'
    rw [hdata', hreads'.unique hreads]
  · have hinv : Inv (E.service db) (E.Fresh db) ((E.service db).page action_indexes opened) q :=
      .run hlawful hread hrun (.init hfresh)
    refine hinv.exists_done hlawful hread fun idx hidx => ?_
    obtain ⟨cache', q', hfresh', hrun', hdone'⟩ := hsingle idx ((hitems idx).mp hidx)
    obtain ⟨data, -, hreads⟩ := single_answer hkeys hfresh' hrun' hdone'
    exact ⟨data, hreads⟩

/-- A send and a batch of the transaction `aa`. The batch asks for the send and calls itself by the hash in
    capitals. -/
def batchTables : Tables Unit where
  actions := [
    { action_index := 7, action_id := 1, tx_index := some 3 }, { action_index := 8, action_id := 2, tx_index := some 3 }]
  transactions := [{ tx_index := 3, block_index := 100, tx_hash_id := 5, data := some "BATCH|0|SEND" }]
  fees := [{ action_index := 7, gas_cost := some 21 }]
  index_actions := [(1, "SEND"), (2, "BATCH")]
  index_transactions := [(5, "aa")]
  domain := ()

def batchHandlers : Handlers Unit (List (Option String)) where
  effects _ _ := true
  afterEffects _ data := .ret data
  queries
    | "BATCH", _, data => .nested [7] fun members => .ret { data with payload := { data.payload with
        tx_hash := some "AA", own := members.map fun member => member.payload.tx_data.join } }
    | _, _, data => .ret { data with payload := { data.payload with tx_hash := some "aa" } }
  supplements _ _ data := .ret data
  own := []

def batchEnv : Env Unit (List (Option String)) String String where
  collations := { general := String.toLower, binary := id, decimal := fun _ => 0 }
  handlers := batchHandlers
  coin := "BTC"

theorem page_eq_single_batch : OneRowPerKey batchEnv.collations batchTables ∧
    ∀ q, Run (batchEnv.service batchTables) (batchEnv.Fresh batchTables)
      ((batchEnv.service batchTables).page [8, 7, 8, 9] []) (init 3 []) q → Done q →
    ∀ idx ∈ [8, 7, 8, 9], ∃ data, q.results idx = some data ∧ ∀ cache', batchEnv.Fresh batchTables cache' → ∀ q',
      Run (batchEnv.service batchTables) (batchEnv.Fresh batchTables) (batchEnv.single idx) (init 1 cache') q' →
        Done q' → q'.results idx = some data := by
  have hkeys : OneRowPerKey batchEnv.collations batchTables := ⟨by decide, by decide, by decide⟩
  refine ⟨hkeys, fun q hrun => ?_⟩
  exact ((page_eq_single hkeys [8, 7, 8, 9] [] []).2 (fun _ _ h => nomatch h) q hrun).1

end PagePreload
