import XChainExplorer.Explorer.KeysetPaging
import XChainExplorer.Lib.Hex
import XChainExplorer.Lib.JoinedFields
import XChainExplorer.Lib.KeyedMap
import XChainExplorer.Lib.Runs

/-! # The result cache of the list methods

    `getData` wraps three list methods in a short-lived cache. The key is joined from the request as
    it came, before `getQuery` looks at it, and the answer is stored under the key that was looked
    up. Between the two the database is read, so requests interleave. -/

namespace ResultCache
open QuerySql

/-! ### The request -/

/-- The methods of `RESULT_CACHES`, each with a cache of its own. -/
inductive Method where
  | getHolders
  | getTokens
  | getBalances
  deriving DecidableEq

/-- The name of a method. -/
def Method.name : Method → String
  | .getHolders => "getHolders"
  | .getTokens => "getTokens"
  | .getBalances => "getBalances"

/-- `config.type`. -/
inductive Transport where
  | api
  | explorer
  deriving DecidableEq

/-- The name of a transport. -/
def Transport.text : Transport → String
  | .api => "api"
  | .explorer => "explorer"

/-- `config.data.type`: what the route of the method filters by, `false` on a bare list. -/
inductive FilterType where
  | all
  | address
  | token
  | block
  | subtoken
  deriving DecidableEq

/-- The name of a filter's type. -/
def FilterType.text : FilterType → String
  | .all => "false"
  | .address => "address"
  | .token => "token"
  | .block => "block"
  | .subtoken => "subtoken"

/-- A key of `COIN_SUPPORTED`. -/
structure CoinCode where
  name : String
  barFree : '|' ∉ name.toList
  deriving DecidableEq

/-- A parameter of the query string: one sent more than once is an array. -/
inductive QueryValue where
  | absent
  | given (s : String)
  | repeated (first second : String) (rest : List String)
  deriving DecidableEq

/-- The text `join` makes of it. -/
def QueryValue.text : QueryValue → String
  | .absent => ""
  | .given s => s
  | .repeated first second rest => ",".intercalate (first :: second :: rest)

/-- The parameter as the checks of a single one take it: an array is refused, and so is its text,
    which holds a comma. -/
def QueryValue.raw : QueryValue → Option String
  | .absent => none
  | v => some v.text

/-- The parameters of a request that a page depends on. -/
structure Query where
  page : QueryValue := .absent
  limit : QueryValue := .absent
  sortorder : QueryValue := .absent
  offset : QueryValue := .absent
  start : QueryValue := .absent
  length : QueryValue := .absent
  action : QueryValue := .absent
  total : QueryValue := .absent
  before : QueryValue := .absent
  after : QueryValue := .absent
  deriving DecidableEq

/-- They in the order in which the key joins them. -/
def Query.params (q : Query) : List QueryValue :=
  [q.page, q.limit, q.sortorder, q.offset, q.start, q.length, q.action, q.total, q.before, q.after]

/-- A request as it reaches the cache: the path segment is decoded and canonical where it names an
    address or a known ticker. -/
structure Request where
  method : Method
  coin : CoinCode
  type : Transport
  dataType : FilterType
  search : Option String := none
  query : Query := {}
  deriving DecidableEq

/-- What is taken as it was sent. -/
def Request.texts (r : Request) : List String := r.search.getD "" :: r.query.params.map QueryValue.text

/-! ### The key -/

/-- The reading of `resultCacheGeneration`: the tip and the hashes of its block, where it has any. -/
inductive Generation where
  | none
  | tip (height : ℕ) (identity : Option (Option Hex.Bytes × Option Hex.Bytes))

/-- The tip as the key spells it. -/
def Generation.text : Generation → String
  | .none => "none"
  | .tip height Option.none => height.repr
  | .tip height (some (ledger, actions)) =>
    height.repr ++ ":" ++ (ledger.elim "" Hex.encode ++ "/" ++ actions.elim "" Hex.encode)

/-- The fields nobody outside writes. -/
def Request.scope (r : Request) (reorgGen : ℕ) (gen : Generation) : List String :=
  [r.coin.name, reorgGen.repr, gen.text, r.type.text, r.dataType.text]

/-- The key of a request. -/
def Request.cacheKey (r : Request) (reorgGen : ℕ) (gen : Generation) : String :=
  "|".intercalate (r.scope reorgGen gen ++ r.texts)

/-! ### What getQuery refuses -/

/-- The parameters as the page reads them. -/
def Query.apiQuery (q : Query) : ApiQuery where
  limit := q.limit.raw
  page := q.page.raw
  sortorder := q.sortorder.raw
  before := q.before.raw
  after := q.after.raw

/-- The explorer lists that are paged by row position. -/
def Request.sliced (r : Request) : Bool :=
  r.method = .getBalances || r.method = .getHolders ||
    (r.method = .getTokens && (r.dataType = .token || r.dataType = .subtoken))

/-- The cursor of an explorer page. -/
def Request.checkOffset (r : Request) : Except DbInputError Unit :=
  if !r.sliced && r.query.offset.text ≠ "" && (safeIntegerParam r.query.offset.text).isNone then
    .error ⟨"Invalid offset", "INVALID_OFFSET"⟩
  else .ok ()

/-- The refusals of `getQuery`. -/
def Request.getQuery (r : Request) : Except DbInputError Unit :=
  match r.type with
  | .api => do
    let _ ← QuerySql.getQuery r.method.name r.query.apiQuery
    return ()
  | .explorer => do
    let _ ← querySortOrder r.query.sortorder.raw .desc
    let _ ← queryInteger r.query.start.raw "start" 0 0 "INVALID_START"
    let _ ← queryInteger r.query.length.raw "length" 10 1 "INVALID_LENGTH"
    let _ ← queryInteger r.query.total.raw "total" 0 0 "INVALID_TOTAL"
    r.checkOffset

/-! ### The machine -/

/-- A stored answer. `request` is history: whose answer it is. -/
structure Entry (D : Type*) where
  at_ : ℤ
  answer : D
  request : Request

/-- A request that missed the cache and reads the database. -/
structure Task where
  cacheKey : String
  request : Request

/-- The settings of each cache: how long an entry is live, and how many there may be. -/
structure Settings where
  ttl : Method → ℤ
  max : Method → ℤ

/-- Answers by their keys, the oldest first. -/
abbrev Cache (D : Type*) := AList fun _ : String => Entry D

/-- The caches of the process. `served` is history: each hit, with the request it was served to. -/
structure State (D : Type*) where
  reorgGen : CoinCode → ℕ
  caches : Method → Cache D
  tasks : List Task
  served : List (Request × Entry D)

variable {D : Type*}

/-- Nothing is cached and nothing is in flight. -/
def State.init : State D := { reorgGen := fun _ => 0, caches := fun _ => ∅, tasks := [], served := [] }

/-- What reaches the cache. -/
inductive Event (D : Type*) where
  /-- A reorg of the coin is seen. -/
  | reorg (coin : CoinCode)
  /-- A request arrives; a failed tip probe leaves it no generation. -/
  | request (r : Request) (gen : Option Generation) (now : ℤ)
  /-- The database answers the `i`-th of the requests in flight. -/
  | answered (i : ℕ) (answer : D) (now : ℤ)
  /-- The read throws. -/
  | failed (i : ℕ)

/-- A request is served from the cache or goes to the database. -/
def resultCacheLookup (env : Settings) (s : State D) (r : Request) (gen : Generation) (now : ℤ) : State D :=
  let cacheKey := r.cacheKey (s.reorgGen r.coin) gen
  match ((s.caches r.method).lookup cacheKey).filter fun hit => now - hit.at_ < env.ttl r.method with
  | some hit => { s with served := s.served ++ [(r, hit)] }
  | none => { s with tasks := s.tasks ++ [⟨cacheKey, r⟩] }

/-- The cache without its oldest entry. -/
def dropOldest (cache : Cache D) : Cache D :=
  match cache.keys.head? with
  | some oldest => cache.erase oldest
  | none => cache

/-- An entry stored, the oldest making room. -/
def resultCacheStore (max : ℤ) (cache : Cache D) (cacheKey : String) (entry : Entry D) : Cache D :=
  KeyedMap.assign (if max ≤ cache.keys.length then dropOldest cache else cache) cacheKey entry

/-- The database answered: the answer is kept under the key that was looked up. -/
def State.store (env : Settings) (s : State D) (task : Task) (answer : D) (now : ℤ) : State D :=
  let method := task.request.method
  { s with
    caches := Function.update s.caches method
      (resultCacheStore (env.max method) (s.caches method) task.cacheKey ⟨now, answer, task.request⟩) }

/-- A request that is answered. -/
def State.drop (s : State D) (i : ℕ) : State D := { s with tasks := s.tasks.eraseIdx i }

/-- A request `getQuery` refuses throws, so its answer never comes. -/
def step (env : Settings) (s : State D) : Event D → Option (State D)
  | .reorg coin => some { s with reorgGen := Function.update s.reorgGen coin (s.reorgGen coin + 1) }
  | .request _ none _ => some s
  | .request r (some gen) now => some (resultCacheLookup env s r gen now)
  | .answered i answer now =>
    (s.tasks[i]?.filter fun task => task.request.getQuery.toBool).map fun task =>
      (s.store env task answer now).drop i
  | .failed i => some (s.drop i)

/-- The requests of a run. -/
def requests (es : List (Event D)) : List Request :=
  es.filterMap fun
    | .request r _ _ => some r
    | _ => none

/-! ### Keys -/

/-- No value of the path or the query string holds a bar. -/
def Request.Plain (r : Request) : Prop := JoinedFields.Free '|' r.texts

theorem encode_barFree (bytes : Hex.Bytes) : '|' ∉ (Hex.encode bytes).toList := by
  rw [Hex.encode, String.toList_ofList, Hex.encodeChars]
  intro h
  obtain ⟨b, -, hb⟩ := List.mem_flatMap.mp h
  have hdigit : ∀ n < 16, Hex.digit n ≠ '|' := by decide
  rcases List.mem_pair.mp hb with hb | hb
  · exact hdigit _ (Nat.div_lt_of_lt_mul b.toNat_lt) hb.symm
  · exact hdigit _ (Nat.mod_lt _ (by decide)) hb.symm

theorem Generation.text_barFree (gen : Generation) : '|' ∉ gen.text.toList := by
  have hhash (hash : Option Hex.Bytes) : '|' ∉ (hash.elim "" Hex.encode).toList := by
    cases hash with
    | none => decide
    | some bytes => exact encode_barFree bytes
  cases gen with
  | none => decide
  | tip height identity =>
    have hheight : '|' ∉ _ := JoinedFields.separator_notMem_repr rfl height
    rcases identity with _ | ⟨ledger, actions⟩
    · exact hheight
    · simp [-Nat.toList_repr, Generation.text, hheight, hhash]

theorem Request.scope_free (r : Request) (n : ℕ) (gen : Generation) : JoinedFields.Free '|' (r.scope n gen) := by
  have hn : '|' ∉ _ := JoinedFields.separator_notMem_repr rfl n
  have htype : '|' ∉ r.type.text.toList := by cases r.type <;> decide
  have hdata : '|' ∉ r.dataType.text.toList := by cases r.dataType <;> decide
  simp [-Nat.toList_repr, Request.scope, r.coin.barFree, hn, gen.text_barFree, htype, hdata]

theorem Transport.text_injective : Function.Injective Transport.text := by
  intro a b
  cases a <;> cases b <;> decide

theorem FilterType.text_injective : Function.Injective FilterType.text := by
  intro a b
  cases a <;> cases b <;> decide

variable {r r' : Request} {n n' : ℕ} {gen gen' : Generation}

/-- Equal keys agree on what the code itself writes into them, and on the rest as a whole. -/
theorem cacheKey_eq (h : r.cacheKey n gen = r'.cacheKey n' gen') :
    (r.coin = r'.coin ∧ r.type = r'.type ∧ r.dataType = r'.dataType) ∧
      "|".intercalate r.texts = "|".intercalate r'.texts := by
  obtain ⟨hscope, htexts⟩ := JoinedFields.intercalate_append_inj rfl (r.scope_free n gen) (r'.scope_free n' gen')
    rfl (List.cons_ne_nil _ _) (List.cons_ne_nil _ _) h
  simp only [Request.scope, List.cons.injEq, and_true] at hscope
  obtain ⟨hcoin, -, -, htype, hdata⟩ := hscope
  have hname : r.coin = r'.coin := by
    cases hc : r.coin
    cases hc' : r'.coin
    simpa [hc, hc'] using hcoin
  exact ⟨⟨hname, Transport.text_injective htype, FilterType.text_injective hdata⟩, htexts⟩

theorem texts_length (r : Request) : r.texts.length = 11 := rfl

/-- One of the two being free of bars, equal keys come from equal texts. -/
theorem texts_eq_of_cacheKey (hplain : r.Plain ∨ r'.Plain) (h : r.cacheKey n gen = r'.cacheKey n' gen') :
    r.texts = r'.texts := by
  have hjoin := (cacheKey_eq h).2
  have hlen : r.texts.length = r'.texts.length := by rw [texts_length, texts_length]
  rcases hplain with hr | hr'
  · exact JoinedFields.intercalate_inj_of_length rfl hr hlen hjoin
  · exact (JoinedFields.intercalate_inj_of_length rfl hr' hlen.symm hjoin.symm).symm

/-! ### Runs -/

variable {env : Settings} {s t : State D} {es : List (Event D)} {R : Request → Prop}

/-- The key is one of the request, for some reading of the tip. -/
def KeyOf (key : String) (r : Request) : Prop := ∃ n gen, key = r.cacheKey n gen

/-- What is filed is filed under a key of a request among `R`, to its method. -/
structure Filed (R : Request → Prop) (s : State D) : Prop where
  entry : ∀ m key e, (s.caches m).lookup key = some e → R e.request ∧ e.request.method = m ∧ KeyOf key e.request
  task : ∀ task ∈ s.tasks, R task.request ∧ KeyOf task.cacheKey task.request
  served : ∀ hit ∈ s.served, R hit.1 ∧ R hit.2.request ∧ hit.2.request.method = hit.1.method ∧
    ∃ key, KeyOf key hit.1 ∧ KeyOf key hit.2.request

theorem lookup_dropOldest {cache : Cache D} {key : String} {e : Entry D}
    (h : (dropOldest cache).lookup key = some e) : cache.lookup key = some e := by
  unfold dropOldest at h
  split at h
  · rw [KeyedMap.lookup_erase] at h
    split_ifs at h
    exact h
  · exact h

theorem lookup_store {max : ℤ} {cache : Cache D} {key key' : String} {e e' : Entry D}
    (h : (resultCacheStore max cache key e).lookup key' = some e') :
    (key' = key ∧ e' = e) ∨ cache.lookup key' = some e' := by
  rw [resultCacheStore, KeyedMap.lookup_assign] at h
  split_ifs at h with hkey hmax
  · exact .inl ⟨hkey, (Option.some.inj h).symm⟩
  · exact .inr (lookup_dropOldest h)
  · exact .inr h

theorem Filed.init : Filed R (State.init : State D) where
  entry m key e h := by simp [State.init] at h
  task task h := by simp [State.init] at h
  served hit h := by simp [State.init] at h

theorem Filed.lookup (hs : Filed R s) (hr : R r) (now : ℤ) : Filed R (resultCacheLookup env s r gen now) := by
  unfold resultCacheLookup
  dsimp only
  have hkey : KeyOf (r.cacheKey (s.reorgGen r.coin) gen) r := ⟨_, _, rfl⟩
  split
  case h_1 hit h =>
    obtain ⟨hR, hmethod, hof⟩ := hs.entry _ _ _ (Option.filter_eq_some_iff.mp h).1
    refine ⟨hs.entry, hs.task, fun a ha => ?_⟩
    rcases List.mem_append.mp ha with ha | ha
    · exact hs.served a ha
    · rw [List.mem_singleton.mp ha]
      exact ⟨hr, hR, hmethod, _, hkey, hof⟩
  · refine ⟨hs.entry, fun a ha => ?_, hs.served⟩
    rcases List.mem_append.mp ha with ha | ha
    · exact hs.task a ha
    · rw [List.mem_singleton.mp ha]
      exact ⟨hr, hkey⟩

theorem Filed.store {task : Task} {answer : D} {now : ℤ} (hs : Filed R s) (htask : task ∈ s.tasks) :
    Filed R (s.store env task answer now) := by
  refine ⟨fun m key e h => ?_, hs.task, hs.served⟩
  obtain ⟨hR, hof⟩ := hs.task task htask
  by_cases hm : m = task.request.method
  · subst hm
    simp only [State.store, Function.update_self] at h
    rcases lookup_store h with ⟨rfl, rfl⟩ | h
    · exact ⟨hR, rfl, hof⟩
    · exact hs.entry _ _ _ h
  · simp only [State.store, Function.update_of_ne hm] at h
    exact hs.entry _ _ _ h

theorem Filed.drop (hs : Filed R s) (i : ℕ) : Filed R (s.drop i) :=
  ⟨hs.entry, fun a ha => hs.task a (List.mem_of_mem_eraseIdx ha), hs.served⟩

/-- What a step may do: each keeps the caches filed. -/
theorem Filed.step {e : Event D} (hs : Filed R s) (hr : ∀ r gen now, e = .request r gen now → R r)
    (h : step env s e = some t) : Filed R t := by
  cases e with
  | reorg coin => exact Option.some.inj h ▸ ⟨hs.entry, hs.task, hs.served⟩
  | request r gen now =>
    cases gen with
    | none => exact Option.some.inj h ▸ hs
    | some gen => exact Option.some.inj h ▸ hs.lookup (hr r _ now rfl) now
  | answered i answer now =>
    obtain ⟨task, htask, rfl⟩ := Option.map_eq_some_iff.mp h
    exact (hs.store (List.mem_of_getElem? (Option.filter_eq_some_iff.mp htask).1)).drop i
  | failed i => exact Option.some.inj h ▸ hs.drop i

theorem filed_run (hrun : Runs.run (step env) .init es = some s) : Filed (· ∈ requests es) s := by
  refine Runs.run_inv_mem (fun u e t he hu ht => hu.step ?_ ht) Filed.init hrun
  intro r gen now hreq
  exact List.mem_filterMap.mpr ⟨e, he, by rw [hreq]⟩

/-- Of any two different requests to one method, coin, transport and filter type, one has no bar, and
    some value of theirs differs as a text: an absent parameter has the text of an empty one, and a
    repeated one that of its values with commas between them. -/
def Apart (R : List Request) : Prop :=
  ∀ r ∈ R, ∀ r' ∈ R, r ≠ r' → r.method = r'.method → r.coin = r'.coin → r.type = r'.type →
    r.dataType = r'.dataType → r.texts ≠ r'.texts ∧ (r.Plain ∨ r'.Plain)

instance : DecidablePred Apart := fun R =>
  inferInstanceAs (Decidable (∀ r ∈ R, ∀ r' ∈ R, r ≠ r' → r.method = r'.method → r.coin = r'.coin →
    r.type = r'.type → r.dataType = r'.dataType → r.texts ≠ r'.texts ∧
      ((∀ f ∈ r.texts, '|' ∉ f.toList) ∨ ∀ f ∈ r'.texts, '|' ∉ f.toList)))

/-- A hit is served to the request whose answer it is. -/
theorem served_same (hrun : Runs.run (step env) .init es = some s) (hapart : Apart (requests es)) :
    ∀ hit ∈ s.served, hit.2.request = hit.1 := by
  intro hit hmem
  obtain ⟨hserved, hstored, hmethod, key, ⟨n, gen, hkey⟩, ⟨n', gen', hkey'⟩⟩ := (filed_run hrun).served hit hmem
  by_contra hne
  have heq := hkey'.symm.trans hkey
  obtain ⟨hcoin, htype, hdata⟩ := (cacheKey_eq heq).1
  obtain ⟨htexts, hplain⟩ := hapart _ hstored _ hserved hne hmethod hcoin htype hdata
  exact htexts (texts_eq_of_cacheKey hplain heq)

/-! ### Requests with a bar -/

theorem cacheKey_congr (hcoin : r.coin = r'.coin) (htype : r.type = r'.type) (hdata : r.dataType = r'.dataType)
    (htexts : "|".intercalate r.texts = "|".intercalate r'.texts) (n : ℕ) (gen : Generation) :
    r.cacheKey n gen = r'.cacheKey n gen := by
  have hscope : r.scope n gen = r'.scope n gen := by rw [Request.scope, Request.scope, hcoin, htype, hdata]
  have hjoin (l : List String) (hl : l ≠ []) : "|".intercalate (r'.scope n gen ++ l) =
      "|".intercalate (r'.scope n gen) ++ "|" ++ "|".intercalate l :=
    String.intercalate_append_of_ne_nil (List.cons_ne_nil _ _) hl
  rw [Request.cacheKey, Request.cacheKey, hscope, hjoin r.texts (List.cons_ne_nil _ _),
    hjoin r'.texts (List.cons_ne_nil _ _), htexts]

theorem lookup_hit {now : ℤ} {e : Entry D}
    (h : ((s.caches r.method).lookup (r.cacheKey (s.reorgGen r.coin) gen)).filter
      (fun hit => now - hit.at_ < env.ttl r.method) = some e) :
    resultCacheLookup env s r gen now = { s with served := s.served ++ [(r, e)] } := by
  rw [resultCacheLookup, h]

/-- A request is served the answer stored for another one with its key. -/
theorem served_of_cacheKey (r r' : Request) (env : Settings) (answer : D) (hread : r.getQuery.toBool = true)
    (httl : 0 < env.ttl r.method) (hmethod : r'.method = r.method)
    (hkey : ∀ n gen, r'.cacheKey n gen = r.cacheKey n gen) :
    ∃ (es : List (Event D)) (s : State D), requests es = [r, r'] ∧ Runs.run (step env) .init es = some s ∧
      ∃ hit ∈ s.served, hit.1 = r' ∧ hit.2.request = r := by
  let missed : State D := { State.init with tasks := [⟨r.cacheKey 0 .none, r⟩] }
  have hmiss : step env (State.init : State D) (.request r (some .none) 0) = some missed := rfl
  let stored : State D := (missed.store env ⟨r.cacheKey 0 .none, r⟩ answer 0).drop 0
  have hstore : step env missed (.answered 0 answer 0) = some stored := by
    simp [step, missed, stored, hread]
  have hentry : (stored.caches r.method).lookup (r.cacheKey 0 .none) = some ⟨0, answer, r⟩ := by
    simp [stored, State.store, State.drop, resultCacheStore, KeyedMap.lookup_assign]
  have hlive : ((stored.caches r'.method).lookup (r'.cacheKey (stored.reorgGen r'.coin) .none)).filter
      (fun hit => 0 - hit.at_ < env.ttl r'.method) = some ⟨0, answer, r⟩ := by
    have hgen : stored.reorgGen r'.coin = 0 := rfl
    rw [hgen, hkey, hmethod, hentry]
    simp [httl]
  let hit : State D := { stored with served := stored.served ++ [(r', ⟨0, answer, r⟩)] }
  have hhit : step env stored (.request r' (some .none) 0) = some hit := congrArg some (lookup_hit hlive)
  refine ⟨[.request r (some .none) 0, .answered 0 answer 0, .request r' (some .none) 0], hit, rfl, ?_, ?_⟩
  · exact Runs.run_cons.mpr ⟨_, hmiss, Runs.run_cons.mpr ⟨_, hstore, Runs.run_cons.mpr ⟨_, hhit, rfl⟩⟩⟩
  · exact ⟨_, List.mem_singleton_self _, rfl, rfl⟩

/-! ### Two requests of the holders list -/

/-- Fifteen seconds and 500 entries. -/
def defaults : Settings := ⟨fun _ => 15000, fun _ => 500⟩

/-- `/BTC/api/holders/XCP%7C2`. -/
def barredTick : Request where
  method := .getHolders
  coin := ⟨"BTC", by decide⟩
  type := .api
  dataType := .token
  search := some "XCP|2"

/-- `/BTC/api/holders/XCP?page=2&action=%7C`. -/
def secondPage : Request where
  method := .getHolders
  coin := ⟨"BTC", by decide⟩
  type := .api
  dataType := .token
  search := some "XCP"
  query := { page := .given "2", action := .given "|" }

/-- The holders of a token are asked for, and those of another one are served. -/
theorem secondPage_served :
    ¬∀ (es : List (Event (List ℕ))) (s : State (List ℕ)), Runs.run (step defaults) .init es = some s →
      ∀ hit ∈ s.served, hit.2.request = hit.1 := by
  intro hclaim
  obtain ⟨es, s, -, hrun, hit, hmem, hserved, hstored⟩ := served_of_cacheKey barredTick secondPage
    defaults ([] : List ℕ) (by decide +kernel) (by decide) rfl (cacheKey_congr rfl rfl rfl (by decide +kernel))
  have heq := hclaim es s hrun hit hmem
  rw [hserved, hstored] at heq
  exact absurd heq (by decide)

theorem secondPage_served_again :
    ∃ (es : List (Event (List ℕ))) (s : State (List ℕ)), requests es = [secondPage, secondPage] ∧ s.served ≠ [] ∧
      ∀ hit ∈ s.served, hit.2.request = hit.1 := by
  obtain ⟨es, s, hes, hrun, hit, hmem, -⟩ := served_of_cacheKey secondPage secondPage defaults
    ([] : List ℕ) (by decide +kernel) (by decide) rfl (fun _ _ => rfl)
  exact ⟨es, s, hes, List.ne_nil_of_mem hmem, served_same hrun (hes ▸ by decide +kernel)⟩

end ResultCache
