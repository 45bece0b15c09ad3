import XChainExplorer.Explorer.AddressSpellings
import XChainExplorer.Lib.Grouping
import XChainExplorer.Lib.UriComponent
import XChainExplorer.Lib.WorkerPool
import Mathlib.Data.Bool.AllAny
import Mathlib.Data.List.Sort

/-! # Batch reads

    One request for the balances of several addresses is answered by driving the route of each address
    inside the process, a few at a time. Each address gets its own entry, and the entry of an address is
    what its own requests are answered with. -/

namespace BatchReads

open AddressShape

/-! ### JSON -/

/-- A JSON value as it was parsed. A number past the doubles is `none`. -/
inductive Json where
  | null
  | bool (b : Bool)
  | number (v : Option ℚ)
  | string (s : JsString)
  | array (xs : List Json)
  | object (fields : List (JsString × Json))

/-- A JSON string of ASCII text. -/
def text (s : String) : Json := .string (units s)

/-- A property, `none` where it is `undefined`. -/
def Json.property (name : JsString) : Json → Option Json
  | .object fields => (fields.find? fun field => field.1 = name).map (·.2)
  | _ => none

/-- What a condition takes for true: all but `null`, `false`, zero and the empty string. -/
def Json.truthy : Json → Bool
  | .null => false
  | .bool b => b
  | .number v => v ≠ some 0
  | .string s => s ≠ []
  | .array _ | .object _ => true

/-- The property where it is truthy, or else the default. -/
def Json.propertyOr (name : JsString) (default : Json) (j : Json) : Json :=
  ((j.property name).filter Json.truthy).getD default

/-- `String` of a value, and the fixed notation of a number of mathjs, which throws on what it cannot read. -/
structure Runtime where
  String : Json → JsString
  fixed : Option Json → Option JsString

/-- An object that is tagged as a number of mathjs. -/
def tagged (fields : List (JsString × Json)) : Bool :=
  match (Json.object fields).property (units "mathjs") with
  | some (.string s) => s = units "BigNumber"
  | _ => false

/-- A tagged object as it is written. -/
def Runtime.bigNumber (R : Runtime) (fields : List (JsString × Json)) : Json :=
  let value := (Json.object fields).property (units "value")
  match R.fixed value, value with
  | some s, _ => .string s
  | none, none | none, some .null => .null
  | none, some v => .string (R.String v)

mutual

/-- What is read back from `jsonStringify`. -/
def Runtime.stringified (R : Runtime) : Json → Json
  | .number none => .null
  | .array xs => .array (R.stringifiedItems xs)
  | .object fields => if tagged fields then R.bigNumber fields else .object (R.stringifiedFields fields)
  | j => j

/-- The items of an array, each as it is stringified. -/
def Runtime.stringifiedItems (R : Runtime) : List Json → List Json
  | [] => []
  | x :: xs => R.stringified x :: R.stringifiedItems xs

/-- The fields of an object, each value as it is stringified. -/
def Runtime.stringifiedFields (R : Runtime) : List (JsString × Json) → List (JsString × Json)
  | [] => []
  | field :: fields => (field.1, R.stringified field.2) :: R.stringifiedFields fields

end

/-- `object[key] = value`, with the keys in the order they were made. -/
def assign (object : List (JsString × Json)) (key : JsString) (value : Json) : List (JsString × Json) :=
  if object.any fun field => field.1 = key then object.map fun field => if field.1 = key then (key, value) else field
  else object ++ [(key, value)]

/-- A key that counts as a position, below `2 ^ 32 - 1`. -/
def isArrayIndex (key : JsString) : Bool := canonicalDecimal key && decimalValue key < 2 ^ 32 - 1

/-- The own keys in the order they are written: positions first, ascending. -/
def ownOrder (keys : List JsString) : List JsString :=
  (keys.filter isArrayIndex).insertionSort (fun a b => decimalValue a ≤ decimalValue b) ++
    keys.filter fun key => !isArrayIndex key

/-- An object under its keys. -/
def ownFields (object : List (JsString × Json)) : List (JsString × Json) :=
  (ownOrder (object.map (·.1))).filterMap fun key => object.find? fun field => field.1 = key

/-! ### One read -/

/-- The headers of an answer, by name. -/
abbrev Headers := List (String × String)

/-- What a route does with a request: it answers, with the JSON its bytes parse to, or throws. -/
inductive Outcome where
  | answered (status : ℕ) (headers : Headers) (body : Option Json)
  | thrown

/-- The body of a read that throws. -/
def INTERNAL_ERROR : Json :=
  .object [(units "error", text "An unexpected error occurred while serving this request."),
    (units "code", text "INTERNAL_ERROR")]

/-- One inner read: its status, its body and its headers. -/
structure Read where
  code : ℕ
  json : Json
  headers : Headers

variable {Query : Type*} (processRequest : JsString → Query → Outcome)

/-- The path of an inner read, under its coin and `/api`. -/
def apiPath (coin path : JsString) : JsString := unit '/' :: coin ++ units "/api" ++ path

/-- An inner read goes through the server's own request handler; one that throws is a 500. -/
def readApi (coin path : JsString) (query : Query) : Read :=
  match processRequest (apiPath coin path) query with
  | .answered status headers body => ⟨status, body.getD .null, headers⟩
  | .thrown => ⟨500, INTERNAL_ERROR, []⟩

/-! ### The request -/

/-- The most addresses one batch may ask for. -/
def BATCH_ADDRESS_MAX : ℕ := 20

/-- How many addresses are read at a time. -/
def BATCH_READ_CONCURRENCY : ℕ := 8

/-- How much of an invalid address its refusal repeats. -/
def BATCH_INVALID_ECHO_MAX : ℕ := 128

/-- A letter or a digit of ASCII. -/
def isAlnum (u : UInt16) : Bool :=
  isDigit u || (unit 'A' ≤ u && u ≤ unit 'Z') || (unit 'a' ≤ u && u ≤ unit 'z')

/-- `/^C:[A-Za-z0-9]+:[0-9]+$/` -/
def isCustody (value : JsString) : Bool :=
  value.take 2 = units "C:" &&
    match (value.drop 2).dropWhile isAlnum with
    | colon :: digits => (value.drop 2).takeWhile isAlnum ≠ [] && colon = unit ':' && digits ≠ [] && digits.all isDigit
    | [] => false

/-- The shape every address has, whatever its coin: up to 128 letters and digits, or a custody
    reference. -/
def isAddressLike (value : JsString) : Bool :=
  1 ≤ value.length && value.length ≤ 128 && (value.all isAlnum || isCustody value)

/-- A refusal with its code. -/
def refusal (error : JsString) (code : String) : Json := .object [(units "error", .string error), (units "code", text code)]

/-- The refusal of an entry that is no address. -/
def invalidAddress (address : JsString) : Json :=
  refusal (units "Invalid address: " ++ address.take BATCH_INVALID_ECHO_MAX) "INVALID_ADDRESS"

/-- The entries as texts, unless one of them is none. -/
def strings : List Json → Option (List JsString)
  | [] => some []
  | .string s :: xs => (strings xs).map (s :: ·)
  | _ :: _ => none

instance lawfulBEq_jsString : LawfulBEq JsString := inferInstance

/-- One more entry: refused, seen before, or appended. -/
def takeAddress (addresses : List JsString) (entry : JsString) : Except Json (List JsString) :=
  if isAddressLike entry = false then .error (invalidAddress entry)
  else if entry ∈ addresses then .ok addresses
  else .ok (addresses ++ [entry])

/-- The refusal of a body without a list of strings. -/
def INVALID_ADDRESSES : Json := refusal (units "addresses must be a non-empty array of address strings") "INVALID_ADDRESSES"

/-- The refusal of a list that is too long. -/
def TOO_MANY_ADDRESSES : Json := refusal (units "Too many addresses (max 20)") "TOO_MANY_ADDRESSES"

/-- The distinct addresses a body names, in the order it names them first, or its refusal. -/
def parseBatchAddresses (body : Json) : Except Json (List JsString) :=
  match body.property (units "addresses") with
  | some (.array list) =>
    match strings list with
    | none | some [] => .error INVALID_ADDRESSES
    | some entries =>
      if BATCH_ADDRESS_MAX < entries.length then .error TOO_MANY_ADDRESSES else entries.foldlM takeAddress []
  | _ => .error INVALID_ADDRESSES

variable (C : CaseMap)

/-- The spelling an address is read under. Without a coin it is its own. -/
def canonicalAddress (coin address : JsString) : JsString :=
  match canonicalCoinAddress C coin address with
  | .canonical spelling => spelling
  | .unknown | .malformed => address

/-- The first address that the coin does not know the shape of. -/
def firstInvalid (coin : JsString) (addresses : List JsString) : Option JsString :=
  addresses.find? fun address => canonicalCoinAddress C coin address = .malformed

/-! ### The entry of an address -/

/-- A read of an entry: the key of its answer, and its path. -/
structure Part where
  key : JsString
  path : JsString → JsString

/-- The key of an entry that tells its failure. -/
def errorKey : JsString := units "error"

/-- The reads of a route, in the order their failures take precedence. -/
structure Parts where
  first : Part
  rest : List Part
  nodup : ((first :: rest).map (·.key)).Nodup
  not_error : errorKey ∉ (first :: rest).map (·.key)
  not_index : ∀ part ∈ first :: rest, isArrayIndex part.key = false
  not_tag : units "mathjs" ∉ (first :: rest).map (·.key)

/-- The parts of an entry in the order they are read. -/
def Parts.list (parts : Parts) : List Part := parts.first :: parts.rest

/-- Why an entry is not complete, from the first part that failed. -/
structure Failure where
  code : Json
  error : Json
  status : ℕ

/-- The failure as the response spells it. -/
def Failure.json (f : Failure) : Json :=
  .object [(units "code", f.code), (errorKey, f.error), (units "status", .number (some f.status))]

/-- The reason a read was not answered with 200. -/
def failureOf (read : Read) : Failure where
  code := read.json.propertyOr (units "code") (text "READ_FAILED")
  error := read.json.propertyOr errorKey (text "The batch read failed for this address.")
  status := read.code

/-- An entry that is being read. -/
structure Entry where
  address : JsString
  fields : List (JsString × Json)
  failure : Option Failure

/-- The first failure stays. -/
def Entry.record (e : Entry) (part : Part) (read : Read) : Entry :=
  if read.code = 200 then { e with fields := assign e.fields part.key read.json }
  else { e with fields := assign e.fields part.key .null, failure := e.failure.or (some (failureOf read)) }

/-- The entry as the response spells it; an entry without a failure says `null`. -/
def Entry.json (e : Entry) : Json :=
  .object (assign e.fields errorKey ((e.failure.map Failure.json).getD .null))

section Fanout

variable (coin : JsString) (query : Query) (seeded : JsString → Option Read)

/-- A read the caller has made already, or else a new one. -/
def readPart (path : JsString) : Read := (seeded path).getD (readApi processRequest coin path query)

/-- One more part is read into an entry. -/
def readInto (e : Entry) (part : Part) : Entry := e.record part (readPart processRequest coin query seeded (part.path e.address))

/-- `batchEntry`, a part at a time. -/
def batchEntry (work : Entry × List Part) : (Entry × List Part) ⊕ Json :=
  match work with
  | (e, []) => .inr e.json
  | (e, part :: parts) => .inl (readInto processRequest coin query seeded e part, parts)

/-- One entry of a batch as a task of the pool: its parts are read in order, and its outcome is
    fixed from the start. -/
def entryTask : WorkerPool.Task (Entry × List Part) Json where
  advance := batchEntry processRequest coin query seeded
  outcome work := (work.2.foldl (readInto processRequest coin query seeded) work.1).json
  left work := work.2.length
  outcome_inl work work' h := by
    obtain ⟨e, _ | ⟨part, parts⟩⟩ := work
    · cases h
    · cases h
      rfl
  outcome_inr work json h := by
    obtain ⟨e, _ | ⟨part, parts⟩⟩ := work
    · cases h
      rfl
    · cases h
  left_inl work work' h := by
    obtain ⟨e, _ | ⟨part, parts⟩⟩ := work
    · cases h
    · cases h
      exact Nat.lt_succ_self _

end Fanout

/-! ### The answer -/

/-- What a batch is answered with. -/
structure Response where
  code : ℕ
  headers : Headers
  json : Json

/-- The content type of every batch. -/
def JSON_TYPE : String × String := ("Content-Type", "application/json; charset=utf-8")

variable (R : Runtime) (parts : Parts)

/-- The answer of a batch, its body stringified. -/
def sendBatchJson (code : ℕ) (headers : Headers) (json : Json) : Response :=
  ⟨code, headers ++ [JSON_TYPE], R.stringified json⟩

/-- The headers of the first read that tell how fresh the data is. -/
def freshnessHeaders (read : Read) : Headers :=
  ["XChain-Freshness", "XChain-Tip-Block", "XChain-Tip-Age-S"].filterMap fun name =>
    (read.headers.find? fun header => header.1 = name).map fun header => (name, header.2)

/-- The refusal of a whole coin. -/
def coinLevel (read : Read) : Bool :=
  read.code = 503 && read.json.truthy &&
    (units "COIN_").isPrefixOf (R.String (read.json.propertyOr (units "code") (.string [])))

/-- The address that is read alone, before the others. -/
def firstAddress (coin : JsString) (addresses : List JsString) : JsString :=
  (firstInvalid C coin addresses).getD (canonicalAddress C coin (addresses.headD []))

/-- The path the response's freshness is taken from. -/
def firstPath (coin : JsString) (addresses : List JsString) : JsString :=
  parts.first.path (firstAddress C coin addresses)

/-- The read the response's freshness is taken from. -/
def firstRead (coin : JsString) (addresses : List JsString) (query : Query) : Read :=
  readApi processRequest coin (firstPath C parts coin addresses) query

/-- The one read that was made before the others. -/
def seeded (coin : JsString) (addresses : List JsString) (query : Query) (path : JsString) : Option Read :=
  if path = firstPath C parts coin addresses then some (firstRead processRequest C parts coin addresses query) else none

/-- The workers over the addresses. -/
def fanOut (coin : JsString) (addresses : List JsString) (query : Query) :=
  WorkerPool.step addresses (fun address => (⟨canonicalAddress C coin address, [], none⟩, parts.list))
    (entryTask processRequest coin query (seeded processRequest C parts coin addresses query))

/-- The workers of a batch over its addresses. -/
abbrev Pool := WorkerPool.Pool JsString (Entry × List Part) Json

/-- No more workers than addresses. -/
def workers (addresses : List JsString) : Pool := WorkerPool.init (min BATCH_READ_CONCURRENCY addresses.length)

/-- The entries in the order of the addresses. -/
def collect (addresses : List JsString) (p : Pool) : List (JsString × Json) :=
  addresses.foldl (fun out address => assign out address ((p.results address).getD .null)) []

/-- The answer, where `schedule` says which worker goes on next. It is there once all of them are done. -/
def processBatchRequest (coin : JsString) (body : Json) (query : Query) (schedule : List ℕ) : Option Response :=
  let coin := C.toUpperCase coin
  match parseBatchAddresses body with
  | .error refused => some (sendBatchJson R 400 [] refused)
  | .ok addresses =>
    let read := firstRead processRequest C parts coin addresses query
    let headers := freshnessHeaders read
    if coinLevel R read then some (sendBatchJson R read.code headers read.json)
    else
      match firstInvalid C coin addresses with
      | some address => some (sendBatchJson R 400 headers (invalidAddress address))
      | none =>
        ((Runs.run (fanOut processRequest C parts coin addresses query) (workers addresses) schedule).filter
          fun p => p.workers.all fun w => match w with
            | .finished => true
            | _ => false).map fun p =>
          sendBatchJson R 200 headers (.object (ownFields (collect addresses p)))

/-! ### The two routes -/

/-- `encodeURIComponent`, which throws on half a surrogate pair only. No address holds one. -/
def encodeURIComponent (s : JsString) : JsString :=
  ((JsText.encodeURIComponent (s.map fun u => u.toFin)).getD []).map fun c => UInt16.ofFin c

/-- The parts of `POST /balances`: the balances of the address, and the address. -/
def balancesParts : Parts where
  first := ⟨units "balances", fun address => units "/balances/" ++ encodeURIComponent address⟩
  rest := [⟨units "address", fun address => units "/address/" ++ encodeURIComponent address⟩]
  nodup := by decide
  not_error := by decide
  not_index := List.all_iff_forall_prop.mp (by decide)
  not_tag := by decide

/-- The one part of `POST /coinpay_obligations`. -/
def coinpayObligationsParts : Parts where
  first := ⟨units "coinpay_obligations",
    fun address => units "/coinpay_obligations/" ++ encodeURIComponent address ++ units "/address"⟩
  rest := []
  nodup := by decide
  not_error := by decide
  not_index := List.all_iff_forall_prop.mp (by decide)
  not_tag := by decide

/-! ### What is meant -/

/-- What a GET of a path is answered with. A route that throws is answered for. -/
structure Answer where
  status : ℕ
  json : Json

/-- The answer of the single endpoint, which a batch mirrors. -/
def get (coin path : JsString) (query : Query) : Answer :=
  match processRequest (apiPath coin path) query with
  | .answered status _ body => ⟨status, body.getD .null⟩
  | .thrown => ⟨500, INTERNAL_ERROR⟩

/-- The failure a GET's answer stands for, as it is written. -/
def Answer.failure (R : Runtime) (a : Answer) : Json :=
  .object [(units "code", R.stringified (a.json.propertyOr (units "code") (text "READ_FAILED"))),
    (errorKey, R.stringified (a.json.propertyOr errorKey (text "The batch read failed for this address."))),
    (units "status", .number (some a.status))]

/-- What the GET of a part is answered with, for the canonical spelling of an address. -/
def answerOf (coin : JsString) (query : Query) (address : JsString) (part : Part) : Answer :=
  get processRequest coin (part.path (canonicalAddress C coin address)) query

/-- The entry of an address: what its own GETs answer, and why the first of them failed. -/
def expectedEntry (coin : JsString) (query : Query) (address : JsString) : Json :=
  let answer := answerOf processRequest C coin query address
  .object ((parts.list.map fun part =>
      (part.key, if (answer part).status = 200 then R.stringified (answer part).json else .null)) ++
    [(errorKey, (((parts.list.map answer).find? fun a => a.status ≠ 200).map (Answer.failure R)).getD .null)])

/-! ### Objects -/

section Objects

variable {object fields : List (JsString × Json)} {key : JsString} {value : Json} {keys : List JsString}

theorem assign_of_notMem (h : key ∉ object.map (·.1)) : assign object key value = object ++ [(key, value)] := by
  refine if_neg fun hany => ?_
  obtain ⟨field, hfield, hkey⟩ := List.any_eq_true.mp hany
  exact h (of_decide_eq_true hkey ▸ List.mem_map_of_mem hfield)

theorem ownOrder_perm (keys : List JsString) : (ownOrder keys).Perm keys :=
  ((List.perm_insertionSort _ _).append_right _).trans (List.filter_append_perm _ _)

theorem ownOrder_of_forall (h : ∀ key ∈ keys, isArrayIndex key = false) : ownOrder keys = keys := by
  have hnone : keys.filter isArrayIndex = [] := List.filter_eq_nil_iff.mpr fun key hkey => by simp [h key hkey]
  have hall : keys.filter (fun key => !isArrayIndex key) = keys :=
    List.filter_eq_self.mpr fun key hkey => by simp [h key hkey]
  rw [ownOrder, hnone, hall]
  rfl

/-- An object that is a function of its keys is written in their order. -/
theorem ownFields_map {f : JsString → Json} :
    ownFields (keys.map fun key => (key, f key)) = (ownOrder keys).map fun key => (key, f key) := by
  have hkeys : (keys.map fun key => (key, f key)).map (·.1) = keys := by
    rw [List.map_map]
    exact List.map_id _
  rw [ownFields, hkeys]
  refine (List.filterMap_congr fun key hkey => ?_).trans (congrFun List.filterMap_eq_map _)
  have hmem : key ∈ keys := (ownOrder_perm keys).mem_iff.mp hkey
  cases hfind : (keys.map fun key => (key, f key)).find? fun field => field.1 = key with
  | none => exact absurd (List.find?_eq_none.mp hfind _ (List.mem_map_of_mem hmem)) (by simp)
  | some field =>
    obtain ⟨other, -, rfl⟩ := List.mem_map.mp (List.mem_of_find?_eq_some hfind)
    have hother : other = key := by simpa using List.find?_some hfind
    rw [hother]
    rfl

theorem foldl_assign {f : JsString → Json} (hnodup : (fields.map (·.1) ++ keys).Nodup) :
    keys.foldl (fun out key => assign out key (f key)) fields = fields ++ keys.map fun key => (key, f key) := by
  induction keys generalizing fields with
  | nil => simp
  | cons key keys ih =>
    have hkey : key ∉ fields.map (·.1) := fun hmem =>
      (List.disjoint_of_nodup_append hnodup) hmem List.mem_cons_self
    rw [List.foldl_cons, assign_of_notMem hkey, ih, List.map_cons, List.append_assoc, List.singleton_append]
    simpa using hnodup

end Objects

/-! ### What is written is read back -/

section Stringified

variable {R : Runtime}

theorem stringifiedFields_eq (fields : List (JsString × Json)) :
    R.stringifiedFields fields = fields.map fun field => (field.1, R.stringified field.2) := by
  induction fields with
  | nil => rfl
  | cons field fields ih => rw [Runtime.stringifiedFields, ih, List.map_cons]

theorem tagged_of_notMem {fields : List (JsString × Json)} (h : units "mathjs" ∉ fields.map (·.1)) :
    tagged fields = false := by
  have hnone : fields.find? (fun field => field.1 = units "mathjs") = none := by
    refine List.find?_eq_none.mpr fun field hfield hkey => h ?_
    exact of_decide_eq_true hkey ▸ List.mem_map_of_mem hfield
  rw [tagged, Json.property, hnone]
  rfl

theorem stringified_object {fields : List (JsString × Json)} (h : tagged fields = false) :
    R.stringified (.object fields) = .object (fields.map fun field => (field.1, R.stringified field.2)) := by
  rw [Runtime.stringified, h, stringifiedFields_eq]
  rfl

mutual

/-- No tagged object, and no number past the doubles. -/
def Json.plain : Json → Bool
  | .number v => v.isSome
  | .array xs => plainItems xs
  | .object fields => !tagged fields && plainFields fields
  | _ => true

/-- No item of the array is an object that the parser would tag. -/
def plainItems : List Json → Bool
  | [] => true
  | x :: xs => x.plain && plainItems xs

/-- No value of the object is one that the parser would tag. -/
def plainFields : List (JsString × Json) → Bool
  | [] => true
  | field :: fields => field.2.plain && plainFields fields

end

mutual

theorem stringified_of_plain : ∀ j : Json, j.plain = true → R.stringified j = j
  | .null, _ => by simp [Runtime.stringified]
  | .bool b, _ => by simp [Runtime.stringified]
  | .string s, _ => by simp [Runtime.stringified]
  | .number none, h => by simp [Json.plain] at h
  | .number (some v), _ => by simp [Runtime.stringified]
  | .array xs, h => by
    rw [Json.plain] at h
    rw [Runtime.stringified, stringifiedItems_of_plain xs h]
  | .object fields, h => by
    rw [Json.plain, Bool.and_eq_true, Bool.not_eq_true'] at h
    rw [Runtime.stringified, h.1, stringifiedFields_of_plain fields h.2]
    rfl

theorem stringifiedItems_of_plain : ∀ xs : List Json, plainItems xs = true → R.stringifiedItems xs = xs
  | [], _ => by rw [Runtime.stringifiedItems]
  | x :: xs, h => by
    rw [plainItems, Bool.and_eq_true] at h
    rw [Runtime.stringifiedItems, stringified_of_plain x h.1, stringifiedItems_of_plain xs h.2]

theorem stringifiedFields_of_plain : ∀ fields : List (JsString × Json), plainFields fields = true →
    R.stringifiedFields fields = fields
  | [], _ => by rw [Runtime.stringifiedFields]
  | field :: fields, h => by
    rw [plainFields, Bool.and_eq_true] at h
    rw [Runtime.stringifiedFields, stringified_of_plain field.2 h.1, stringifiedFields_of_plain fields h.2]

end

end Stringified

/-! ### The addresses of a request -/

theorem strings_map (sent : List JsString) : strings (sent.map .string) = some sent := by
  induction sent with
  | nil => rfl
  | cons a sent ih => rw [List.map_cons, strings, ih, Option.map_some]

/-- Every address once, in the order they came. -/
theorem foldlM_takeAddress {sent addresses : List JsString} (hlike : ∀ a ∈ sent, isAddressLike a = true) :
    sent.foldlM takeAddress addresses = .ok (addresses ++ (sent.filter fun a => a ∉ addresses).eraseDups) := by
  induction sent generalizing addresses with
  | nil => simp [pure, Except.pure]
  | cons a sent ih =>
    obtain ⟨ha, hsent⟩ := List.forall_mem_cons.mp hlike
    by_cases hmem : a ∈ addresses
    · have htake : takeAddress addresses a = .ok addresses := by simp [takeAddress, ha, hmem]
      rw [List.foldlM_cons, htake, List.filter_cons_of_neg (by simpa using hmem)]
      exact ih hsent
    · have htake : takeAddress addresses a = .ok (addresses ++ [a]) := by simp [takeAddress, ha, hmem]
      rw [List.foldlM_cons, htake, List.filter_cons_of_pos (by simpa using hmem), List.eraseDups_cons]
      refine (ih hsent).trans ?_
      rw [List.append_assoc, List.singleton_append, List.filter_filter]
      congr 4
      refine List.filter_congr fun b _ => ?_
      by_cases hb : b = a <;> simp [hb]

theorem parse_addresses {body : Json} {sent : List JsString}
    (hbody : body.property (units "addresses") = some (.array (sent.map .string))) (hsent : sent ≠ [])
    (hcap : sent.length ≤ BATCH_ADDRESS_MAX) (hlike : ∀ a ∈ sent, isAddressLike a = true) :
    parseBatchAddresses body = .ok sent.eraseDups := by
  obtain ⟨a, rest, rfl⟩ := List.exists_cons_of_ne_nil hsent
  rw [parseBatchAddresses, hbody]
  simp only [strings_map, if_neg (Nat.not_lt.mpr hcap), foldlM_takeAddress hlike]
  simp

/-! ### An entry -/

section Entries

variable {processRequest} {C} {R : Runtime} {parts : Parts} {coin : JsString} {query : Query} {addresses : List JsString}
  {seen : JsString → Option Read} {e : Entry}

theorem readApi_eq (path : JsString) : (readApi processRequest coin path query).code = (get processRequest coin path query).status ∧
    (readApi processRequest coin path query).json = (get processRequest coin path query).json := by
  rw [readApi, get]
  split <;> exact ⟨rfl, rfl⟩

/-- The read that was made before is the one that would be made now. -/
theorem readPart_seeded (path : JsString) :
    readPart processRequest coin query (seeded processRequest C parts coin addresses query) path =
      readApi processRequest coin path query := by
  rw [readPart, seeded]
  split_ifs with hpath
  · rw [hpath]
    rfl
  · rfl

/-- The field of a part. -/
def partField (read : Part → Read) (part : Part) : JsString × Json :=
  (part.key, if (read part).code = 200 then (read part).json else .null)

theorem foldl_record (read : Part → Read) {ps : List Part} (hnodup : (e.fields.map (·.1) ++ ps.map (·.key)).Nodup) :
    ps.foldl (fun e part => e.record part (read part)) e =
      ⟨e.address, e.fields ++ ps.map (partField read),
        e.failure.or (((ps.map read).find? fun r => r.code ≠ 200).map failureOf)⟩ := by
  induction ps generalizing e with
  | nil => simp
  | cons part ps ih =>
    have hkey : part.key ∉ e.fields.map (·.1) := fun hmem =>
      (List.disjoint_of_nodup_append hnodup) hmem List.mem_cons_self
    have hrest : ((e.record part (read part)).fields.map (·.1) ++ ps.map (·.key)).Nodup := by
      rw [Entry.record]
      split_ifs
      all_goals
        simp only [assign_of_notMem hkey]
        simpa using hnodup
    rw [List.foldl_cons, ih hrest, Entry.record]
    by_cases hcode : (read part).code = 200
    · simp [hcode, assign_of_notMem hkey, partField]
    · cases e.failure <;> simp [hcode, assign_of_notMem hkey, partField]

theorem record_address (part : Part) (read : Read) : (e.record part read).address = e.address := by
  rw [Entry.record]
  split_ifs <;> rfl

theorem foldl_readInto {ps : List Part} : ps.foldl (readInto processRequest coin query seen) e =
    ps.foldl (fun e' part => e'.record part (readPart processRequest coin query seen (part.path e.address))) e := by
  induction ps generalizing e with
  | nil => rfl
  | cons part ps ih =>
    rw [List.foldl_cons, List.foldl_cons, ih]
    simp only [readInto, record_address]

theorem stringified_null : R.stringified .null = .null := by simp [Runtime.stringified]

theorem stringified_number (v : ℚ) : R.stringified (.number (some v)) = .number (some v) := by
  simp [Runtime.stringified]

/-- A failure is written as the answer it stands for says. -/
theorem stringified_failure {read : Read} {a : Answer} (hcode : read.code = a.status) (hjson : read.json = a.json) :
    R.stringified (failureOf read).json = a.failure R := by
  have htag : tagged [(units "code", (failureOf read).code), (errorKey, (failureOf read).error),
      (units "status", .number (some (failureOf read).status))] = false := by
    refine tagged_of_notMem ?_
    simp only [List.map_cons, List.map_nil]
    decide
  rw [Failure.json, stringified_object htag, Answer.failure]
  simp only [List.map_cons, List.map_nil, failureOf, hcode, hjson, stringified_number]

/-- The first read that failed is the first GET that did. -/
theorem stringified_firstFailure {read : Part → Read} {answer : Part → Answer}
    (h : ∀ part, (read part).code = (answer part).status ∧ (read part).json = (answer part).json) (ps : List Part) :
    R.stringified (((((ps.map read).find? fun r => r.code ≠ 200).map failureOf).map Failure.json).getD .null) =
      (((ps.map answer).find? fun a => a.status ≠ 200).map (Answer.failure R)).getD .null := by
  induction ps with
  | nil => exact stringified_null
  | cons part ps ih =>
    by_cases hcode : (answer part).status = 200
    · rw [List.map_cons, List.map_cons, List.find?_cons_of_neg (by simp [h part, hcode]),
        List.find?_cons_of_neg (by simp [hcode]), ih]
    · rw [List.map_cons, List.map_cons, List.find?_cons_of_pos (by simp [h part, hcode]),
        List.find?_cons_of_pos (by simp [hcode])]
      exact stringified_failure (h part).1 (h part).2

theorem fields_keys (read : Part → Read) (ps : List Part) :
    (ps.map (partField read)).map (·.1) = ps.map (·.key) := by
  rw [List.map_map]
  rfl

/-- What the workers make of an address is the entry that is expected of it. -/
theorem stringified_outcome (address : JsString) :
    R.stringified ((entryTask processRequest coin query (seeded processRequest C parts coin addresses query)).outcome
        (⟨canonicalAddress C coin address, [], none⟩, parts.list)) =
      expectedEntry processRequest C R parts coin query address := by
  let read := fun part : Part => readApi processRequest coin (part.path (canonicalAddress C coin address)) query
  have hnodup : (parts.list.map (·.key)).Nodup := parts.nodup
  have hkeys := fields_keys read parts.list
  have hfold : parts.list.foldl (readInto processRequest coin query (seeded processRequest C parts coin addresses query))
      ⟨canonicalAddress C coin address, [], none⟩ =
      ⟨canonicalAddress C coin address, parts.list.map (partField read),
        ((parts.list.map read).find? fun r => r.code ≠ 200).map failureOf⟩ := by
    simp only [foldl_readInto, readPart_seeded]
    rw [foldl_record read (by simpa using hnodup)]
    simp
  have herror : errorKey ∉ (parts.list.map (partField read)).map (·.1) := hkeys ▸ parts.not_error
  have htag : tagged (parts.list.map (partField read) ++ [(errorKey,
      ((((parts.list.map read).find? fun r => r.code ≠ 200).map failureOf).map Failure.json).getD .null)]) = false := by
    refine tagged_of_notMem ?_
    rw [List.map_append, hkeys, List.mem_append, not_or]
    refine ⟨parts.not_tag, ?_⟩
    simp only [List.map_cons, List.map_nil]
    decide
  show R.stringified (Entry.json (parts.list.foldl _ _)) = _
  rw [hfold, Entry.json, assign_of_notMem herror, stringified_object htag, expectedEntry, List.map_append, List.map_map]
  have hread : ∀ part, (read part).code = (answerOf processRequest C coin query address part).status ∧
      (read part).json = (answerOf processRequest C coin query address part).json := fun part => readApi_eq _
  congr 2
  · refine List.map_congr_left fun part _ => ?_
    simp only [Function.comp_apply, partField, (hread part).1, (hread part).2]
    split_ifs
    · rfl
    · rw [stringified_null]
  · rw [List.map_singleton, stringified_firstFailure hread]

end Entries

/-! ### Positions are no addresses -/

theorem isDigit_of_isArrayIndex {a : JsString} (h : isArrayIndex a = true) : ∀ u ∈ a, isDigit u = true := by
  rw [isArrayIndex, Bool.and_eq_true, canonicalDecimal, Bool.or_eq_true] at h
  rcases h.1 with hzero | hdigits
  · rw [of_decide_eq_true hzero]
    exact List.forall_mem_singleton.mpr (by decide)
  · rw [Bool.and_eq_true] at hdigits
    exact List.all_eq_true.mp hdigits.2

/-- A digit that leads counts for as much as there are places behind it. -/
theorem length_of_isArrayIndex {a : JsString} (h : isArrayIndex a = true) : a.length ≤ 10 := by
  have hdigits := isDigit_of_isArrayIndex h
  rw [isArrayIndex, Bool.and_eq_true, canonicalDecimal, Bool.or_eq_true] at h
  obtain ⟨hcanonical, hvalue⟩ := h
  rcases hcanonical with hzero | hlead
  · rw [of_decide_eq_true hzero]
    decide
  · rw [Bool.and_eq_true, Bool.and_eq_true] at hlead
    obtain ⟨u, rest, rfl⟩ := List.exists_cons_of_ne_nil (of_decide_eq_true hlead.1.1)
    have hu : 1 ≤ u.toNat - (unit '0').toNat := by
      have hne : u ≠ unit '0' := by simpa using of_decide_eq_true hlead.1.2
      have hge := (Bool.and_eq_true_iff.mp (hdigits u List.mem_cons_self)).1
      have hle : (unit '0').toNat ≤ u.toNat := UInt16.le_iff_toNat_le.mp (of_decide_eq_true hge)
      have : u.toNat ≠ (unit '0').toNat := fun heq => hne (UInt16.toNat_inj.mp heq)
      omega
    have hlt : decimalValue (u :: rest) < 2 ^ 32 - 1 := of_decide_eq_true hvalue
    rw [decimalValue, List.map_cons, ← List.singleton_append, Positional.value_append, List.length_map] at hlt
    have hone : Positional.value 10 [u.toNat - (unit '0').toNat] = u.toNat - (unit '0').toNat := by
      simp [Positional.value]
    rw [hone] at hlt
    have hpow : 10 ^ rest.length < 10 ^ 10 := by
      calc 10 ^ rest.length ≤ (u.toNat - (unit '0').toNat) * 10 ^ rest.length := Nat.le_mul_of_pos_left _ hu
        _ < 10 ^ 10 := by omega
    have := (Nat.pow_lt_pow_iff_right (by decide : 1 < 10)).mp hpow
    simp only [List.length_cons]
    omega

theorem lowered_of_isDigit {u : UInt16} (h : isDigit u = true) : Lowered u := by
  rw [isDigit, Bool.and_eq_true] at h
  have hle : u.toNat ≤ (unit '9').toNat := UInt16.le_iff_toNat_le.mp (of_decide_eq_true h.2)
  have hlt : u < 128 := UInt16.lt_iff_toNat_lt.mpr (hle.trans_lt (by decide))
  refine ⟨hlt, fun hcapital => ?_⟩
  have hge : (unit 'A').toNat ≤ u.toNat := UInt16.le_iff_toNat_le.mp hcapital.1
  have h9 : (unit '9').toNat = 57 := by decide
  have hA : (unit 'A').toNat = 65 := by decide
  omega

/-- No network's own part is made of digits. -/
theorem exists_letter {coin : Coin} {network : Network} {hrp : JsString} (h : (coinNet coin network).hrp = some hrp) :
    ∃ u ∈ hrp, isDigit u = false := by
  cases coin <;> cases network <;> simp only [coinNet, Option.some.injEq, reduceCtorEq] at h <;> subst h <;>
    exact ⟨_, List.mem_cons_self, by decide⟩

/-- What a coin takes for an address is no position. -/
theorem malformed_of_isArrayIndex {C : CaseMap} {coin a : JsString} {params : Params}
    (hparams : addressParams (C.toUpperCase coin) = some params) (ha : isArrayIndex a = true) :
    canonicalCoinAddress C coin a = .malformed := by
  have hdigits := isDigit_of_isArrayIndex ha
  have hcontract : contractMatch a = none := by
    unfold contractMatch
    split
    · rename_i c colon rest
      have hc := hdigits c List.mem_cons_self
      split
      · rw [if_neg]
        rintro ⟨rfl, -⟩
        exact absurd hc (by decide)
      · rfl
    · rfl
  have hbase58 : base58Decode a = none := by
    have := length_of_isArrayIndex ha
    exact if_pos (.inl (by omega))
  simp only [canonicalCoinAddress, hparams, addressVerdict, hcontract]
  cases hdecode : bech32Decode C a with
  | none => simp only [base58Verdict, hbase58]
  | some hrp =>
    simp only
    refine if_neg fun hhrp => ?_
    obtain ⟨coin, network, rfl⟩ := exists_coinNet hparams
    obtain ⟨u, hu, hletter⟩ := exists_letter hhrp
    have hlower : C.toLowerCase a = a := toLowerCase_lowered fun u hu => lowered_of_isDigit (hdigits u hu)
    obtain ⟨version, words, hreads⟩ := reads_of_bech32Decode hdecode
    have hmem : u ∈ a := by
      rw [← hlower, hreads.spelling, bech32]
      exact List.mem_append_left _ hu
    rw [hdigits u hmem] at hletter
    cases hletter

/-! ### The batch -/

section Batch

variable {processRequest} {C} {R : Runtime} {parts : Parts} {coin : JsString} {query : Query} {addresses sent : List JsString}

/-- Once all workers are done, the entries that were collected are those of the addresses. -/
theorem collect_eq {schedule : List ℕ} {p : Pool} (hnodup : addresses.Nodup) (hne : addresses ≠ [])
    (hrun : Runs.run (fanOut processRequest C parts coin addresses query) (workers addresses) schedule = some p)
    (hdone : WorkerPool.Done p) :
    collect addresses p = addresses.map fun a => (a,
      (entryTask processRequest coin query (seeded processRequest C parts coin addresses query)).outcome
        (⟨canonicalAddress C coin a, [], none⟩, parts.list)) := by
  have hworkers : 0 < min BATCH_READ_CONCURRENCY addresses.length :=
    Nat.lt_min.mpr ⟨by decide, List.length_pos_iff.mpr hne⟩
  rw [collect, foldl_assign (f := fun a => (p.results a).getD .null) (by simpa using hnodup), List.nil_append]
  refine List.map_congr_left fun a ha => ?_
  rw [WorkerPool.results_of_done hworkers hrun hdone ha, Option.getD_some]

/-- An object of objects is not tagged. -/
theorem tagged_objects {keys : List JsString} {f : JsString → List (JsString × Json)} :
    tagged (keys.map fun key => (key, .object (f key))) = false := by
  rw [tagged, Json.property]
  cases hfind : (keys.map fun key => (key, Json.object (f key))).find? fun field => field.1 = units "mathjs" with
  | none => rfl
  | some field =>
    obtain ⟨key, -, rfl⟩ := List.mem_map.mp (List.mem_of_find?_eq_some hfind)
    rfl

/-- The body of an answer, address by address. -/
theorem stringified_collected {schedule : List ℕ} {p : Pool} (hnodup : addresses.Nodup) (hne : addresses ≠ [])
    (hrun : Runs.run (fanOut processRequest C parts coin addresses query) (workers addresses) schedule = some p)
    (hdone : WorkerPool.Done p) :
    R.stringified (.object (ownFields (collect addresses p))) =
      .object ((ownOrder addresses).map fun a => (a, expectedEntry processRequest C R parts coin query a)) := by
  rw [collect_eq hnodup hne hrun hdone, ownFields_map, stringified_object, List.map_map]
  · congr 1
    refine List.map_congr_left fun a _ => ?_
    rw [Function.comp_apply, stringified_outcome]
  · exact tagged_objects

theorem all_finished_iff {p : Pool} : (p.workers.all fun w => match w with
    | .finished => true
    | _ => false) = true ↔ WorkerPool.Done p := by
  rw [List.all_eq_true, WorkerPool.Done]
  refine forall₂_congr fun w _ => ?_
  cases w <;> simp

/-- Past the parsing and the gate, the answer is that of the workers. -/
theorem processBatchRequest_eq {body : Json} {schedule : List ℕ} (hparse : parseBatchAddresses body = .ok addresses)
    (hgate : coinLevel R (firstRead processRequest C parts (C.toUpperCase coin) addresses query) = false)
    (hvalid : ∀ a ∈ addresses, canonicalCoinAddress C (C.toUpperCase coin) a ≠ .malformed) :
    processBatchRequest processRequest C R parts coin body query schedule =
      ((Runs.run (fanOut processRequest C parts (C.toUpperCase coin) addresses query) (workers addresses) schedule).filter
        fun p => p.workers.all fun w => match w with
          | .finished => true
          | _ => false).map fun p =>
        sendBatchJson R 200 (freshnessHeaders (firstRead processRequest C parts (C.toUpperCase coin) addresses query))
          (.object (ownFields (collect addresses p))) := by
  have hinvalid : firstInvalid C (C.toUpperCase coin) addresses = none :=
    List.find?_eq_none.mpr fun a ha => by simpa using hvalid a ha
  simp only [processBatchRequest, hparse, hgate, hinvalid, Bool.false_eq_true, if_false]

end Batch

/-- The body that asks for these addresses. -/
def bodyOf (sent : List JsString) : Json := .object [(units "addresses", .array (sent.map .string))]

/-- Where every tagged number is the same small one. -/
def smallNumbers : Runtime where
  String _ := []
  fixed _ := some (units "0.00000003")

/-- The balances of one contract are served, any other request fails. -/
def oneContract (path : JsString) (_ : Unit) : Outcome :=
  if path = units "/BTC/api/balances/C%3ABTC%3A5" then .answered 200 [] (some (.array [])) else .thrown

/-- Two contracts, the first of them asked for twice. -/
def contracts : List JsString := [units "C:BTC:5", units "C:BTC:6", units "C:BTC:5"]

/-- The keys of an object. -/
def Json.keys : Json → List JsString
  | .object fields => fields.map (·.1)
  | _ => []

/-- A number as mathjs stringifies it, which no response may change. -/
def taggedNumber : Json := .object [(units "mathjs", text "BigNumber"), (units "value", text "3e-8")]

end BatchReads
