import XChainExplorer.Lib.Grouping
import XChainExplorer.Lib.JsNumber
import XChainExplorer.Lib.KeyedMap
import XChainExplorer.Lib.RoundRobin

/-! # Retrying the held capability rows

    A capability row that waits for its proof is held, and a retry pass judges the held rows again, one
    group for each capability and snapshot block. A group whose proofs are not there yet stops the walk
    up from the oldest block, another one the walk down from the newest, and between the two a pass
    probes a window of groups, each time from where it stopped. -/

namespace HubDbSync.CapabilityRetry

open JsNumber (Field)

/-- The most keys that one request asks for. -/
def CAPABILITY_PROOF_PUBKEY_CAP : ℕ := 256

/-- The longest path of a request. -/
def CAPABILITY_PROOF_PATH_BUDGET : ℕ := 8000

/-- The groups between the first and the last that one pass probes. -/
def CAPABILITY_PROOF_MIDDLE_PROBE_GROUPS : ℕ := 12

/-- What the pass reads of a row of `capability_snapshots`, as the hub served it. -/
structure HeldRow where
  snapshot_block : Field
  capability : Field
  signing_pubkey : Field
  deriving DecidableEq

/-- A held row under its natural key. -/
abbrev Entry := Sigma fun _ : String => HeldRow

/-- The block of a held row. -/
def Entry.block (e : Entry) : Field := e.2.snapshot_block

/-- Its capability. -/
def Entry.capability (e : Entry) : String := e.2.capability.toString

/-- Its key. -/
def Entry.pubkey (e : Entry) : String := e.2.signing_pubkey.toString

/-- What a proof is asked for. -/
structure Request where
  snapshotBlock : String
  capability : String
  pubkeys : List String
  deriving DecidableEq

/-! ### The order of the rows -/

/-- `Number(value)` where that is a safe integer. -/
def height (block : Field) : Option ℤ :=
  match block.toNumber with
  | some q => if q.den = 1 ∧ q.num.natAbs < 2 ^ 53 then some q.num else none
  | none => none

/-- Two blocks that are different safe integers. -/
def blockOrder (left right : Field) : Option Ordering :=
  match height left, height right with
  | some leftBlock, some rightBlock => if leftBlock ≠ rightBlock then some (compare leftBlock rightBlock) else none
  | _, _ => none

variable (localeCompare : String → String → Ordering)

/-- The order of the held rows: by block, then by capability and key. -/
def compareHeldRows (left right : Entry) : Ordering :=
  (blockOrder left.block right.block).getD
    ((localeCompare left.capability right.capability).then (localeCompare left.1 right.1))

/-- The held rows of one capability and snapshot block. -/
structure Group where
  snapshotBlock : Field
  rows : List Entry
  deriving DecidableEq

/-- The order of the groups, by block. -/
def compareGroups (left right : Group) : Ordering :=
  (blockOrder left.snapshotBlock right.snapshotBlock).getD
    (localeCompare left.snapshotBlock.toString right.snapshotBlock.toString)

/-- The groups past the one where the last pass ended. -/
def afterCursor (cursor : Field) (group : Group) : Bool :=
  match height group.snapshotBlock, height cursor with
  | some block, some cursorNumber => block > cursorNumber
  | _, _ => localeCompare group.snapshotBlock.toString cursor.toString = .gt

/-- The key of a group. -/
def proofGroupKey (snapshotBlock capability : String) : String := snapshotBlock ++ "\x00" ++ capability

/-- The key of a member in a group. Case does not count. -/
def proofMemberKey (snapshotBlock capability pubkey : String) : String :=
  proofGroupKey snapshotBlock capability ++ "\x00" ++ pubkey.toLower

/-- The group of a held row. -/
def Entry.group (e : Entry) : String := proofGroupKey e.block.toString e.capability

/-- The group of some rows: its block is the first row's. -/
def Group.ofRows : List Entry → Option Group
  | [] => none
  | e :: rest => some ⟨e.block, e :: rest⟩

/-- `capabilityGroups`, for one capability. -/
def groupsOf (held : List Entry) (capability : String) : List Group :=
  (Grouping.classes Entry.group (held.filter (·.capability = capability))).filterMap Group.ofRows

/-- The capabilities that have held rows. -/
def capabilitiesOf (held : List Entry) : List String := (held.map Entry.capability).eraseDups

/-! ### The requests of a pass -/

/-- The bytes of `encodeURIComponent(text)`. -/
def encodedLength (text : String) : ℕ :=
  text.toList.foldl (fun n c => n + if c.isAlphanum ∨ c ∈ "-_.!~*'()".toList then 1 else 3 * c.utf8Size) 0

/-- The length of a request's path. -/
def proofRequestPathLength (snapshotBlock capability : String) (pubkeys : List String) : ℕ :=
  "/hub-db/snapshot/capability_snapshot_proof?snapshot_block=".length + encodedLength snapshotBlock +
    "&capability=".length + encodedLength capability + "&pubkeys=".length + encodedLength (",".intercalate pubkeys)

/-- One turn of the loop over the public keys: the chunks that are full and the one that is filled. -/
def addPubkey (snapshotBlock capability : String) (acc : List (List String) × List String) (value : String) :
    List (List String) × List String :=
  let candidate := acc.2 ++ [value]
  if acc.2 ≠ [] ∧ (candidate.length > CAPABILITY_PROOF_PUBKEY_CAP ∨
      proofRequestPathLength snapshotBlock capability candidate > CAPABILITY_PROOF_PATH_BUDGET) then
    (acc.1 ++ [acc.2], [value])
  else (acc.1, candidate)

/-- The keys of a group in requests that fit the cap and the budget. -/
def chunkProofPubkeys (snapshotBlock capability : String) (pubkeys : List String) : List (List String) :=
  let (chunks, chunk) := pubkeys.foldl (addPubkey snapshotBlock capability) ([], [])
  if chunk = [] then chunks else chunks ++ [chunk]

/-- `group.slice(0, split)` and `group.slice(split + 1)` at the first NUL. -/
def splitGroup (group : String) : String × String :=
  (String.ofList (group.toList.takeWhile (· ≠ '\x00')), String.ofList ((group.toList.dropWhile (· ≠ '\x00')).drop 1))

/-- The request of every public key that is held, under its `proofMemberKey`. -/
def proofFetches (held : List Entry) : List (String × Request) :=
  (Grouping.classes Entry.group held).flatMap fun rows =>
    let (snapshotBlock, capability) := splitGroup ((rows.head?.map Entry.group).getD "")
    (chunkProofPubkeys snapshotBlock capability (rows.map Entry.pubkey).eraseDups).flatMap fun chunk =>
      chunk.map fun pubkey => (proofMemberKey snapshotBlock capability pubkey, ⟨snapshotBlock, capability, chunk⟩)

/-! ### The pass -/

/-- What the proof says of a row. -/
inductive Verdict where
  | held (notYetAvailable : Bool)
  | refused
  | accepted
  deriving DecidableEq

/-- What the rows meet while no new one is held: the judge's verdict, whether it asks for a proof first,
    the fences of `applyRow` before the judge, and the requests that a 503 answers. -/
structure World where
  verdict : HeldRow → Verdict
  asks : HeldRow → Bool
  fenced : HeldRow → Bool
  busy : Request → Bool

/-- The held rows, the probe cursor of each capability, the keys that are mirrored, and of the running
    pass the requests it made and the shared ones among them. -/
@[ext] structure State where
  holds : AList fun _ : String => HeldRow
  probeCursors : AList fun _ : String => Field := ∅
  mirror : List String := []
  requested : List Request := []
  fetched : List Request := []

/-- One more request. -/
def State.request (st : State) (r : Request) : State := { st with requested := st.requested ++ [r] }

/-- `entry.fetch()`: every call shares one request. -/
def State.fetch (st : State) (r : Request) : State :=
  if r ∈ st.fetched then st else { st.request r with fetched := r :: st.fetched }

/-- The row's own request. -/
def Entry.request (e : Entry) : Request := ⟨e.block.toString, e.capability, [e.pubkey]⟩

variable (w : World)

/-- The proof of a row: with its group's request, or alone where the hub is too busy for that. -/
def fetchProof (fetches : List (String × Request)) (st : State) (e : Entry) : State :=
  -- a later member of one key stands in the map in place of an earlier one
  match fetches.reverse.lookup (proofMemberKey e.block.toString e.capability e.pubkey) with
  | none => st.request e.request
  | some entry =>
    if 1 < entry.pubkeys.length ∧ w.busy entry then (st.fetch entry).request e.request else st.fetch entry

/-- A row that is held no more. -/
def State.release (st : State) (key : String) : State := { st with holds := st.holds.erase key }

/-- `applyRow` of a row the pass approved: an insert that a row of its key keeps out. -/
def State.applyRow (st : State) (e : Entry) : State :=
  if w.fenced e.2 ∨ e.1 ∈ st.mirror then st else { st with mirror := st.mirror ++ [e.1] }

/-- One turn of `processGroup`, and whether the row's proof is not there yet. -/
def processRow (fetches : List (String × Request)) (st : State) (e : Entry) : State × Bool :=
  if e.1 ∈ st.holds then
    let judged := if w.asks e.2 then fetchProof w fetches st e else st
    match w.verdict e.2 with
    | .held notYetAvailable => (judged, notYetAvailable)
    | .refused => (judged.release e.1, false)
    | .accepted => ((judged.applyRow w e).release e.1, false)
  else (st, false)

/-- The rows of a group, and whether the proof of one was not there yet. -/
def processGroup (fetches : List (String × Request)) (st : State) (group : Group) : State × Bool :=
  group.rows.foldl (fun (st, unavailable) e =>
    let (st', notYet) := processRow w fetches st e
    (st', unavailable || notYet)) (st, false)

/-- The groups in turn up to the first one that is unavailable. Also the groups from that one on. -/
def walk (fetches : List (String × Request)) (st : State) : List Group → State × List Group
  | [] => (st, [])
  | group :: rest =>
    match processGroup w fetches st group with
    | (st', true) => (st', group :: rest)
    | (st', false) => walk fetches st' rest

/-- The block that the next pass of a capability goes on from. -/
def State.setCursor (st : State) (capability : String) (block : Field) : State :=
  { st with probeCursors := KeyedMap.assign st.probeCursors capability block }

/-- The next pass starts anew. -/
def State.deleteCursor (st : State) (capability : String) : State :=
  { st with probeCursors := st.probeCursors.erase capability }

/-- Where the probe of the middle groups starts. -/
def probeIndex (cursor : Option Field) (middle : List Group) : ℕ :=
  match cursor with
  | none => 0
  | some cursor => (middle.findIdx? (afterCursor localeCompare cursor)).getD 0

/-- The window of the middle groups, wrapping behind the last. -/
def probe (fetches : List (String × Request)) (capability : String) (st : State) (middle : List Group) : State :=
  let start := probeIndex localeCompare (st.probeCursors.lookup capability) middle
  ((middle.rotate start).take CAPABILITY_PROOF_MIDDLE_PROBE_GROUPS).foldl (fun st group =>
    (processGroup w fetches st group).1.setCursor capability group.snapshotBlock) st

/-- The turn of one capability. -/
def retryCapability (fetches : List (String × Request)) (groups : List Group) (st : State) (capability : String) :
    State :=
  match walk w fetches st groups with
  | (st, []) | (st, [_]) => st.deleteCursor capability
  | (st, _ :: above) =>
    match walk w fetches st above.reverse with
    | (st, []) | (st, [_]) => st.deleteCursor capability
    | (st, _ :: below) => probe localeCompare w fetches capability st below.reverse

/-- The held rows as a pass walks them. -/
def State.held (st : State) : List Entry :=
  st.holds.entries.insertionSort fun left right => compareHeldRows localeCompare left right ≠ .gt

/-- The groups of a capability as a pass walks them. -/
def State.groups (st : State) (capability : String) : List Group :=
  (groupsOf (st.held localeCompare) capability).insertionSort fun left right =>
    compareGroups localeCompare left right ≠ .gt

/-- A pass over the held rows, capability by capability. -/
def retryHeldCapabilityRows (st : State) : State :=
  (capabilitiesOf (st.held localeCompare)).foldl (fun now capability =>
      retryCapability localeCompare w (proofFetches (st.held localeCompare)) (st.groups localeCompare capability)
        now capability)
    { st with requested := [], fetched := [] }

/-! ### What a pass requests -/

section requests

variable {localeCompare w} {fetches : List (String × Request)} {held : List Entry} {st start : State} {e : Entry}

/-- A request for public keys that are held, and for nothing else. -/
def Request.Named (held : List Entry) (r : Request) : Prop :=
  ∀ pubkey ∈ r.pubkeys, ∃ e ∈ held, e.block.toString = r.snapshotBlock ∧ e.capability = r.capability ∧
    e.pubkey = pubkey

theorem Entry.named_request (he : e ∈ held) : e.request.Named held := by
  intro pubkey hp
  exact ⟨e, he, rfl, rfl, (List.mem_singleton.mp hp).symm⟩

theorem addPubkey_flatten (block capability : String) (acc : List (List String) × List String) (value : String) :
    (addPubkey block capability acc value).1.flatten ++ (addPubkey block capability acc value).2 =
      acc.1.flatten ++ acc.2 ++ [value] := by
  unfold addPubkey
  dsimp only
  split
  · rw [List.flatten_append, List.flatten_singleton]
  · rw [List.append_assoc]

/-- Chunking loses no public key and adds none. -/
theorem flatten_chunkProofPubkeys (block capability : String) (pubkeys : List String) :
    (chunkProofPubkeys block capability pubkeys).flatten = pubkeys := by
  have hfold : ∀ (rest : List String) (acc : List (List String) × List String),
      (rest.foldl (addPubkey block capability) acc).1.flatten ++ (rest.foldl (addPubkey block capability) acc).2 =
        acc.1.flatten ++ acc.2 ++ rest := by
    intro rest
    induction rest with
    | nil => intro acc; simp
    | cons value rest ih =>
      intro acc
      rw [List.foldl_cons, ih, addPubkey_flatten, List.append_assoc _ [value], List.singleton_append]
  have hall := hfold pubkeys ([], [])
  unfold chunkProofPubkeys
  generalize pubkeys.foldl (addPubkey block capability) ([], []) = acc at hall ⊢
  obtain ⟨chunks, chunk⟩ := acc
  dsimp only at hall ⊢
  split
  · simp_all
  · simpa using hall

theorem splitGroup_proofGroupKey {block : String} (hblock : '\x00' ∉ block.toList) (capability : String) :
    splitGroup (proofGroupKey block capability) = (block, capability) := by
  have hpos : ∀ c ∈ block.toList, decide (c ≠ '\x00') = true := by
    intro c hc
    exact decide_eq_true (fun h => hblock (h ▸ hc))
  have hchars : (proofGroupKey block capability).toList = block.toList ++ '\x00' :: capability.toList := by
    simp [proofGroupKey]
  unfold splitGroup
  rw [hchars, List.takeWhile_append_of_pos hpos, List.dropWhile_append_of_pos hpos]
  simp

/-- No block is spelled with a NUL. -/
def NulFree (held : List Entry) : Prop := ∀ e ∈ held, '\x00' ∉ e.block.toString.toList

theorem splitGroup_group (hnul : NulFree held) (he : e ∈ held) : splitGroup e.group = (e.block.toString, e.capability) :=
  splitGroup_proofGroupKey (hnul e he) _

/-- The shared requests of a pass are for rows that are held. -/
theorem named_proofFetches (hnul : NulFree held) : ∀ f ∈ proofFetches held, f.2.Named held := by
  intro f hf
  obtain ⟨rows, hrows, hf⟩ := List.mem_flatMap.mp hf
  obtain ⟨first, rest, rfl⟩ := List.exists_cons_of_ne_nil (Grouping.class_ne_nil hrows)
  have hfirst : first ∈ held := Grouping.mem_of_mem_class hrows List.mem_cons_self
  simp only [List.head?_cons, Option.map_some, Option.getD_some, splitGroup_group hnul hfirst, List.mem_flatMap,
    List.mem_map] at hf
  obtain ⟨chunk, hchunk, member, -, rfl⟩ := hf
  intro pubkey hpubkey
  have hall : pubkey ∈ ((first :: rest).map Entry.pubkey).eraseDups := by
    rw [← flatten_chunkProofPubkeys first.block.toString first.capability ((first :: rest).map Entry.pubkey).eraseDups]
    exact List.mem_flatten.mpr ⟨chunk, hchunk, hpubkey⟩
  obtain ⟨e, he, rfl⟩ := List.mem_map.mp (List.mem_eraseDups.mp hall)
  have hkey : e.group = first.group := Grouping.key_eq_of_class hrows he List.mem_cons_self
  have hheld : e ∈ held := Grouping.mem_of_mem_class hrows he
  have hsplit := congrArg splitGroup hkey
  rw [splitGroup_group hnul hheld, splitGroup_group hnul hfirst, Prod.mk.injEq] at hsplit
  exact ⟨e, hheld, hsplit.1, hsplit.2, rfl⟩

end requests

/-! ### What a pass has judged -/

section judged

variable {localeCompare w} {fetches : List (String × Request)} {held judged : List Entry} {st start : State} {e : Entry}

@[simp] theorem request_holds (r : Request) : (st.request r).holds = st.holds := rfl

@[simp] theorem request_mirror (r : Request) : (st.request r).mirror = st.mirror := rfl

@[simp] theorem request_probeCursors (r : Request) : (st.request r).probeCursors = st.probeCursors := rfl

@[simp] theorem fetch_holds (r : Request) : (st.fetch r).holds = st.holds := by
  unfold State.fetch; split <;> rfl

@[simp] theorem fetch_mirror (r : Request) : (st.fetch r).mirror = st.mirror := by
  unfold State.fetch; split <;> rfl

@[simp] theorem fetch_probeCursors (r : Request) : (st.fetch r).probeCursors = st.probeCursors := by
  unfold State.fetch; split <;> rfl

theorem mem_fetch_requested {r r' : Request} (h : r' ∈ (st.fetch r).requested) : r' ∈ st.requested ∨ r' = r := by
  unfold State.fetch at h
  split at h
  · exact Or.inl h
  · simpa [State.request] using h

theorem mem_request_requested {r r' : Request} (h : r' ∈ (st.request r).requested) : r' ∈ st.requested ∨ r' = r := by
  simpa [State.request] using h

/-- Fetching a proof touches nothing but the requests. -/
theorem fetchProof_frame : (fetchProof w fetches st e).holds = st.holds ∧
    (fetchProof w fetches st e).mirror = st.mirror ∧
    (fetchProof w fetches st e).probeCursors = st.probeCursors := by
  unfold fetchProof
  split
  · exact ⟨rfl, rfl, rfl⟩
  · split
    · simp
    · simp

theorem named_fetchProof (hfetches : ∀ f ∈ fetches, f.2.Named held) (he : e ∈ held)
    (hst : ∀ r ∈ st.requested, r.Named held) : ∀ r ∈ (fetchProof w fetches st e).requested, r.Named held := by
  intro r hr
  unfold fetchProof at hr
  split at hr
  · rcases mem_request_requested hr with hr | rfl
    · exact hst r hr
    · exact Entry.named_request he
  · rename_i entry hentry
    have hnamed : entry.Named held := by
      obtain ⟨before, behind, heq, -⟩ := List.lookup_eq_some_iff.mp hentry
      have hmem : (proofMemberKey e.block.toString e.capability e.pubkey, entry) ∈ fetches.reverse :=
        heq ▸ List.mem_append_right _ List.mem_cons_self
      exact hfetches _ (List.mem_reverse.mp hmem)
    have hfetch : ∀ r ∈ (st.fetch entry).requested, r.Named held := by
      intro r hr
      rcases mem_fetch_requested hr with hr | rfl
      · exact hst r hr
      · exact hnamed
    split at hr
    · rcases mem_request_requested hr with hr | rfl
      · exact hfetch r hr
      · exact Entry.named_request he
    · exact hfetch r hr

/-- The rows a judge keeps waiting. -/
def Stays (w : World) (e : Entry) : Prop := ∃ notYetAvailable, w.verdict e.2 = .held notYetAvailable

/-- A row whose proof is not there yet. -/
def isHole (w : World) (e : Entry) : Bool := w.verdict e.2 = .held true

/-- What a pass that found `held` has done once it judged the rows of `judged`. -/
structure Judged (w : World) (held : List Entry) (start : State) (judged : List Entry) (st : State) : Prop where
  holds : ∀ e, e ∈ st.holds.entries ↔ e ∈ held ∧ (e ∈ judged → Stays w e)
  kept : start.mirror ⊆ st.mirror
  landed : ∀ e ∈ judged, w.verdict e.2 = .accepted → w.fenced e.2 = false → e.1 ∈ st.mirror
  named : ∀ r ∈ st.requested, r.Named held

/-- A row of each key. -/
def Keyed (held : List Entry) : Prop := ∀ e ∈ held, ∀ e' ∈ held, e.1 = e'.1 → e = e'

theorem Judged.mem_holds (h : Judged w held start judged st) (hkeyed : Keyed held) (he : e ∈ held) :
    e.1 ∈ st.holds ↔ (e ∈ judged → Stays w e) := by
  rw [KeyedMap.mem_iff_lookup]
  constructor
  · rintro ⟨row, hrow⟩
    have hmem := (h.holds _).mp (KeyedMap.mem_lookup_iff_mem.mp hrow)
    exact hkeyed _ hmem.1 e he rfl ▸ hmem.2
  · intro hstays
    exact ⟨e.2, KeyedMap.mem_lookup_iff_mem.mpr ((h.holds e).mpr ⟨he, hstays⟩)⟩

theorem mem_erase_entries (m : AList fun _ : String => HeldRow) (key : String) :
    e ∈ (m.erase key).entries ↔ e.1 ≠ key ∧ e ∈ m.entries := by
  have h := KeyedMap.lookup_erase m key e.1
  rw [← KeyedMap.mem_lookup_iff_mem (m := m.erase key), h, ← KeyedMap.mem_lookup_iff_mem (m := m)]
  by_cases hkey : e.1 = key <;> simp [hkey]

/-- Judging a row again, or a row of its own, changes nothing that the judged rows are about. -/
theorem Judged.congr {st' : State} (h : Judged w held start judged st) (hholds : st'.holds = st.holds)
    (hmirror : st'.mirror = st.mirror) (hnamed : ∀ r ∈ st'.requested, r.Named held) :
    Judged w held start judged st' :=
  ⟨fun e => by rw [hholds]; exact h.holds e, by rw [hmirror]; exact h.kept, by rw [hmirror]; exact h.landed, hnamed⟩

theorem Judged.ask (h : Judged w held start judged st) (hfetches : ∀ f ∈ fetches, f.2.Named held) (he : e ∈ held) :
    Judged w held start judged (if w.asks e.2 then fetchProof w fetches st e else st) := by
  split
  · exact h.congr fetchProof_frame.1 fetchProof_frame.2.1 (named_fetchProof hfetches he h.named)
  · exact h

theorem Judged.applyRow (h : Judged w held start judged st) (e : Entry) :
    Judged w held start judged (st.applyRow w e) ∧ (w.fenced e.2 = false → e.1 ∈ (st.applyRow w e).mirror) := by
  unfold State.applyRow
  split
  · rename_i hcond
    exact ⟨h, fun hf => hcond.resolve_left (by simp [hf])⟩
  · refine ⟨⟨h.holds, fun k hk => ?_, fun e' he' hacc hfen => ?_, h.named⟩, fun _ => by simp⟩
    · exact List.mem_append_left _ (h.kept hk)
    · exact List.mem_append_left _ (h.landed e' he' hacc hfen)

/-- A row that the verdict lets go. -/
theorem Judged.release (h : Judged w held start judged st) (hkeyed : Keyed held) (he : e ∈ held)
    (hgone : ¬ Stays w e)
    (hland : w.verdict e.2 = .accepted → w.fenced e.2 = false → e.1 ∈ st.mirror) :
    Judged w held start (judged ++ [e]) (st.release e.1) := by
  refine ⟨fun e' => ?_, h.kept, fun e' he' => ?_, h.named⟩
  · unfold State.release
    rw [mem_erase_entries, h.holds e']
    constructor
    · rintro ⟨hne, hheld, hstays⟩
      refine ⟨hheld, fun hmem => ?_⟩
      rcases List.mem_append.mp hmem with hmem | hmem
      · exact hstays hmem
      · exact absurd (congrArg Sigma.fst (List.mem_singleton.mp hmem)) hne
    · rintro ⟨hheld, hstays⟩
      refine ⟨fun hkey => hgone ?_, hheld, fun hmem => hstays (List.mem_append_left _ hmem)⟩
      obtain rfl := hkeyed e' hheld e he hkey
      exact hstays (by simp)
  · rcases List.mem_append.mp he' with he' | he'
    · exact h.landed e' he'
    · exact (List.mem_singleton.mp he').symm ▸ hland

/-- A row that the verdict keeps. -/
theorem Judged.stay (h : Judged w held start judged st) (hstays : Stays w e) :
    Judged w held start (judged ++ [e]) st := by
  refine ⟨fun e' => ?_, h.kept, fun e' he' hacc => ?_, h.named⟩
  · rw [h.holds e']
    refine and_congr_right fun _ => ⟨fun hs hmem => ?_, fun hs hmem => hs (List.mem_append_left _ hmem)⟩
    rcases List.mem_append.mp hmem with hmem | hmem
    · exact hs hmem
    · exact List.mem_singleton.mp hmem ▸ hstays
  · rcases List.mem_append.mp he' with he' | he'
    · exact h.landed e' he' hacc
    · obtain rfl := List.mem_singleton.mp he'
      obtain ⟨notYet, hheld⟩ := hstays
      rw [hacc] at hheld
      cases hheld

/-- A row that has gone before. -/
theorem Judged.again (h : Judged w held start judged st) (he : e ∈ judged) :
    Judged w held start (judged ++ [e]) st := by
  have hmem : ∀ e', e' ∈ judged ++ [e] ↔ e' ∈ judged := by
    intro e'
    rw [List.mem_append, List.mem_singleton]
    exact ⟨fun h' => h'.elim id (fun h' => h' ▸ he), Or.inl⟩
  exact ⟨fun e' => by rw [h.holds e', hmem], h.kept, fun e' he' => h.landed e' ((hmem e').mp he'), h.named⟩

theorem Judged.processRow (h : Judged w held start judged st) (hkeyed : Keyed held)
    (hfetches : ∀ f ∈ fetches, f.2.Named held) (he : e ∈ held) :
    Judged w held start (judged ++ [e]) (processRow w fetches st e).1 ∧
      (processRow w fetches st e).2 = isHole w e := by
  unfold CapabilityRetry.processRow isHole
  by_cases hin : e.1 ∈ st.holds
  · have hask := h.ask hfetches he
    rw [if_pos hin]
    cases hv : w.verdict e.2 with
    | held notYet =>
      refine ⟨hask.stay ⟨notYet, hv⟩, ?_⟩
      cases notYet <;> simp
    | refused =>
      have hgone : ¬ Stays w e := by rintro ⟨b, hb⟩; rw [hv] at hb; cases hb
      exact ⟨hask.release hkeyed he hgone (fun hacc => by rw [hv] at hacc; cases hacc), by simp⟩
    | accepted =>
      have hgone : ¬ Stays w e := by rintro ⟨b, hb⟩; rw [hv] at hb; cases hb
      obtain ⟨happ, hland⟩ := hask.applyRow e
      exact ⟨happ.release hkeyed he hgone (fun _ => hland), by simp⟩
  · rw [if_neg hin]
    have hnot : ¬ (e ∈ judged → Stays w e) := fun hs => hin ((h.mem_holds hkeyed he).mpr hs)
    obtain ⟨hmem, hgone⟩ := Classical.not_imp.mp hnot
    refine ⟨h.again hmem, ?_⟩
    have : w.verdict e.2 ≠ .held true := fun hv => hgone ⟨true, hv⟩
    simpa using this

/-- A group with a row whose proof is not there yet. -/
def Group.unavailable (w : World) (group : Group) : Bool := group.rows.any (isHole w)

theorem Judged.processGroup {group : Group} (h : Judged w held start judged st) (hkeyed : Keyed held)
    (hfetches : ∀ f ∈ fetches, f.2.Named held) (hrows : group.rows ⊆ held) :
    Judged w held start (judged ++ group.rows) (processGroup w fetches st group).1 ∧
      (processGroup w fetches st group).2 = group.unavailable w := by
  have hfold : ∀ (rows : List Entry) (judged : List Entry) (st : State) (unavailable : Bool), rows ⊆ held →
      Judged w held start judged st →
      Judged w held start (judged ++ rows) (rows.foldl (fun (st, unavailable) e =>
        let (st', notYet) := CapabilityRetry.processRow w fetches st e
        (st', unavailable || notYet)) (st, unavailable)).1 ∧
      (rows.foldl (fun (st, unavailable) e =>
        let (st', notYet) := CapabilityRetry.processRow w fetches st e
        (st', unavailable || notYet)) (st, unavailable)).2 = (unavailable || rows.any (isHole w)) := by
    intro rows
    induction rows with
    | nil => intro judged st unavailable _ h; simpa using h
    | cons e rows ih =>
      intro judged st unavailable hrows h
      obtain ⟨hrow, hnot⟩ := h.processRow hkeyed hfetches (hrows List.mem_cons_self)
      have hrest := ih (judged ++ [e]) _ (unavailable || isHole w e)
        (fun e' he' => hrows (List.mem_cons_of_mem _ he')) hrow
      rw [List.append_assoc, List.singleton_append] at hrest
      rw [List.foldl_cons, List.any_cons, ← Bool.or_assoc]
      simpa only [hnot] using hrest
  have := hfold group.rows judged st false hrows h
  rwa [Bool.false_or] at this

/-- The rows of some groups. -/
def rowsOf (groups : List Group) : List Entry := groups.flatMap Group.rows

theorem rowsOf_append (gs gs' : List Group) : rowsOf (gs ++ gs') = rowsOf gs ++ rowsOf gs' := List.flatMap_append

theorem Judged.walk {groups : List Group} (h : Judged w held start judged st) (hkeyed : Keyed held)
    (hfetches : ∀ f ∈ fetches, f.2.Named held) (hrows : rowsOf groups ⊆ held) :
    Judged w held start (judged ++ rowsOf (RoundRobin.walked (Group.unavailable w) groups))
        (walk w fetches st groups).1 ∧
      (walk w fetches st groups).2 = groups.dropWhile (!Group.unavailable w ·) := by
  induction groups generalizing judged st with
  | nil => simpa [CapabilityRetry.walk, RoundRobin.walked, rowsOf] using h
  | cons group rest ih =>
    have hsub : group.rows ⊆ held := fun e he => hrows (List.mem_append_left _ he)
    have hrest : rowsOf rest ⊆ held := fun e he => hrows (List.mem_append_right _ he)
    obtain ⟨hgroup, hun⟩ := h.processGroup hkeyed hfetches hsub
    unfold CapabilityRetry.walk
    generalize CapabilityRetry.processGroup w fetches st group = result at hgroup hun ⊢
    obtain ⟨st', unavailable⟩ := result
    dsimp only at hgroup hun
    subst hun
    by_cases hu : group.unavailable w
    · simpa [hu, RoundRobin.walked, rowsOf] using hgroup
    · have hgo := ih hgroup hrest
      simpa [hu, RoundRobin.walked, rowsOf, List.append_assoc] using hgo

/-! #### The cursors -/

theorem processRow_probeCursors : (processRow w fetches st e).1.probeCursors = st.probeCursors := by
  have hask : (if w.asks e.2 then fetchProof w fetches st e else st).probeCursors = st.probeCursors := by
    split
    · exact fetchProof_frame.2.2
    · rfl
  have happ : ∀ st : State, (st.applyRow w e).probeCursors = st.probeCursors := by
    intro st
    unfold State.applyRow
    split <;> rfl
  unfold processRow
  split
  · dsimp only
    split
    · exact hask
    · exact hask
    · exact (happ _).trans hask
  · rfl

theorem processGroup_probeCursors (group : Group) :
    (processGroup w fetches st group).1.probeCursors = st.probeCursors := by
  have hfold : ∀ (rows : List Entry) (acc : State × Bool), (rows.foldl (fun (st, unavailable) e =>
      let (st', notYet) := processRow w fetches st e
      (st', unavailable || notYet)) acc).1.probeCursors = acc.1.probeCursors := by
    intro rows
    induction rows with
    | nil => exact fun _ => rfl
    | cons e rows ih =>
      intro acc
      rw [List.foldl_cons, ih]
      exact processRow_probeCursors
  exact hfold group.rows (st, false)

theorem walk_probeCursors (groups : List Group) : (walk w fetches st groups).1.probeCursors = st.probeCursors := by
  induction groups generalizing st with
  | nil => rfl
  | cons group rest ih =>
    unfold walk
    have hgroup : (processGroup w fetches st group).1.probeCursors = st.probeCursors := processGroup_probeCursors group
    generalize processGroup w fetches st group = result at hgroup ⊢
    obtain ⟨st', unavailable⟩ := result
    cases unavailable
    · exact ih.trans hgroup
    · exact hgroup

/-- The groups in the probe window of a pass. -/
def window (localeCompare : String → String → Ordering) (w : World) (cursor : Option Field) (groups : List Group) :
    List Group :=
  let middle := RoundRobin.between (Group.unavailable w) groups
  (middle.rotate (probeIndex localeCompare cursor middle)).take CAPABILITY_PROOF_MIDDLE_PROBE_GROUPS

/-- The groups of a capability whose rows a pass judges. -/
def judgedGroups (localeCompare : String → String → Ordering) (w : World) (cursor : Option Field)
    (groups : List Group) : List Group :=
  RoundRobin.walked (Group.unavailable w) groups ++
    RoundRobin.walked (Group.unavailable w) (RoundRobin.beyond (Group.unavailable w) groups).reverse ++
    window localeCompare w cursor groups

theorem window_subset (cursor : Option Field) (groups : List Group) :
    window localeCompare w cursor groups ⊆ RoundRobin.between (Group.unavailable w) groups := by
  intro g hg
  exact List.mem_rotate.mp (List.mem_of_mem_take hg)

theorem judgedGroups_subset (cursor : Option Field) (groups : List Group) :
    judgedGroups localeCompare w cursor groups ⊆ groups := by
  intro g hg
  have hwalked : ∀ l : List Group, RoundRobin.walked (Group.unavailable w) l ⊆ l := by
    intro l x hx
    rw [← RoundRobin.walked_append_beyond (Group.unavailable w) l]
    exact List.mem_append_left _ hx
  have hbeyond : RoundRobin.beyond (Group.unavailable w) groups ⊆ groups := by
    intro x hx
    rw [← RoundRobin.walked_append_beyond (Group.unavailable w) groups]
    exact List.mem_append_right _ hx
  simp only [judgedGroups, List.mem_append] at hg
  rcases hg with (hg | hg) | hg
  · exact hwalked _ hg
  · exact hbeyond (List.mem_reverse.mp (hwalked _ hg))
  · exact (RoundRobin.between_sublist _ _).subset (window_subset _ _ hg)

theorem rowsOf_subset {gs gs' : List Group} (h : gs ⊆ gs') : rowsOf gs ⊆ rowsOf gs' := by
  intro e he
  obtain ⟨g, hg, he⟩ := List.mem_flatMap.mp he
  exact List.mem_flatMap.mpr ⟨g, h hg, he⟩

/-- The turns of the probe window. -/
theorem Judged.probe {groups : List Group} (capability : String) (h : Judged w held start judged st)
    (hkeyed : Keyed held) (hfetches : ∀ f ∈ fetches, f.2.Named held) (hrows : rowsOf groups ⊆ held) :
    Judged w held start (judged ++ rowsOf groups) (groups.foldl (fun st group =>
      (CapabilityRetry.processGroup w fetches st group).1.setCursor capability group.snapshotBlock) st) := by
  induction groups generalizing judged st with
  | nil => simpa [rowsOf] using h
  | cons group rest ih =>
    obtain ⟨hgroup, -⟩ := h.processGroup hkeyed hfetches (fun e he => hrows (List.mem_append_left _ he))
    have hset : Judged w held start (judged ++ group.rows)
        ((CapabilityRetry.processGroup w fetches st group).1.setCursor capability group.snapshotBlock) :=
      hgroup.congr rfl rfl hgroup.named
    have hrest := ih hset (fun e he => hrows (List.mem_append_right _ he))
    rw [List.append_assoc] at hrest
    exact hrest

@[simp] theorem setCursor_lookup (capability capability' : String) (block : Field) :
    (st.setCursor capability block).probeCursors.lookup capability' =
      if capability' = capability then some block else st.probeCursors.lookup capability' :=
  KeyedMap.lookup_assign ..

@[simp] theorem deleteCursor_lookup (capability capability' : String) :
    (st.deleteCursor capability).probeCursors.lookup capability' =
      if capability' = capability then none else st.probeCursors.lookup capability' :=
  KeyedMap.lookup_erase ..

theorem probe_lookup (capability : String) (groups : List Group) (capability' : String) :
    (groups.foldl (fun st group =>
      (processGroup w fetches st group).1.setCursor capability group.snapshotBlock) st).probeCursors.lookup capability' =
    if capability' = capability ∧ groups ≠ [] then groups.getLast?.map Group.snapshotBlock
    else st.probeCursors.lookup capability' := by
  induction groups using List.reverseRecOn with
  | nil => simp
  | append_singleton groups group ih =>
    rw [List.foldl_append, List.foldl_cons, List.foldl_nil, setCursor_lookup, processGroup_probeCursors, ih,
      List.getLast?_concat]
    by_cases hcap : capability' = capability
    · simp [hcap]
    · simp [hcap]

/-- The turn of a capability: a walk up, a walk down, and the window where they leave groups between. -/
theorem retryCapability_eq (groups : List Group) (st : State) (capability : String) :
    retryCapability localeCompare w fetches groups st capability =
      let up := walk w fetches st groups
      let down := walk w fetches up.1 up.2.tail.reverse
      if down.2.tail = [] then down.1.deleteCursor capability
      else probe localeCompare w fetches capability down.1 down.2.tail.reverse := by
  unfold retryCapability
  generalize walk w fetches st groups = up
  obtain ⟨st₁, _ | ⟨hole, _ | ⟨g, above⟩⟩⟩ := up
  · simp [walk]
  · simp [walk]
  · rcases hdown : walk w fetches st₁ (g :: above).reverse with ⟨st₂, _ | ⟨hole', _ | ⟨g', below⟩⟩⟩
    · simp only [List.tail_cons, hdown, List.tail_nil, if_true]
    · simp only [List.tail_cons, hdown, if_true]
    · simp only [List.tail_cons, hdown, reduceCtorEq, if_false]

theorem judged_retryCapability (localeCompare : String → String → Ordering) {groups : List Group} (capability : String) (h : Judged w held start judged st)
    (hkeyed : Keyed held) (hfetches : ∀ f ∈ fetches, f.2.Named held) (hrows : rowsOf groups ⊆ held) :
    Judged w held start
        (judged ++ rowsOf (judgedGroups localeCompare w (st.probeCursors.lookup capability) groups))
        (retryCapability localeCompare w fetches groups st capability) ∧
      ∀ capability', (retryCapability localeCompare w fetches groups st capability).probeCursors.lookup capability' =
        if capability' = capability then
          (window localeCompare w (st.probeCursors.lookup capability) groups).getLast?.map Group.snapshotBlock
        else st.probeCursors.lookup capability' := by
  have hall : ∀ gs ⊆ groups, rowsOf gs ⊆ held := fun gs hgs e he => hrows (rowsOf_subset hgs he)
  have hbeyond : (RoundRobin.beyond (Group.unavailable w) groups).reverse ⊆ groups := by
    intro g hg
    rw [← RoundRobin.walked_append_beyond (Group.unavailable w) groups]
    exact List.mem_append_right _ (List.mem_reverse.mp hg)
  obtain ⟨hup, hleft⟩ := h.walk hkeyed hfetches hrows
  obtain ⟨hdown, hrest⟩ := hup.walk hkeyed hfetches (hall _ hbeyond)
  have hcursors : (walk w fetches (walk w fetches st groups).1
      (RoundRobin.beyond (Group.unavailable w) groups).reverse).1.probeCursors = st.probeCursors :=
    (walk_probeCursors _).trans (walk_probeCursors _)
  have htail : (walk w fetches st groups).2.tail = RoundRobin.beyond (Group.unavailable w) groups := by
    rw [hleft]
    rfl
  rw [retryCapability_eq]
  dsimp only
  rw [htail]
  generalize walk w fetches (walk w fetches st groups).1 (RoundRobin.beyond (Group.unavailable w) groups).reverse =
    down at hdown hrest hcursors ⊢
  have hbetween : down.2.tail.reverse = RoundRobin.between (Group.unavailable w) groups := by
    rw [hrest]
    rfl
  have hempty : down.2.tail = [] ↔ RoundRobin.between (Group.unavailable w) groups = [] := by
    rw [← hbetween, List.reverse_eq_nil_iff]
  rw [hbetween]
  unfold judgedGroups
  rw [rowsOf_append, rowsOf_append, ← List.append_assoc, ← List.append_assoc]
  split
  · rename_i hnil
    have hwindow : window localeCompare w (st.probeCursors.lookup capability) groups = [] := by
      rw [window, hempty.mp hnil]
      rfl
    rw [hwindow]
    refine ⟨?_, fun capability' => by rw [deleteCursor_lookup, hcursors]; rfl⟩
    have hdeleted : Judged w held start _ (down.1.deleteCursor capability) := hdown.congr rfl rfl hdown.named
    simpa [rowsOf] using hdeleted
  · rename_i hne
    have hwindow : window localeCompare w (st.probeCursors.lookup capability) groups ≠ [] := by
      intro hnil
      refine hne (hempty.mpr ?_)
      have hlen := congrArg List.length hnil
      rw [window, List.length_take, List.length_rotate, List.length_nil] at hlen
      exact List.eq_nil_of_length_eq_zero (by unfold CAPABILITY_PROOF_MIDDLE_PROBE_GROUPS at hlen; omega)
    have hsub : rowsOf (window localeCompare w (st.probeCursors.lookup capability) groups) ⊆ held := by
      refine hall _ fun g hg => ?_
      exact (RoundRobin.between_sublist _ _).subset (window_subset _ _ hg)
    have hprobe : probe localeCompare w fetches capability down.1 (RoundRobin.between (Group.unavailable w) groups) =
        (window localeCompare w (st.probeCursors.lookup capability) groups).foldl (fun st group =>
          (processGroup w fetches st group).1.setCursor capability group.snapshotBlock) down.1 := by
      rw [← hcursors]
      rfl
    rw [hprobe]
    refine ⟨hdown.probe capability hkeyed hfetches hsub, fun capability' => ?_⟩
    rw [probe_lookup, hcursors]
    by_cases hcap : capability' = capability
    · rw [if_pos ⟨hcap, hwindow⟩, if_pos hcap]
    · rw [if_neg (fun h => hcap h.1), if_neg hcap]

end judged

/-! ### The groups of a pass -/

section groups

variable {localeCompare w} {held : List Entry} {st : State} {e e' : Entry} {g g' : Group} {capability : String}

theorem proofGroupKey_inj {block block' capability : String}
    (h : proofGroupKey block capability = proofGroupKey block' capability) : block = block' := by
  have hchars := congrArg String.toList h
  simp only [proofGroupKey, String.toList_append, List.append_left_inj] at hchars
  exact String.toList_inj.mp hchars

theorem mem_groupsOf : g ∈ groupsOf held capability ↔
    ∃ rows ∈ Grouping.classes Entry.group (held.filter (·.capability = capability)), Group.ofRows rows = some g :=
  List.mem_filterMap

theorem ofRows_eq_some {rows : List Entry} (h : Group.ofRows rows = some g) :
    g.rows = rows ∧ ∃ first ∈ rows, g.snapshotBlock = first.block := by
  cases rows with
  | nil => cases h
  | cons first rest =>
    obtain rfl := Option.some.inj h
    exact ⟨rfl, first, List.mem_cons_self, rfl⟩

theorem mem_of_mem_rows (hg : g ∈ groupsOf held capability) (he : e ∈ g.rows) :
    e ∈ held ∧ e.capability = capability := by
  obtain ⟨rows, hrows, hof⟩ := mem_groupsOf.mp hg
  rw [(ofRows_eq_some hof).1] at he
  simpa using Grouping.mem_of_mem_class hrows he

/-- The rows of a group spell their block alike. -/
theorem block_of_mem_rows (hg : g ∈ groupsOf held capability) (he : e ∈ g.rows) :
    e.block.toString = g.snapshotBlock.toString := by
  have hcap := (mem_of_mem_rows hg he).2
  obtain ⟨rows, hrows, hof⟩ := mem_groupsOf.mp hg
  obtain ⟨hrowsEq, first, hfirst, hblock⟩ := ofRows_eq_some hof
  have hcap' := (mem_of_mem_rows hg (hrowsEq ▸ hfirst)).2
  rw [hrowsEq] at he
  have hkey : e.group = first.group := Grouping.key_eq_of_class hrows he hfirst
  unfold Entry.group at hkey
  rw [hcap, hcap'] at hkey
  rw [hblock]
  exact proofGroupKey_inj hkey

theorem exists_first (hg : g ∈ groupsOf held capability) : ∃ e ∈ g.rows, g.snapshotBlock = e.block := by
  obtain ⟨rows, -, hof⟩ := mem_groupsOf.mp hg
  obtain ⟨hrowsEq, first, hfirst, hblock⟩ := ofRows_eq_some hof
  exact ⟨first, hrowsEq ▸ hfirst, hblock⟩

theorem exists_group (he : e ∈ held) : ∃ g ∈ groupsOf held e.capability, e ∈ g.rows := by
  obtain ⟨rows, hrows, hmem⟩ : ∃ rows ∈ Grouping.classes Entry.group (held.filter (·.capability = e.capability)), e ∈ rows :=
    Grouping.exists_class (List.mem_filter.mpr ⟨he, decide_eq_true rfl⟩)
  obtain ⟨first, rest, rfl⟩ := List.exists_cons_of_ne_nil (List.ne_nil_of_mem hmem)
  exact ⟨⟨first.block, first :: rest⟩, mem_groupsOf.mpr ⟨_, hrows, rfl⟩, hmem⟩

/-- Two groups of a capability spell their blocks differently. -/
theorem groupsOf_pairwise (held : List Entry) (capability : String) :
    (groupsOf held capability).Pairwise fun g g' => g.snapshotBlock.toString ≠ g'.snapshotBlock.toString := by
  unfold groupsOf
  rw [List.pairwise_filterMap]
  refine Grouping.classes_pairwise.imp_of_mem ?_
  intro rows rows' hrows hrows' hne g hg g' hg' heq
  obtain ⟨-, first, hfirst, hblock⟩ := ofRows_eq_some hg
  obtain ⟨-, first', hfirst', hblock'⟩ := ofRows_eq_some hg'
  have hcap := Grouping.mem_of_mem_class hrows hfirst
  have hcap' := Grouping.mem_of_mem_class hrows' hfirst'
  simp only [List.mem_filter, decide_eq_true_eq] at hcap hcap'
  refine hne first hfirst first' hfirst' ?_
  unfold Entry.group
  rw [← hblock, ← hblock', heq, hcap.2, hcap'.2]

theorem mem_held : e ∈ st.held localeCompare ↔ e ∈ st.holds.entries := List.mem_insertionSort _

theorem keyed_held : Keyed (st.held localeCompare) := by
  intro e he e' he' hkey
  have h := KeyedMap.mem_lookup_iff_mem.mpr (mem_held.mp he)
  have h' := KeyedMap.mem_lookup_iff_mem.mpr (mem_held.mp he')
  rw [hkey, h', Option.some.injEq] at h
  exact Sigma.ext hkey (heq_of_eq h.symm)

theorem mem_groups : g ∈ st.groups localeCompare capability ↔ g ∈ groupsOf (st.held localeCompare) capability :=
  List.mem_insertionSort _

theorem mem_rowsOf_groups :
    e ∈ rowsOf (st.groups localeCompare capability) ↔ e ∈ st.holds.entries ∧ e.capability = capability := by
  rw [rowsOf, List.mem_flatMap]
  constructor
  · rintro ⟨g, hg, he⟩
    exact (mem_of_mem_rows (mem_groups.mp hg) he).imp_left mem_held.mp
  · rintro ⟨he, rfl⟩
    have hheld : e ∈ st.held localeCompare := mem_held.mpr he
    obtain ⟨g, hg, hmem⟩ := exists_group hheld
    exact ⟨g, mem_groups.mpr hg, hmem⟩

theorem length_groups_le (localeCompare : String → String → Ordering) (st : State) (capability : String) :
    (st.groups localeCompare capability).length ≤ st.holds.entries.length := by
  rw [State.groups, List.length_insertionSort, groupsOf]
  refine ((List.length_filterMap_le _ _).trans (Grouping.length_classes_le _ _)).trans ?_
  refine (List.length_filter_le _ _).trans ?_
  rw [State.held, List.length_insertionSort]

end groups

/-! ### A pass -/

section pass

variable {localeCompare w} {held : List Entry} {st : State} {e : Entry} {capability : String}

/-- The rows of a capability that a pass from `st` judges. -/
def State.judgedRows (localeCompare : String → String → Ordering) (w : World) (st : State) (capability : String) :
    List Entry :=
  rowsOf (judgedGroups localeCompare w (st.probeCursors.lookup capability) (st.groups localeCompare capability))

theorem judgedRows_subset : st.judgedRows localeCompare w capability ⊆ rowsOf (st.groups localeCompare capability) :=
  rowsOf_subset (judgedGroups_subset _ _)

theorem judged_capabilities {fetches : List (String × Request)} {judged : List Entry} {now : State}
    (hfetches : ∀ f ∈ fetches, f.2.Named (st.held localeCompare)) (capabilities : List String) (hnd : capabilities.Nodup)
    (h : Judged w (st.held localeCompare) st judged now)
    (hcursors : ∀ c ∈ capabilities, now.probeCursors.lookup c = st.probeCursors.lookup c) :
    let passed := capabilities.foldl (fun now capability =>
      retryCapability localeCompare w fetches (st.groups localeCompare capability) now capability) now
    Judged w (st.held localeCompare) st (judged ++ capabilities.flatMap (st.judgedRows localeCompare w)) passed ∧
      ∀ c, passed.probeCursors.lookup c =
        if c ∈ capabilities then
          (window localeCompare w (st.probeCursors.lookup c) (st.groups localeCompare c)).getLast?.map Group.snapshotBlock
        else now.probeCursors.lookup c := by
  induction capabilities generalizing judged now with
  | nil => exact ⟨by simpa using h, by simp⟩
  | cons c rest ih =>
    obtain ⟨hc, hrest⟩ := List.nodup_cons.mp hnd
    have hsub : rowsOf (st.groups localeCompare c) ⊆ st.held localeCompare := by
      intro e he
      exact mem_held.mpr (mem_rowsOf_groups.mp he).1
    obtain ⟨hturn, hlookup⟩ := judged_retryCapability localeCompare c h keyed_held hfetches hsub
    rw [hcursors c List.mem_cons_self] at hturn hlookup
    have hothers : ∀ c' ∈ rest, (retryCapability localeCompare w fetches (st.groups localeCompare c) now c).probeCursors.lookup
        c' = st.probeCursors.lookup c' := by
      intro c' hc'
      have hne : c' ≠ c := fun heq => hc (heq ▸ hc')
      rw [hlookup, if_neg hne]
      exact hcursors c' (List.mem_cons_of_mem _ hc')
    obtain ⟨hgo, hgoLookup⟩ := ih hrest hturn hothers
    dsimp only
    rw [List.foldl_cons, List.flatMap_cons, ← List.append_assoc]
    refine ⟨hgo, fun c' => ?_⟩
    rw [hgoLookup, hlookup]
    by_cases hin : c' ∈ rest
    · rw [if_pos hin, if_pos (List.mem_cons_of_mem _ hin)]
    · by_cases heq : c' = c
      · rw [if_neg hin, if_pos heq, heq, if_pos List.mem_cons_self]
      · rw [if_neg hin, if_neg heq, if_neg (by simp [hin, heq])]

/-- What a pass does: it judges its rows, and leaves the cursor of a capability at the last of the window. -/
structure Passed (localeCompare : String → String → Ordering) (w : World) (st st' : State) : Prop where
  holds : ∀ e : Entry, e ∈ st'.holds.entries ↔
    e ∈ st.holds.entries ∧ (e ∈ st.judgedRows localeCompare w e.capability → Stays w e)
  mirror : st.mirror ⊆ st'.mirror
  landed : ∀ e ∈ st.holds.entries, e ∉ st'.holds.entries → w.verdict e.2 = .accepted → w.fenced e.2 = false →
    e.1 ∈ st'.mirror
  cursor : ∀ capability, st.groups localeCompare capability ≠ [] →
    st'.probeCursors.lookup capability = (window localeCompare w (st.probeCursors.lookup capability)
      (st.groups localeCompare capability)).getLast?.map Group.snapshotBlock
  named : ∀ r ∈ st'.requested, r.Named st.holds.entries

theorem passed (hnul : NulFree st.holds.entries) :
    Passed localeCompare w st (retryHeldCapabilityRows localeCompare w st) := by
  have hnul' : NulFree (st.held localeCompare) := fun e he => hnul e (mem_held.mp he)
  have hstart : Judged w (st.held localeCompare) st [] { st with requested := [], fetched := [] } :=
    ⟨fun e => by simp [mem_held], fun _ hk => hk, by simp, by simp⟩
  obtain ⟨hpass, hcursor⟩ := judged_capabilities (named_proofFetches hnul') (capabilitiesOf (st.held localeCompare))
    (Grouping.nodup_eraseDups _) hstart (fun _ _ => rfl)
  rw [List.nil_append] at hpass
  change Judged w _ _ _ (retryHeldCapabilityRows localeCompare w st) at hpass
  have hmem : ∀ e : Entry, e ∈ st.holds.entries → (
      e ∈ (capabilitiesOf (st.held localeCompare)).flatMap (st.judgedRows localeCompare w) ↔
        e ∈ st.judgedRows localeCompare w e.capability) := by
    intro e he
    rw [List.mem_flatMap]
    constructor
    · rintro ⟨c, -, hc⟩
      rwa [(mem_rowsOf_groups.mp (judgedRows_subset hc)).2]
    · intro hrow
      exact ⟨_, List.mem_eraseDups.mpr (List.mem_map_of_mem (mem_held.mpr he)), hrow⟩
  have hholds : ∀ e : Entry, e ∈ (retryHeldCapabilityRows localeCompare w st).holds.entries ↔
      e ∈ st.holds.entries ∧ (e ∈ st.judgedRows localeCompare w e.capability → Stays w e) := by
    intro e
    rw [hpass.holds, mem_held]
    exact and_congr_right fun he => by rw [hmem e he]
  refine ⟨hholds, hpass.kept, fun e he hgone hacc hfen => ?_, fun c hc => ?_, fun r hr pubkey hp => ?_⟩
  · have hnot : ¬ (e ∈ st.judgedRows localeCompare w (Entry.capability e) → Stays w e) :=
      fun hs => hgone ((hholds e).mpr ⟨he, hs⟩)
    exact hpass.landed e ((hmem e he).mpr (Classical.not_imp.mp hnot).1) hacc hfen
  · obtain ⟨g, hg⟩ := List.exists_mem_of_ne_nil _ hc
    obtain ⟨first, hfirst, -⟩ := exists_first (mem_groups.mp hg)
    obtain ⟨hheld, hcap⟩ := mem_of_mem_rows (mem_groups.mp hg) hfirst
    have hin : c ∈ capabilitiesOf (st.held localeCompare) :=
      List.mem_eraseDups.mpr (List.mem_map.mpr ⟨first, hheld, hcap⟩)
    exact (hcursor c).trans (if_pos hin)
  · obtain ⟨e, he, hrest⟩ := hpass.named r hr pubkey hp
    exact ⟨e, mem_held.mp he, hrest⟩

end pass

/-! ### Blocks that are numbers -/

section levels

variable {localeCompare w} {st : State} {e : Entry} {g : Group} {capability : String}

/-- The block of a row or a group as a number. -/
def level (block : Field) : ℤ := (height block).getD 0

theorem height_eq_some {block : Field} (h : (height block).isSome) : height block = some (level block) := by
  obtain ⟨n, hn⟩ := Option.isSome_iff_exists.mp h
  rw [level, hn, Option.getD_some]

theorem isSome_toNumber {block : Field} (h : (height block).isSome) : block.toNumber.isSome := by
  unfold height at h
  cases hn : block.toNumber with
  | none => rw [hn] at h; cases h
  | some q => rfl

/-- Two blocks that are safe integers and are spelled alike are the same integer. -/
theorem height_congr {block block' : Field} (h : (height block).isSome) (h' : (height block').isSome)
    (hspell : block.toString = block'.toString) : height block = height block' := by
  have hgiven : ∀ f : Field, (height f).isSome → f.given = false → f = .null := by
    intro f hf hnot
    cases f with
    | absent => cases hf
    | null => rfl
    | text s => cases hnot
    | number n => cases hnot
  have hnull : ∀ f : Field, (height f).isSome → f.toString = "null" → f.given = false := by
    intro f hf hs
    by_contra hg
    have hnumber := isSome_toNumber hf
    rw [JsNumber.Field.toNumber_eq_ofText (by simpa using hg), hs] at hnumber
    revert hnumber
    decide
  by_cases hg : block.given
  · by_cases hg' : block'.given
    · unfold height
      rw [JsNumber.Field.toNumber_eq_ofText hg, JsNumber.Field.toNumber_eq_ofText hg', hspell]
    · have hb' := hgiven block' h' (by simpa using hg')
      have := hnull block h (by rw [hspell, hb']; rfl)
      rw [hg] at this
      cases this
  · have hb := hgiven block h (by simpa using hg)
    have := hnull block' h' (by rw [← hspell, hb]; rfl)
    rw [hb, hgiven block' h' this]

/-- The held blocks of a capability are safe integers, and no two of them spell one number differently. -/
structure Canonical (st : State) (capability : String) : Prop where
  safe : ∀ e : Entry, e ∈ st.holds.entries → e.capability = capability → (height e.block).isSome
  spelled : ∀ e e' : Entry, e ∈ st.holds.entries → e' ∈ st.holds.entries → e.capability = capability →
    e'.capability = capability → height e.block = height e'.block → e.block.toString = e'.block.toString

theorem Canonical.safe_group (h : Canonical st capability) (hg : g ∈ groupsOf (st.held localeCompare) capability) :
    (height g.snapshotBlock).isSome := by
  obtain ⟨first, hfirst, hblock⟩ := exists_first hg
  obtain ⟨hheld, hcap⟩ := mem_of_mem_rows hg hfirst
  exact hblock ▸ h.safe first (mem_held.mp hheld) hcap

theorem Canonical.level_row (h : Canonical st capability) (hg : g ∈ groupsOf (st.held localeCompare) capability)
    (he : e ∈ g.rows) : level e.block = level g.snapshotBlock := by
  obtain ⟨hheld, hcap⟩ := mem_of_mem_rows hg he
  rw [level, level, height_congr (h.safe e (mem_held.mp hheld) hcap) (h.safe_group hg) (block_of_mem_rows hg he)]

/-- Two groups of one level are spelled alike. -/
theorem Canonical.spelled_group {g' : Group} (h : Canonical st capability)
    (hg : g ∈ groupsOf (st.held localeCompare) capability) (hg' : g' ∈ groupsOf (st.held localeCompare) capability)
    (hlevel : level g.snapshotBlock = level g'.snapshotBlock) :
    g.snapshotBlock.toString = g'.snapshotBlock.toString := by
  have hheight : height g.snapshotBlock = height g'.snapshotBlock := by
    rw [height_eq_some (h.safe_group hg), height_eq_some (h.safe_group hg'), hlevel]
  obtain ⟨first, hfirst, hblock⟩ := exists_first hg
  obtain ⟨first', hfirst', hblock'⟩ := exists_first hg'
  obtain ⟨hheld, hcap⟩ := mem_of_mem_rows hg hfirst
  obtain ⟨hheld', hcap'⟩ := mem_of_mem_rows hg' hfirst'
  rw [hblock, hblock'] at hheight ⊢
  exact h.spelled first first' (mem_held.mp hheld) (mem_held.mp hheld') hcap hcap' hheight

theorem compareGroups_ne_gt {g g' : Group} (h : (height g.snapshotBlock).isSome) (h' : (height g'.snapshotBlock).isSome)
    (hne : level g.snapshotBlock ≠ level g'.snapshotBlock) :
    compareGroups localeCompare g g' ≠ .gt ↔ level g.snapshotBlock ≤ level g'.snapshotBlock := by
  unfold compareGroups blockOrder
  rw [height_eq_some h, height_eq_some h']
  dsimp only
  rw [if_pos hne, Option.getD_some, Ne, compare_gt_iff_gt, not_lt]

/-- A sort by a relation that says of every two members what their keys say sorts the keys. -/
theorem map_insertionSort {α : Type*} {r : α → α → Prop} [DecidableRel r] {key : α → ℤ} {l : List α}
    (h : l.Pairwise fun a b => r a b ↔ key a ≤ key b) :
    (l.insertionSort r).map key = (l.map key).insertionSort (· ≤ ·) := by
  have hinsert : ∀ (a : α) (l : List α), (∀ b ∈ l, r a b ↔ key a ≤ key b) →
      (l.orderedInsert r a).map key = (l.map key).orderedInsert (· ≤ ·) (key a) := by
    intro a l
    induction l with
    | nil => exact fun _ => rfl
    | cons b l ih =>
      intro hl
      have hb := hl b List.mem_cons_self
      rw [List.orderedInsert, List.map_cons, List.orderedInsert]
      by_cases hab : r a b
      · rw [if_pos hab, if_pos (hb.mp hab), List.map_cons, List.map_cons]
      · rw [if_neg hab, if_neg (fun hle => hab (hb.mpr hle)), List.map_cons,
          ih fun c hc => hl c (List.mem_cons_of_mem _ hc)]
  induction l with
  | nil => rfl
  | cons a l ih =>
    obtain ⟨ha, hl⟩ := List.pairwise_cons.mp h
    rw [List.insertionSort_cons, List.map_cons, List.insertionSort_cons, ← ih hl]
    exact hinsert a _ fun b hb => ha b ((List.mem_insertionSort r).mp hb)

/-- The groups of a capability come in the order of their levels, one for each level. -/
theorem Canonical.groups_pairwise (h : Canonical st capability) (localeCompare : String → String → Ordering) :
    (st.groups localeCompare capability).Pairwise fun g g' => level g.snapshotBlock < level g'.snapshotBlock := by
  have hne : (groupsOf (st.held localeCompare) capability).Pairwise fun g g' =>
      level g.snapshotBlock ≠ level g'.snapshotBlock :=
    (groupsOf_pairwise _ capability).imp_of_mem fun hg hg' hspell hlevel => hspell (h.spelled_group hg hg' hlevel)
  have hmap : (st.groups localeCompare capability).map (fun g => level g.snapshotBlock) =
      ((groupsOf (st.held localeCompare) capability).map fun g => level g.snapshotBlock).insertionSort (· ≤ ·) :=
    map_insertionSort (hne.imp_of_mem fun hg hg' hlevel =>
      compareGroups_ne_gt (h.safe_group hg) (h.safe_group hg') hlevel)
  have hnodup : ((st.groups localeCompare capability).map fun g => level g.snapshotBlock).Nodup := by
    rw [hmap]
    exact (List.perm_insertionSort _ _).nodup_iff.mpr (List.pairwise_map.mpr hne)
  have hsorted : ((st.groups localeCompare capability).map fun g => level g.snapshotBlock).Pairwise (· ≤ ·) := by
    rw [hmap]
    exact List.pairwise_insertionSort _ _
  exact List.pairwise_map.mp ((hsorted.and hnodup).imp fun h => lt_of_le_of_ne h.1 h.2)

theorem Canonical.group_unique {g' : Group} (h : Canonical st capability)
    (hg : g ∈ st.groups localeCompare capability) (hg' : g' ∈ st.groups localeCompare capability)
    (hlevel : level g.snapshotBlock = level g'.snapshotBlock) : g = g' := by
  have hnodup : ((st.groups localeCompare capability).map fun g => level g.snapshotBlock).Nodup :=
    List.pairwise_map.mpr ((h.groups_pairwise localeCompare).imp ne_of_lt)
  exact List.inj_on_of_nodup_map hnodup hg hg' hlevel

/-- The groups a pass leaves between its two walks. -/
def middle (localeCompare : String → String → Ordering) (w : World) (st : State) (capability : String) : List Group :=
  RoundRobin.between (Group.unavailable w) (st.groups localeCompare capability)

/-- The levels of the middle groups, in the order in which the pass would probe them. -/
def order (localeCompare : String → String → Ordering) (w : World) (st : State) (capability : String) : List ℤ :=
  ((middle localeCompare w st capability).map fun g => level g.snapshotBlock).rotate
    (probeIndex localeCompare (st.probeCursors.lookup capability) (middle localeCompare w st capability))

/-- A row whose proof is not there yet is held at this level. -/
def Hole (w : World) (st : State) (capability : String) (n : ℤ) : Prop :=
  ∃ e : Entry, e ∈ st.holds.entries ∧ e.capability = capability ∧ level e.block = n ∧ isHole w e

/-- A row that a verdict would let go is held at this level. -/
def Waiting (w : World) (st : State) (capability : String) (n : ℤ) : Prop :=
  ∃ e : Entry, e ∈ st.holds.entries ∧ e.capability = capability ∧ level e.block = n ∧ ¬ Stays w e

theorem stays_of_isHole (h : isHole w e) : Stays w e := ⟨true, of_decide_eq_true h⟩

theorem order_take (capability : String) :
    (order localeCompare w st capability).take CAPABILITY_PROOF_MIDDLE_PROBE_GROUPS =
      (window localeCompare w (st.probeCursors.lookup capability) (st.groups localeCompare capability)).map
        fun g => level g.snapshotBlock := by
  rw [order, window, List.map_take, List.map_rotate]
  rfl

section canonical

variable (hcan : Canonical st capability)
include hcan

theorem Canonical.exists_group_row (localeCompare : String → String → Ordering) (he : e ∈ st.holds.entries)
    (hcap : e.capability = capability) :
    ∃ g ∈ st.groups localeCompare capability, e ∈ g.rows ∧ level g.snapshotBlock = level e.block := by
  subst hcap
  have hheld : e ∈ st.held localeCompare := mem_held.mpr he
  obtain ⟨g, hg, hmem⟩ := exists_group hheld
  exact ⟨g, mem_groups.mpr hg, hmem, (hcan.level_row hg hmem).symm⟩

theorem Canonical.unavailable_iff (hg : g ∈ st.groups localeCompare capability) :
    g.unavailable w ↔ Hole w st capability (level g.snapshotBlock) := by
  unfold Group.unavailable
  rw [List.any_eq_true]
  constructor
  · rintro ⟨e, he, hole⟩
    obtain ⟨hheld, hcap⟩ := mem_of_mem_rows (mem_groups.mp hg) he
    exact ⟨e, mem_held.mp hheld, hcap, hcan.level_row (mem_groups.mp hg) he, hole⟩
  · rintro ⟨e, he, hcap, hlevel, hole⟩
    obtain ⟨g', hg', hmem, hlevel'⟩ := hcan.exists_group_row localeCompare he hcap
    obtain rfl : g' = g := hcan.group_unique hg' hg (hlevel'.trans hlevel)
    exact ⟨e, hmem, hole⟩

theorem Canonical.mem_middle (h : g ∈ st.groups localeCompare capability) :
    g ∈ middle localeCompare w st capability ↔
      (∃ n < level g.snapshotBlock, Hole w st capability n) ∧ ∃ n > level g.snapshotBlock, Hole w st capability n := by
  have hasymm : Std.Asymm fun g g' : Group => level g.snapshotBlock < level g'.snapshotBlock :=
    ⟨fun _ _ => lt_asymm⟩
  have htrans : IsTrans Group fun g g' => level g.snapshotBlock < level g'.snapshotBlock := ⟨fun _ _ _ => lt_trans⟩
  rw [middle, RoundRobin.mem_between _ (hcan.groups_pairwise localeCompare), and_iff_right h]
  have hmark : ∀ P : ℤ → Prop, (∃ b ∈ st.groups localeCompare capability, b.unavailable w ∧ P (level b.snapshotBlock)) ↔
      ∃ n, P n ∧ Hole w st capability n := by
    intro P
    constructor
    · rintro ⟨b, hb, hun, hP⟩
      exact ⟨_, hP, (hcan.unavailable_iff hb).mp hun⟩
    · rintro ⟨n, hP, hole⟩
      obtain ⟨e, he, hcap, hlevel, -⟩ := id hole
      obtain ⟨b, hb, -, hlevel'⟩ := hcan.exists_group_row localeCompare he hcap
      rw [← hlevel, ← hlevel'] at hP hole
      exact ⟨b, hb, (hcan.unavailable_iff hb).mpr hole, hP⟩
  exact and_congr (hmark (· < level g.snapshotBlock)) (hmark (level g.snapshotBlock < ·))

theorem Canonical.middle_pairwise :
    ((middle localeCompare w st capability).map fun g => level g.snapshotBlock).Pairwise (· < ·) :=
  List.pairwise_map.mpr ((hcan.groups_pairwise localeCompare).sublist (RoundRobin.between_sublist _ _))

theorem Canonical.mem_middle_levels {n : ℤ} :
    n ∈ (middle localeCompare w st capability).map (fun g => level g.snapshotBlock) ↔
      (∃ e : Entry, e ∈ st.holds.entries ∧ e.capability = capability ∧ level e.block = n) ∧
      (∃ m < n, Hole w st capability m) ∧ ∃ m > n, Hole w st capability m := by
  rw [List.mem_map]
  constructor
  · rintro ⟨g, hg, rfl⟩
    have hgs := (RoundRobin.between_sublist _ _).subset hg
    obtain ⟨e, he, hblock⟩ := exists_first (mem_groups.mp hgs)
    obtain ⟨hheld, hcap⟩ := mem_of_mem_rows (mem_groups.mp hgs) he
    exact ⟨⟨e, mem_held.mp hheld, hcap, hcan.level_row (mem_groups.mp hgs) he⟩, (hcan.mem_middle hgs).mp hg⟩
  · rintro ⟨⟨e, he, hcap, rfl⟩, hbetween⟩
    obtain ⟨g, hg, -, hlevel⟩ := hcan.exists_group_row localeCompare he hcap
    rw [← hlevel] at hbetween ⊢
    exact ⟨g, (hcan.mem_middle hg).mpr hbetween, rfl⟩

/-- A pass judges a row unless its group is in the middle and beyond the window. -/
theorem Canonical.mem_judgedRows (he : e ∈ st.holds.entries) (hcap : e.capability = capability) :
    e ∈ st.judgedRows localeCompare w capability ↔
      level e.block ∉ order localeCompare w st capability ∨
      level e.block ∈ (order localeCompare w st capability).take CAPABILITY_PROOF_MIDDLE_PROBE_GROUPS := by
  obtain ⟨g, hg, hrow, hlevel⟩ := hcan.exists_group_row localeCompare he hcap
  have hnodup : (st.groups localeCompare capability).Nodup :=
    (hcan.groups_pairwise localeCompare).imp fun hlt heq => (heq ▸ hlt).ne rfl
  have hgroup : e ∈ st.judgedRows localeCompare w capability ↔ g ∈ judgedGroups localeCompare w
      (st.probeCursors.lookup capability) (st.groups localeCompare capability) := by
    rw [State.judgedRows, rowsOf, List.mem_flatMap]
    constructor
    · rintro ⟨g', hg', hrow'⟩
      have hgs' := judgedGroups_subset _ _ hg'
      have hlevel' := hcan.level_row (mem_groups.mp hgs') hrow'
      exact hcan.group_unique hgs' hg (hlevel'.symm.trans hlevel.symm) ▸ hg'
    · exact fun h => ⟨g, h, hrow⟩
  have hunique : ∀ gs ⊆ st.groups localeCompare capability,
      (level e.block ∈ gs.map (fun g => level g.snapshotBlock) ↔ g ∈ gs) := by
    intro gs hgs
    rw [← hlevel, List.mem_map]
    constructor
    · rintro ⟨g', hg', hl⟩
      exact hcan.group_unique (hgs hg') hg hl ▸ hg'
    · exact fun h => ⟨g, h, rfl⟩
  have hmiddle : middle localeCompare w st capability ⊆ st.groups localeCompare capability :=
    (RoundRobin.between_sublist _ _).subset
  rw [hgroup, order_take, hunique _ fun g' hg' => hmiddle (window_subset _ _ hg'), order, List.mem_rotate,
    hunique _ hmiddle]
  constructor
  · intro hjudged
    simp only [judgedGroups, List.mem_append] at hjudged
    rcases hjudged with hwalked | hwindow
    · exact Or.inl (RoundRobin.notMem_between _ hnodup hwalked)
    · exact Or.inr hwindow
  · simp only [judgedGroups, List.mem_append]
    rintro (hnot | hwindow)
    · rcases RoundRobin.mem_walked_or_between (Group.unavailable w) hg with h | h | h
      · exact Or.inl (Or.inl h)
      · exact Or.inl (Or.inr h)
      · exact absurd h hnot
    · exact Or.inr hwindow

theorem Canonical.afterCursor_eq {cursor : Field} (hcursor : (height cursor).isSome)
    (hg : g ∈ st.groups localeCompare capability) :
    afterCursor localeCompare cursor g = decide (level cursor < level g.snapshotBlock) := by
  unfold afterCursor
  rw [height_eq_some (hcan.safe_group (mem_groups.mp hg)), height_eq_some hcursor]

/-- With a cursor at a number the probe goes on after it. -/
theorem Canonical.order_eq {cursor : Field} (hlookup : st.probeCursors.lookup capability = some cursor)
    (hcursor : (height cursor).isSome) :
    order localeCompare w st capability = RoundRobin.after (level cursor)
      ((middle localeCompare w st capability).map fun g => level g.snapshotBlock) := by
  have hstart : probeIndex localeCompare (some cursor) (middle localeCompare w st capability) =
      (((middle localeCompare w st capability).map fun g => level g.snapshotBlock).findIdx?
        (level cursor < ·)).getD 0 := by
    unfold probeIndex
    rw [List.findIdx?_map]
    refine congrArg (Option.getD · 0) (RoundRobin.findIdx?_congr fun g hg => ?_)
    exact hcan.afterCursor_eq hcursor ((RoundRobin.between_sublist _ _).subset hg)
  rw [order, hlookup, hstart]
  exact RoundRobin.rotate_findIdx hcan.middle_pairwise _

end canonical

section step

variable {st' : State}

/-- Nobody waits beyond the first `k` of the probe order. -/
def Owes (localeCompare : String → String → Ordering) (w : World) (st : State) (capability : String) (k : ℕ) : Prop :=
  ∀ n ∈ (order localeCompare w st capability).drop k, ¬ Waiting w st capability n

theorem Canonical.passed (hcan : Canonical st capability) (hp : Passed localeCompare w st st') :
    Canonical st' capability :=
  ⟨fun e he => hcan.safe e ((hp.holds e).mp he).1,
    fun e e' he he' => hcan.spelled e e' ((hp.holds e).mp he).1 ((hp.holds e').mp he').1⟩

theorem Passed.hole_iff (hp : Passed localeCompare w st st') {n : ℤ} :
    Hole w st' capability n ↔ Hole w st capability n := by
  constructor
  · rintro ⟨e, he, hrest⟩
    exact ⟨e, ((hp.holds e).mp he).1, hrest⟩
  · rintro ⟨e, he, hcap, hlevel, hole⟩
    exact ⟨e, (hp.holds e).mpr ⟨he, fun _ => stays_of_isHole hole⟩, hcap, hlevel, hole⟩

/-- After a pass only middle groups have somebody waiting, and none of those it probed. -/
theorem Canonical.waiting_passed (hcan : Canonical st capability) (hp : Passed localeCompare w st st') {n : ℤ}
    (hn : Waiting w st' capability n) : Waiting w st capability n ∧
      n ∉ (order localeCompare w st capability).take CAPABILITY_PROOF_MIDDLE_PROBE_GROUPS ∧
      n ∈ order localeCompare w st' capability := by
  obtain ⟨e, he', hcap, rfl, hgone⟩ := hn
  obtain ⟨he, hstays⟩ := (hp.holds e).mp he'
  have hnot : e ∉ st.judgedRows localeCompare w capability := fun hj => hgone (hstays (by rwa [hcap]))
  rw [hcan.mem_judgedRows he hcap, not_or, not_not] at hnot
  obtain ⟨hmiddle, hwindow⟩ := hnot
  refine ⟨⟨e, he, hcap, rfl, hgone⟩, hwindow, ?_⟩
  rw [order, List.mem_rotate, hcan.mem_middle_levels] at hmiddle
  obtain ⟨-, ⟨m, hm, hole⟩, m', hm', hole'⟩ := hmiddle
  rw [order, List.mem_rotate, (hcan.passed hp).mem_middle_levels]
  exact ⟨⟨e, he', hcap, rfl⟩, ⟨m, hm, hp.hole_iff.mpr hole⟩, m', hm', hp.hole_iff.mpr hole'⟩

open Classical in
/-- The middle after a pass is what is left of the middle before. -/
theorem Canonical.middle_passed (hcan : Canonical st capability) (hp : Passed localeCompare w st st') :
    (middle localeCompare w st' capability).map (fun g => level g.snapshotBlock) =
      ((middle localeCompare w st capability).map fun g => level g.snapshotBlock).filter fun n =>
        ∃ e : Entry, e ∈ st'.holds.entries ∧ e.capability = capability ∧ level e.block = n := by
  refine List.Pairwise.eq_of_mem_iff (hcan.passed hp).middle_pairwise (hcan.middle_pairwise.filter _) fun n => ?_
  rw [List.mem_filter, (hcan.passed hp).mem_middle_levels, hcan.mem_middle_levels, decide_eq_true_eq]
  simp only [hp.hole_iff]
  constructor
  · rintro ⟨⟨e, he, hcap, hlevel⟩, hbetween⟩
    exact ⟨⟨⟨e, ((hp.holds e).mp he).1, hcap, hlevel⟩, hbetween⟩, e, he, hcap, hlevel⟩
  · rintro ⟨⟨-, hbetween⟩, hkept⟩
    exact ⟨hkept, hbetween⟩

/-- The step: each pass takes a window off what the probe order owes. -/
theorem Canonical.owes_passed (hcan : Canonical st capability) (hp : Passed localeCompare w st st') {k : ℕ}
    (h : Owes localeCompare w st capability k) :
    Owes localeCompare w st' capability (k - CAPABILITY_PROOF_MIDDLE_PROBE_GROUPS) := by
  classical
  have hmiddle := hcan.middle_passed hp
  have hrot : (middle localeCompare w st capability).map (fun g => level g.snapshotBlock) ~r
      order localeCompare w st capability := ⟨_, rfl⟩
  rw [← List.take_append_drop CAPABILITY_PROOF_MIDDLE_PROBE_GROUPS (order localeCompare w st capability)] at hrot
  rcases hserved : ((order localeCompare w st capability).take CAPABILITY_PROOF_MIDDLE_PROBE_GROUPS).getLast? with _ | c
  · -- no middle group, now or before
    have hnil : order localeCompare w st capability = [] := by
      rw [List.getLast?_eq_none_iff, List.take_eq_nil_iff] at hserved
      exact hserved.resolve_left (by decide)
    have hlevels : (middle localeCompare w st capability).map (fun g => level g.snapshotBlock) = [] := by
      rw [hnil] at hrot
      exact List.isRotated_nil_iff.mp hrot
    intro n hn
    have hn := List.drop_subset _ _ hn
    rw [order, List.mem_rotate, hmiddle, hlevels] at hn
    simp at hn
  · have hcursor : ∃ cursor, st'.probeCursors.lookup capability = some cursor ∧ (height cursor).isSome ∧
        level cursor = c := by
      rw [order_take, List.getLast?_map] at hserved
      obtain ⟨g, hg, rfl⟩ := Option.map_eq_some_iff.mp hserved
      have hgs : g ∈ st.groups localeCompare capability :=
        (RoundRobin.between_sublist _ _).subset (window_subset _ _ (List.mem_of_getLast? hg))
      refine ⟨g.snapshotBlock, ?_, hcan.safe_group (mem_groups.mp hgs), rfl⟩
      rw [hp.cursor capability (List.ne_nil_of_mem hgs), hg, Option.map_some]
    obtain ⟨cursor, hlookup, hsafe, rfl⟩ := hcursor
    have hafter := RoundRobin.after_served hcan.middle_pairwise hrot hserved
    unfold Owes
    rw [(hcan.passed hp).order_eq hlookup hsafe, hmiddle, RoundRobin.after_filter, hafter]
    refine RoundRobin.waiting_drop h (fun n hn => ?_) fun n hn => ?_
    · obtain ⟨hbefore, hnot, -⟩ := hcan.waiting_passed hp hn
      exact ⟨hbefore, hnot⟩
    · -- a group beyond the window keeps its rows
      have hmem := List.drop_subset _ _ hn
      have hnodup : (order localeCompare w st capability).Nodup :=
        List.nodup_rotate.mpr (hcan.middle_pairwise.imp ne_of_lt)
      have hrow := hmem
      rw [order, List.mem_rotate, hcan.mem_middle_levels] at hrow
      obtain ⟨⟨e, he, hcap, rfl⟩, -⟩ := hrow
      refine decide_eq_true ⟨e, (hp.holds e).mpr ⟨he, fun hj => ?_⟩, hcap, rfl⟩
      rw [hcap, hcan.mem_judgedRows he hcap] at hj
      rcases hj with hout | hwindow
      · exact absurd hmem hout
      · exact absurd hn (List.disjoint_take_drop hnodup le_rfl hwindow)

end step

end levels

/-! ### Runs of passes -/

section runs

variable {localeCompare w} {st st' : State} {capability : String}

/-- Some passes one after the other. -/
def passes (localeCompare : String → String → Ordering) (w : World) (n : ℕ) (st : State) : State :=
  (retryHeldCapabilityRows localeCompare w)^[n] st

theorem passes_succ (n : ℕ) (st : State) :
    passes localeCompare w (n + 1) st = retryHeldCapabilityRows localeCompare w (passes localeCompare w n st) :=
  Function.iterate_succ_apply' ..

theorem nulFree_passes (hnul : NulFree st.holds.entries) (n : ℕ) :
    NulFree (passes localeCompare w n st).holds.entries := by
  induction n with
  | zero => exact hnul
  | succ n ih =>
    rw [passes_succ]
    exact fun e he => ih e (((passed ih).holds e).mp he).1

/-- One pass of a run. -/
theorem passed_passes (localeCompare : String → String → Ordering) (w : World) (hnul : NulFree st.holds.entries) (n : ℕ) :
    Passed localeCompare w (passes localeCompare w n st) (passes localeCompare w (n + 1) st) := by
  rw [passes_succ]
  exact passed (nulFree_passes hnul n)

/-- Rows that stay are held throughout, and rows that are accepted land when they leave. -/
theorem holds_passes (localeCompare : String → String → Ordering) (w : World) (hnul : NulFree st.holds.entries) (n : ℕ) :
    (∀ e : Entry, e ∈ (passes localeCompare w n st).holds.entries → e ∈ st.holds.entries) ∧
      (∀ e : Entry, e ∈ st.holds.entries → Stays w e → e ∈ (passes localeCompare w n st).holds.entries) ∧
      ∀ e : Entry, e ∈ st.holds.entries → e ∉ (passes localeCompare w n st).holds.entries →
        w.verdict e.2 = .accepted → w.fenced e.2 = false → e.1 ∈ (passes localeCompare w n st).mirror := by
  induction n with
  | zero => exact ⟨fun e he => he, fun e he _ => he, fun e he hne => absurd he hne⟩
  | succ n ih =>
    obtain ⟨hback, hstays, hlanded⟩ := ih
    have hp := passed_passes localeCompare w hnul n
    refine ⟨fun e he => hback e ((hp.holds e).mp he).1, fun e he hs => (hp.holds e).mpr ⟨hstays e he hs, fun _ => hs⟩,
      fun e he hgone hacc hfen => ?_⟩
    by_cases hin : e ∈ (passes localeCompare w n st).holds.entries
    · exact hp.landed e hin hgone hacc hfen
    · exact hp.mirror (hlanded e he hin hacc hfen)

/-- No row of the capability waits any more. -/
def Done (w : World) (st : State) (capability : String) : Prop := ∀ n, ¬ Waiting w st capability n

theorem Done.passed (h : Done w st capability) (hp : Passed localeCompare w st st') : Done w st' capability := by
  rintro n ⟨e, he, hcap, hlevel, hgone⟩
  exact h n ⟨e, ((hp.holds e).mp he).1, hcap, hlevel, hgone⟩

/-- With so few groups that the window takes all the middle ones, one pass judges every row. -/
theorem done_of_few (hfew : (st.groups localeCompare capability).length ≤ CAPABILITY_PROOF_MIDDLE_PROBE_GROUPS + 2)
    (hp : Passed localeCompare w st st') : Done w st' capability := by
  rintro n ⟨e, he', hcap, -, hgone⟩
  obtain ⟨he, hstays⟩ := (hp.holds e).mp he'
  refine hgone (hstays ?_)
  rw [hcap]
  have hrows : e ∈ rowsOf (st.groups localeCompare capability) := mem_rowsOf_groups.mpr ⟨he, hcap⟩
  obtain ⟨g, hg, hrow⟩ := List.mem_flatMap.mp hrows
  refine List.mem_flatMap.mpr ⟨g, ?_, hrow⟩
  simp only [judgedGroups, List.mem_append]
  rcases RoundRobin.mem_walked_or_between (Group.unavailable w) hg with h | h | h
  · exact Or.inl (Or.inl h)
  · exact Or.inl (Or.inr h)
  · refine Or.inr ?_
    have hlen : (RoundRobin.between (Group.unavailable w) (st.groups localeCompare capability)).length ≤
        CAPABILITY_PROOF_MIDDLE_PROBE_GROUPS := by
      rcases RoundRobin.length_between_le (Group.unavailable w) (st.groups localeCompare capability) with hle | hnil
      · omega
      · rw [hnil]
        exact Nat.zero_le _
    rw [window, List.take_of_length_le (by rw [List.length_rotate]; exact hlen)]
    exact List.mem_rotate.mpr h

/-- Each pass of a run takes a window off what the probe order owed at its start, and after one nobody
    waits outside the middle. -/
theorem owes_passes (localeCompare : String → String → Ordering) (w : World) (hnul : NulFree st.holds.entries) (hcan : Canonical st capability) (n : ℕ) :
    Canonical (passes localeCompare w n st) capability ∧
      Owes localeCompare w (passes localeCompare w n st) capability
        ((st.groups localeCompare capability).length - CAPABILITY_PROOF_MIDDLE_PROBE_GROUPS * n) ∧
      (0 < n → ∀ m, Waiting w (passes localeCompare w n st) capability m →
        m ∈ order localeCompare w (passes localeCompare w n st) capability) := by
  induction n with
  | zero =>
    refine ⟨hcan, fun m hm => ?_, fun h => absurd h (lt_irrefl 0)⟩
    have hlen : (order localeCompare w st capability).length ≤ (st.groups localeCompare capability).length := by
      rw [order, List.length_rotate, List.length_map]
      exact (RoundRobin.between_sublist _ _).length_le
    rw [show passes localeCompare w 0 st = st from rfl, List.drop_eq_nil_of_le (by simpa using hlen)] at hm
    simp at hm
  | succ n ih =>
    obtain ⟨hcan', howes, -⟩ := ih
    have hp := passed_passes localeCompare w hnul n
    refine ⟨hcan'.passed hp, ?_, fun _ m hm => (hcan'.waiting_passed hp hm).2.2⟩
    have := hcan'.owes_passed hp howes
    rwa [Nat.sub_sub, ← Nat.mul_succ] at this

theorem done_passes (hnul : NulFree st.holds.entries)
    (hcond : (st.groups localeCompare capability).length ≤ CAPABILITY_PROOF_MIDDLE_PROBE_GROUPS + 2 ∨ Canonical st capability)
    {n : ℕ} (hn : (st.groups localeCompare capability).length ≤ CAPABILITY_PROOF_MIDDLE_PROBE_GROUPS * n) :
    Done w (passes localeCompare w n st) capability := by
  cases n with
  | zero =>
    rintro m ⟨e, he, hcap, -⟩
    change e ∈ st.holds.entries at he
    have hrows : e ∈ rowsOf (st.groups localeCompare capability) := mem_rowsOf_groups.mpr ⟨he, hcap⟩
    obtain ⟨g, hg, -⟩ := List.mem_flatMap.mp hrows
    rw [List.eq_nil_of_length_eq_zero (by omega : (st.groups localeCompare capability).length = 0)] at hg
    simp at hg
  | succ n =>
    rcases hcond with hfew | hcan
    · have hrun : ∀ k, Done w (passes localeCompare w (k + 1) st) capability := by
        intro k
        induction k with
        | zero => exact done_of_few hfew (passed_passes localeCompare w hnul 0)
        | succ k ih => exact ih.passed (passed_passes localeCompare w hnul (k + 1))
      exact hrun n
    · obtain ⟨-, howes, hmiddle⟩ := owes_passes localeCompare w hnul hcan (n + 1)
      rw [Nat.sub_eq_zero_of_le hn] at howes
      exact fun m hm => howes m (hmiddle (Nat.succ_pos n) m hm) hm

theorem nul_notMem_of_height {block : Field} (h : (height block).isSome) : '\x00' ∉ block.toString.toList := by
  intro hmem
  by_cases hg : block.given
  · have hnumber := isSome_toNumber h
    rw [JsNumber.Field.toNumber_eq_ofText hg] at hnumber
    exact absurd (JsNumber.isNumericChar_of_ofText hnumber _ hmem) (by decide)
  · cases block with
    | absent => cases h
    | null => revert hmem; decide
    | text s => exact hg rfl
    | number n => exact hg rfl

/-- In every capability the blocks are safe integers, none of them spelled in two ways, or the groups are
    so few that a window takes all of them in. -/
def Orderly (localeCompare : String → String → Ordering) (st : State) : Prop :=
  ∀ capability, Canonical st capability ∨
    (st.groups localeCompare capability).length ≤ CAPABILITY_PROOF_MIDDLE_PROBE_GROUPS + 2 ∧
      ∀ e : Entry, e ∈ st.holds.entries → e.capability = capability → '\x00' ∉ e.block.toString.toList

theorem Orderly.nulFree (h : Orderly localeCompare st) : NulFree st.holds.entries := by
  intro e he
  rcases h e.capability with hcan | ⟨-, hnul⟩
  · exact nul_notMem_of_height (hcan.safe e he rfl)
  · exact hnul e he rfl

/-- After as many passes as a window goes into the largest number of groups, exactly the rows are held that
    their verdicts keep, whichever groups hold them and wherever the cursors stood. What was accepted and
    not fenced off has landed, and each pass asks only for proofs of rows that it found held. -/
theorem held_rows_retried (localeCompare : String → String → Ordering) (w : World) (st : State)
    (h : Orderly localeCompare st) (n : ℕ)
    (hn : ∀ capability, (st.groups localeCompare capability).length ≤ CAPABILITY_PROOF_MIDDLE_PROBE_GROUPS * n) :
    (∀ e : Entry, e ∈ (passes localeCompare w n st).holds.entries ↔ e ∈ st.holds.entries ∧ Stays w e) ∧
    (∀ e : Entry, e ∈ st.holds.entries → w.verdict e.2 = .accepted → w.fenced e.2 = false →
      e.1 ∈ (passes localeCompare w n st).mirror) ∧
    ∀ m, ∀ r ∈ (passes localeCompare w (m + 1) st).requested, r.Named (passes localeCompare w m st).holds.entries := by
  have hnul := h.nulFree
  obtain ⟨hback, hstays, hlanded⟩ := holds_passes localeCompare w hnul n
  have hleft : ∀ e : Entry, e ∈ (passes localeCompare w n st).holds.entries → Stays w e := by
    intro e he
    by_contra hgone
    refine done_passes hnul ?_ (hn e.capability) (level e.block) ⟨e, he, rfl, rfl, hgone⟩
    exact (h e.capability).elim Or.inr (fun hfew => Or.inl hfew.1)
  refine ⟨fun e => ⟨fun he => ⟨hback e he, hleft e he⟩, fun he => hstays e he.1 he.2⟩, fun e he hacc hfen => ?_,
    fun m => (passed_passes localeCompare w hnul m).named⟩
  refine hlanded e he (fun hin => ?_) hacc hfen
  obtain ⟨notYet, hheld⟩ := hleft e hin
  rw [hacc] at hheld
  cases hheld

/-- The order of the code units, as `localeCompare` has it for digits. -/
def codeUnitOrder (a b : String) : Ordering := compareOfLessAndEq a b

/-- A held row of one key. -/
def heldAt (block : Field) : HeldRow := ⟨block, .text "price", .text "aa"⟩

/-- Fifteen blocks. -/
def fifteen : State where
  holds := (["4", "5", "6", "7", "8", "9", "10", "11", "12", "13", "14", "15", "16", "17", "18"].map fun block =>
    (⟨block, heldAt (.text block)⟩ : Entry)).toAList

/-- The first block and the last have no proof. -/
def endsOnly : World where
  verdict row := if row.snapshot_block = .text "4" ∨ row.snapshot_block = .text "18" then .held true else .accepted
  asks _ := true
  fenced _ := false
  busy _ := false

theorem held_rows_retried_fifteen :
    (⟨"17", heldAt (.text "17")⟩ : Entry) ∉ (passes codeUnitOrder endsOnly 2 fifteen).holds.entries ∧
      "17" ∈ (passes codeUnitOrder endsOnly 2 fifteen).mirror := by
  have hall : ∀ e ∈ fifteen.holds.entries, (height (Entry.block e)).isSome ∧ ∀ e' ∈ fifteen.holds.entries,
      height (Entry.block e) = height (Entry.block e') → (Entry.block e).toString = (Entry.block e').toString := by
    decide +kernel
  have horderly : Orderly codeUnitOrder fifteen := fun _ =>
    Or.inl ⟨fun e he _ => (hall e he).1, fun e e' he he' _ _ => (hall e he).2 e' he'⟩
  have hrun := held_rows_retried codeUnitOrder endsOnly fifteen horderly 2
    (fun c => (length_groups_le codeUnitOrder fifteen c).trans (by decide +kernel))
  refine ⟨fun hin => ?_, hrun.2.1 ⟨"17", heldAt (.text "17")⟩ (by decide +kernel) rfl rfl⟩
  obtain ⟨notYet, hstays⟩ := ((hrun.1 _).mp hin).2
  exact absurd hstays (by simp [endsOnly, heldAt])

/-! #### One number spelled in many ways -/

/-- Thirteen spellings of one block between two others. -/
def spelled : State where
  holds := (["4", "0000000000005", "000000000005", "00000000005", "0000000005", "000000005", "00000005", "0000005",
    "000005", "00005", "0005", "005", "05", "5", "6"].map fun block =>
      (⟨block, heldAt (.text block)⟩ : Entry)).toAList

/-- Only the block in its plain spelling has its proof. -/
def plainOnly : World where
  verdict row := if row.snapshot_block = .text "5" then .accepted else .held true
  asks _ := true
  fenced _ := false
  busy _ := false

/-- The plain spelling is the last of the thirteen, and the cursor on the twelfth starts over at the first. -/
theorem plain_never_judged : plainOnly.verdict (heldAt (.text "5")) = .accepted ∧
    ∀ n, (⟨"5", heldAt (.text "5")⟩ : Entry) ∈ (passes codeUnitOrder plainOnly n spelled).holds.entries := by
  have hfix : retryHeldCapabilityRows codeUnitOrder plainOnly (retryHeldCapabilityRows codeUnitOrder plainOnly spelled) =
      retryHeldCapabilityRows codeUnitOrder plainOnly spelled := by
    have hfields : ∀ st st' : State, st.holds.entries = st'.holds.entries ∧
        st.probeCursors.entries = st'.probeCursors.entries ∧ st.mirror = st'.mirror ∧ st.requested = st'.requested ∧
        st.fetched = st'.fetched → st = st' := by
      rintro st st' ⟨hholds, hcursors, hmirror, hrequested, hfetched⟩
      exact State.ext (AList.ext hholds) (AList.ext hcursors) hmirror hrequested hfetched
    exact hfields _ _ (by decide +kernel)
  have hheld : (⟨"5", heldAt (.text "5")⟩ : Entry) ∈
      (retryHeldCapabilityRows codeUnitOrder plainOnly spelled).holds.entries := by decide +kernel
  refine ⟨rfl, fun n => ?_⟩
  cases n with
  | zero => decide +kernel
  | succ n =>
    rwa [passes, Function.iterate_succ_apply, Function.iterate_fixed hfix]

end runs

end HubDbSync.CapabilityRetry
