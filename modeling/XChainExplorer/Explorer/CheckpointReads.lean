import Mathlib.Data.List.Sort
import XChainExplorer.Explorer.Proofs

/-! # Served checkpoints

    A checkpoint read selects rows of `state_checkpoints` and hands on the columns its statement
    lists; the proof routes then send a light client an object of their own shape. Whoever checks the
    signatures rebuilds the signing string from what was served, so the string of the served object is
    set against the string of the stored row. -/

namespace CheckpointReads

open CheckpointProofs Consensus HubDbSync

/-! ### Objects -/

/-- The columns that the signing string is read from. -/
inductive Column where
  | chain | network | block_index | block_hash | ledger_hash | actions_hash | contract_hash
  | checkpoint_seq | snapshot_block | supersedes_from | rules_digest
  | state_root | state_root_version | block_merkle_root | block_merkle_version
  deriving DecidableEq

/-- A value of a row or of a served object. -/
inductive Cell where
  | undefined
  | null
  | number (n : ℕ)
  | text (s : String)
  deriving DecidableEq

/-- `String(value)`. -/
def Cell.toText : Cell → String
  | undefined => "undefined"
  | null => "null"
  | number n => n.repr
  | text s => s

/-- `value != null`. -/
def Cell.given : Cell → Bool
  | undefined | null => false
  | number _ | text _ => true

/-- What `join` makes of a value. -/
def Cell.joined (c : Cell) : String := if c.given then c.toText else ""

/-- `parseInt` of an index: its leading digits. -/
def Cell.parseInt : Cell → Option ℕ
  | undefined | null => none
  | number n => some n
  | text s =>
    let digits := s.toList.takeWhile Char.isDigit
    if digits = [] then none else some (Nat.ofDigitChars 10 digits 0)

/-- `Number(value)` where it is finite. -/
def Cell.toNumber : Cell → Option ℚ
  | undefined => none
  | null => some 0
  | number n => some n
  | text s => JsNumber.ofText s.toList

/-- A row as JavaScript holds it, by its columns. -/
abbrev Object := Column → Cell

/-- A cell, or null. -/
def optionCell {α : Type*} (cell : α → Cell) : Option α → Cell
  | none => .null
  | some a => cell a

/-- The row as it is stored. -/
def stored (cp : Checkpoint) : Object
  | .chain => .text cp.chain
  | .network => .text cp.network
  | .block_index => .number cp.block_index
  | .block_hash => .text cp.block_hash
  | .ledger_hash => .text cp.ledger_hash
  | .actions_hash => .text cp.actions_hash
  | .contract_hash => .text cp.contract_hash
  | .checkpoint_seq => .number cp.checkpoint_seq
  | .snapshot_block => .number cp.snapshot_block
  | .supersedes_from => optionCell .number cp.supersedes_from
  | .rules_digest => optionCell .text cp.rules_digest
  | .state_root => optionCell .text cp.state_root
  | .state_root_version => optionCell .number cp.state_root_version
  | .block_merkle_root => optionCell .text cp.block_merkle_root
  | .block_merkle_version => optionCell .number cp.block_merkle_version

/-! ### The signing string of an object -/

/-- A flag day read off an object's snapshot block and network. -/
def gateActive (active : ℕ → String → Bool) (o : Object) : Bool :=
  match o .network, (o .snapshot_block).parseInt with
  | .text network, some height => active height network
  | _, _ => false

/-- `supersedeSuffix(cp)`, none where it throws. -/
def supersedeSuffix (o : Object) : Option String :=
  if !(o .supersedes_from).given && !(o .rules_digest).given then some ""
  else if !(o .supersedes_from).given || !(o .rules_digest).given then none
  else
    match (o .supersedes_from).toNumber, o .rules_digest with
    | some since, .text digest =>
      if since.den = 1 ∧ 0 ≤ since ∧ since < 2 ^ 53 ∧ isHex 64 digest.toLower then
        some ("|SUPERSEDE|" ++ since.num.toNat.repr ++ "|" ++ digest.toLower)
      else none
    | _, _ => none

/-- The fields that every checkpoint signs. -/
def baseFields (o : Object) : List String :=
  ["XCHECKPOINT", (o .chain).joined, (o .network).joined, (o .block_index).toText, (o .block_hash).joined,
    (o .ledger_hash).joined, (o .actions_hash).joined, (o .contract_hash).joined,
    (o .checkpoint_seq).toText, (o .snapshot_block).toText]

/-- They with the roots, where the checkpoint commits them. -/
def rootedString (o : Object) : String :=
  let canonRaw := "|".intercalate (baseFields o)
  if gateActive isCheckpointCommitmentActive o && (o .state_root).given && (o .block_merkle_root).given &&
      (o .state_root_version).given && (o .block_merkle_version).given then
    canonRaw ++ ("|" ++ "|".intercalate [(o .state_root).toText.toLower, (o .state_root_version).toText,
      (o .block_merkle_root).toText.toLower, (o .block_merkle_version).toText])
  else canonRaw

/-- The end that the supersession adds, none where building it throws. -/
def signedSuffix (o : Object) : Option String :=
  if gateActive isCheckpointSupersedeActive o then supersedeSuffix o else some ""

/-- The string in front of an end, in the header where the flag day asks for it. -/
def wrapped (o : Object) (suffix : String) : String :=
  if gateActive isEquivHeaderActive o then
    buildEquivCanonical ENGINE_TAG_CHECKPOINT
      ((o .chain).toText ++ "|" ++ (o .network).toText ++ "|" ++ (o .block_index).toText ++ "|" ++
        (o .checkpoint_seq).toText) 0 (rootedString o ++ suffix)
  else rootedString o ++ suffix

/-- `canonicalCheckpointString(cp)`, none where it throws. -/
def canonicalString (o : Object) : Option String := (signedSuffix o).map (wrapped o)

/-! ### What is served -/

/-- The columns every checkpoint statement lists. -/
def selectColumns : List Column :=
  [.chain, .network, .block_index, .block_hash, .ledger_hash, .actions_hash, .contract_hash,
    .checkpoint_seq, .snapshot_block, .state_root, .state_root_version,
    .block_merkle_root, .block_merkle_version]

/-- An object in an answer, with its signatures. -/
structure Served where
  field : Object
  validator_signatures : Option (List RetractionSignature)

/-- The columns that a reader selects. -/
def select (cp : Checkpoint) : Served where
  field c := if c ∈ selectColumns then stored cp c else .undefined
  validator_signatures := cp.validator_signatures

/-- The indices that are sent as decimal strings. -/
def indexText (o : Object) : Object
  | .block_index => .text (o .block_index).toText
  | .checkpoint_seq => .text (o .checkpoint_seq).toText
  | .snapshot_block => .text (o .snapshot_block).toText
  | c => o c

/-- A row with its numbers as text. -/
def normalizeCheckpointRow (row : Served) : Served where
  field := indexText row.field
  validator_signatures := some (row.validator_signatures.getD [])

/-- The fields of the object a light client is sent. -/
def shapeColumns : List Column :=
  [.chain, .network, .block_index, .block_hash, .ledger_hash, .actions_hash, .contract_hash,
    .checkpoint_seq, .snapshot_block, .state_root, .state_root_version,
    .block_merkle_root, .block_merkle_version]

/-- A checkpoint as a light client is sent it. -/
structure Shaped extends Served where
  chain_tip : Option ℕ
  lag : Option ℕ
  stale : Bool

/-- The checkpoint as it is served, with its lag behind the tip. -/
def shapeCheckpoint (staleLagBlocks : ℕ) (cp : Served) (chainTip : Option ℕ) : Shaped where
  field c := if c ∈ shapeColumns then indexText cp.field c else .undefined
  validator_signatures := some (cp.validator_signatures.getD [])
  chain_tip := chainTip
  lag := chainTip.bind fun tip => (cp.field .block_index).parseInt.map fun height => tip - height
  stale := (chainTip.bind fun tip => (cp.field .block_index).parseInt.map fun height => tip - height).any
    (staleLagBlocks < ·)

/-- The checkpoint reads. -/
inductive Read where
  | getCheckpointRow (blockIndex : ℕ)
  | getCheckpointRows (limit : ℕ)
  | getCheckpointAtOrAbove (height : Option ℕ)
  | getCheckpointRange (fromH toH limit : ℕ)
  | getCheckpointAt (blockIndex : ℕ)

/-- The chain and network that a coin's checkpoints are read for. -/
structure Source where
  chain : String
  network : String

/-- The checkpoints of a chain. -/
def Source.rows (src : Source) (table : List Checkpoint) : List Checkpoint :=
  table.filter fun cp => decide (cp.chain = src.chain ∧ cp.network = src.network)

/-- The rows with the highest sequence at their height. -/
def latest (rows : List Checkpoint) : List Checkpoint :=
  rows.filter fun cp => rows.all fun s => decide (s.block_index = cp.block_index → s.checkpoint_seq ≤ cp.checkpoint_seq)

/-- From the lowest block. -/
def ascending (rows : List Checkpoint) : List Checkpoint :=
  rows.insertionSort (·.block_index ≤ ·.block_index)

/-- From the highest. -/
def descending (rows : List Checkpoint) : List Checkpoint :=
  rows.insertionSort (·.block_index ≥ ·.block_index)

/-- The rows that a read selects. -/
def Read.selected (src : Source) (table : List Checkpoint) : Read → List Checkpoint
  | getCheckpointRow blockIndex =>
    (((src.rows table).filter (·.block_index = blockIndex)).insertionSort
      (·.checkpoint_seq ≥ ·.checkpoint_seq)).take 1
  | getCheckpointRows limit =>
    (descending (latest (src.rows table))).take (if limit = 0 then 10 else limit)
  | getCheckpointAtOrAbove (some height) =>
    (ascending (latest ((src.rows table).filter (height ≤ ·.block_index)))).take 1
  | getCheckpointAtOrAbove none => (descending (latest (src.rows table))).take 1
  | getCheckpointRange fromH toH limit =>
    (ascending (latest ((src.rows table).filter fun cp =>
      decide (fromH ≤ cp.block_index ∧ cp.block_index ≤ toH)))).take (if limit = 0 then 100 else limit)
  | getCheckpointAt blockIndex =>
    (ascending (latest ((src.rows table).filter (·.block_index = blockIndex)))).take 1

/-- What a read makes of a row it selected. -/
def Read.serve : Read → Checkpoint → Served
  | getCheckpointRow _, cp | getCheckpointRows _, cp => normalizeCheckpointRow (select cp)
  | _, cp => select cp

/-- The answer of a read. -/
def Read.answer (read : Read) (src : Source) (table : List Checkpoint) : List Served :=
  (read.selected src table).map read.serve

/-! ### The string of a stored row -/

variable {cp : Checkpoint}

@[simp] theorem gateActive_stored (active : ℕ → String → Bool) :
    gateActive active (stored cp) = active cp.snapshot_block cp.network := rfl

theorem supersedeSuffix_stored : supersedeSuffix (stored cp) = CheckpointProofs.supersedeSuffix cp := by
  unfold CheckpointProofs.supersedeSuffix supersedeSuffix
  cases hfrom : cp.supersedes_from with
  | none => cases hdigest : cp.rules_digest <;> simp [stored, hfrom, hdigest, optionCell, Cell.given]
  | some since =>
    cases hdigest : cp.rules_digest with
    | none => simp [stored, hfrom, hdigest, optionCell, Cell.given]
    | some digest =>
      have hlt : ((since : ℚ) < 2 ^ 53) ↔ since < 2 ^ 53 := by exact_mod_cast Iff.rfl
      simp [stored, hfrom, hdigest, optionCell, Cell.given, Cell.toNumber, hlt]

theorem rootedString_stored : rootedString (stored cp) = CheckpointProofs.rootedString cp := by
  have hbase : baseFields (stored cp) = CheckpointProofs.baseFields cp := rfl
  unfold rootedString CheckpointProofs.rootedString commitment
  rw [hbase]
  cases hroot : cp.state_root <;> cases hversion : cp.state_root_version <;>
    cases hmerkle : cp.block_merkle_root <;> cases hmerkleVersion : cp.block_merkle_version <;>
    simp [stored, hroot, hversion, hmerkle, hmerkleVersion, optionCell, Cell.given, Cell.toText,
      commitmentSuffix, gateActive, Cell.parseInt]

/-- On a stored row this is the string that the validators sign. -/
theorem canonicalString_stored : canonicalString (stored cp) = canonicalCheckpointString cp := by
  unfold canonicalString signedSuffix canonicalCheckpointString
  rw [gateActive_stored, supersedeSuffix_stored]
  congr 1
  funext suffix
  rw [wrapped, gateActive_stored, rootedString_stored]
  rfl

/-! ### The string of a served object -/

/-- Two objects that differ at most in how an index is written and in the supersession. -/
structure Alike (o o' : Object) : Prop where
  index : ∀ c ∈ [Column.block_index, .checkpoint_seq, .snapshot_block],
    (o c).toText = (o' c).toText ∧ (o c).parseInt = (o' c).parseInt
  same : ∀ c ∉ [Column.block_index, .checkpoint_seq, .snapshot_block, .supersedes_from, .rules_digest],
    o c = o' c

theorem Alike.gateActive {o o' : Object} (h : Alike o o') (active : ℕ → String → Bool) :
    gateActive active o = CheckpointReads.gateActive active o' := by
  rw [CheckpointReads.gateActive, CheckpointReads.gateActive, h.same .network (by decide),
    (h.index .snapshot_block (by decide)).2]

theorem Alike.wrapped {o o' : Object} (h : Alike o o') : wrapped o = CheckpointReads.wrapped o' := by
  have hbase : baseFields o = baseFields o' := by
    unfold baseFields
    rw [h.same .chain (by decide), h.same .network (by decide), h.same .block_hash (by decide),
      h.same .ledger_hash (by decide), h.same .actions_hash (by decide), h.same .contract_hash (by decide),
      (h.index .block_index (by decide)).1, (h.index .checkpoint_seq (by decide)).1,
      (h.index .snapshot_block (by decide)).1]
  have hrooted : rootedString o = rootedString o' := by
    unfold rootedString
    rw [hbase, h.gateActive, h.same .state_root (by decide), h.same .state_root_version (by decide),
      h.same .block_merkle_root (by decide), h.same .block_merkle_version (by decide)]
  funext suffix
  rw [CheckpointReads.wrapped, CheckpointReads.wrapped, h.gateActive, hrooted, h.same .chain (by decide),
    h.same .network (by decide), (h.index .block_index (by decide)).1,
    (h.index .checkpoint_seq (by decide)).1]

theorem wrapped_injective (o : Object) : Function.Injective (wrapped o) := by
  intro s t h
  unfold wrapped buildEquivCanonical at h
  split at h
  · exact (String.append_right_inj _).mp ((String.append_right_inj _).mp h)
  · exact (String.append_right_inj _).mp h

theorem Alike.canonicalString_eq_iff {o o' : Object} (h : Alike o o') :
    canonicalString o = canonicalString o' ↔ signedSuffix o = signedSuffix o' := by
  rw [canonicalString, canonicalString, h.wrapped]
  exact (Option.map_injective (wrapped_injective o')).eq_iff

theorem Alike.trans {o o' o'' : Object} (h : Alike o o') (h' : Alike o' o'') : Alike o o'' where
  index c hc := ⟨(h.index c hc).1.trans (h'.index c hc).1, (h.index c hc).2.trans (h'.index c hc).2⟩
  same c hc := (h.same c hc).trans (h'.same c hc)

theorem parseInt_repr (n : ℕ) : (Cell.text n.repr).parseInt = some n := by
  have hdigit : ∀ c ∈ Nat.toDigits 10 n, c.isDigit :=
    fun c hc => Nat.isDigit_of_mem_toDigits (by norm_num) le_rfl hc
  have htake : n.repr.toList.takeWhile Char.isDigit = Nat.toDigits 10 n := by
    rw [Nat.toList_repr]
    exact List.takeWhile_eq_self_iff.mpr hdigit
  unfold Cell.parseInt
  dsimp only
  rw [htake, if_neg Nat.toDigits_ne_nil, Nat.ofDigitChars_ten_toDigits]

theorem alike_select (cp : Checkpoint) : Alike (select cp).field (stored cp) where
  index c hc := by
    have hselect : c ∈ selectColumns := by revert c; decide
    simp [select, hselect]
  same c hc := by
    have hselect : c ∈ selectColumns := by cases c <;> simp_all [selectColumns]
    simp [select, hselect]

/-- The indices are numbers, or the decimal strings of numbers. -/
def IndexCells (o : Object) : Prop :=
  ∀ c ∈ [Column.block_index, .checkpoint_seq, .snapshot_block], ∃ n, o c = .number n ∨ o c = .text n.repr

/-- An index sent as a decimal string is read back as the number it was. -/
theorem alike_indexText {o : Object} (h : IndexCells o) : Alike (indexText o) o where
  index c hc := by
    have htext : indexText o c = .text (o c).toText := by
      revert hc
      cases c <;> simp [indexText]
    obtain ⟨n, hn | hn⟩ := h c hc
    · rw [htext, hn]
      exact ⟨rfl, parseInt_repr n⟩
    · rw [htext, hn]
      exact ⟨rfl, rfl⟩
  same c hc := by
    cases c <;> simp_all [indexText]

theorem indexCells_stored (cp : Checkpoint) : IndexCells (stored cp) := by
  intro c hc
  have hcells : c = .block_index ∨ c = .checkpoint_seq ∨ c = .snapshot_block := by simpa using hc
  rcases hcells with rfl | rfl | rfl
  · exact ⟨cp.block_index, Or.inl rfl⟩
  · exact ⟨cp.checkpoint_seq, Or.inl rfl⟩
  · exact ⟨cp.snapshot_block, Or.inl rfl⟩

theorem indexCells_select (cp : Checkpoint) : IndexCells (select cp).field := by
  intro c hc
  have hselect : c ∈ selectColumns := by revert c; decide
  obtain ⟨n, hn⟩ := indexCells_stored cp c hc
  exact ⟨n, by simpa [select, hselect] using hn⟩

theorem indexCells_indexText {o : Object} (h : IndexCells o) : IndexCells (indexText o) := by
  intro c hc
  have htext : indexText o c = .text (o c).toText := by
    revert hc
    cases c <;> simp [indexText]
  obtain ⟨n, hn | hn⟩ := h c hc
  · exact ⟨n, Or.inr (by rw [htext, hn]; rfl)⟩
  · exact ⟨n, Or.inr (by rw [htext, hn]; rfl)⟩

theorem indexCells_serve (read : Read) (cp : Checkpoint) : IndexCells (read.serve cp).field := by
  cases read with
  | getCheckpointRow | getCheckpointRows => exact indexCells_indexText (indexCells_select cp)
  | getCheckpointAtOrAbove | getCheckpointRange | getCheckpointAt => exact indexCells_select cp

theorem alike_serve (read : Read) (cp : Checkpoint) : Alike (read.serve cp).field (stored cp) := by
  cases read with
  | getCheckpointRow | getCheckpointRows =>
    exact (alike_indexText (indexCells_select cp)).trans (alike_select cp)
  | getCheckpointAtOrAbove | getCheckpointRange | getCheckpointAt => exact alike_select cp

/-- The shape lists every column but those of the supersession. -/
theorem alike_shape (staleLagBlocks : ℕ) (row : Served) (chainTip : Option ℕ) :
    Alike (shapeCheckpoint staleLagBlocks row chainTip).field (indexText row.field) where
  index c hc := by
    have hshape : c ∈ shapeColumns := by revert c; decide
    simp [shapeCheckpoint, hshape]
  same c hc := by
    have hshape : c ∈ shapeColumns := by cases c <;> simp_all [shapeColumns]
    simp [shapeCheckpoint, hshape]

theorem alike_shape_serve (staleLagBlocks : ℕ) (read : Read) (cp : Checkpoint) (chainTip : Option ℕ) :
    Alike (shapeCheckpoint staleLagBlocks (read.serve cp) chainTip).field (stored cp) :=
  ((alike_shape staleLagBlocks (read.serve cp) chainTip).trans (alike_indexText (indexCells_serve read cp))).trans
    (alike_serve read cp)

/-! ### What the served string lacks -/

/-- No supersession is signed: its flag day is not reached, or the row replaces nothing. -/
def SignsNoSupersession (cp : Checkpoint) : Prop :=
  isCheckpointSupersedeActive cp.snapshot_block cp.network = true → hasSupersedeFields cp = false

instance : DecidablePred SignsNoSupersession := fun _ => inferInstanceAs (Decidable (_ → _))

theorem signedSuffix_of_missing {o : Object} (hfrom : o .supersedes_from = .undefined)
    (hdigest : o .rules_digest = .undefined) : signedSuffix o = some "" := by
  have hsuffix : supersedeSuffix o = some "" := by simp [supersedeSuffix, hfrom, hdigest, Cell.given]
  rw [signedSuffix, hsuffix, ite_self]

theorem signedSuffix_stored_iff : signedSuffix (stored cp) = some "" ↔ SignsNoSupersession cp := by
  rw [signedSuffix, gateActive_stored, supersedeSuffix_stored, SignsNoSupersession]
  by_cases hactive : isCheckpointSupersedeActive cp.snapshot_block cp.network = true
  · rw [if_pos hactive]
    unfold CheckpointProofs.supersedeSuffix hasSupersedeFields
    cases hfrom : cp.supersedes_from with
    | none => cases hdigest : cp.rules_digest <;> simp [hactive]
    | some since =>
      cases hdigest : cp.rules_digest with
      | none => simp [hactive]
      | some digest =>
        -- an end that is there is not empty
        have hne : "|SUPERSEDE|" ++ since.repr ++ "|" ++ digest.toLower ≠ "" := by
          intro h
          have hlist := congrArg String.toList h
          simp at hlist
        simp [hactive, hne]
  · simp [hactive]

/-- An object without the two columns signs what the row signs exactly when the row signs no
    supersession. -/
theorem canonicalString_eq_stored_iff {o : Object} (h : Alike o (stored cp))
    (hfrom : o .supersedes_from = .undefined) (hdigest : o .rules_digest = .undefined) :
    canonicalString o = canonicalString (stored cp) ↔ SignsNoSupersession cp := by
  rw [h.canonicalString_eq_iff, signedSuffix_of_missing hfrom hdigest, eq_comm, signedSuffix_stored_iff]

theorem serve_undefined (read : Read) (cp : Checkpoint) :
    (read.serve cp).field .supersedes_from = .undefined ∧ (read.serve cp).field .rules_digest = .undefined := by
  cases read <;> exact ⟨rfl, rfl⟩

/-- Of every row that a read selects, what is served signs what the stored row signs exactly when the
    row signs no supersession: the columns of the supersession are in no statement and in no shape. -/
theorem served_preimage_iff (src : Source) (table : List Checkpoint) (read : Read) (staleLagBlocks : ℕ)
    (chainTip : Option ℕ) : ∀ cp ∈ read.selected src table,
      (canonicalString (read.serve cp).field = canonicalString (stored cp) ↔ SignsNoSupersession cp) ∧
      (canonicalString (shapeCheckpoint staleLagBlocks (read.serve cp) chainTip).field =
        canonicalString (stored cp) ↔ SignsNoSupersession cp) := by
  intro cp _
  obtain ⟨hfrom, hdigest⟩ := serve_undefined read cp
  refine ⟨canonicalString_eq_stored_iff (alike_serve read cp) hfrom hdigest, ?_⟩
  exact canonicalString_eq_stored_iff (alike_shape_serve staleLagBlocks read cp chainTip) rfl rfl

/-- A checkpoint that signed a replay of the rules from a height. -/
def replayedFrom (since : ℕ) : Checkpoint where
  chain := "BTC"
  network := "testnet"
  block_index := 700
  block_hash := "b0"
  ledger_hash := "1e"
  actions_hash := "ac"
  contract_hash := "c0"
  checkpoint_seq := 8
  snapshot_block := 158557
  supersedes_from := some since
  rules_digest := some "d4d4d4d4d4d4d4d4d4d4d4d4d4d4d4d4d4d4d4d4d4d4d4d4d4d4d4d4d4d4d4d4"
  state_root := none
  state_root_version := none
  block_merkle_root := none
  block_merkle_version := none
  validator_signatures := some []

theorem served_preimage_iff_plain :
    canonicalString ((Read.getCheckpointAt 700).serve { replayedFrom 400 with supersedes_from := none, rules_digest := none }).field =
      canonicalString (stored { replayedFrom 400 with supersedes_from := none, rules_digest := none }) :=
  ((served_preimage_iff ⟨"BTC", "testnet"⟩ [{ replayedFrom 400 with supersedes_from := none, rules_digest := none }]
    (.getCheckpointAt 700) 100 none _ (by decide)).1).mpr (by decide)

/-- A checkpoint above the flag day that signed a supersession is served without it. -/
theorem not_served_preimage : ¬ ∀ (src : Source) (table : List Checkpoint) (read : Read),
    ∀ cp ∈ read.selected src table, canonicalString (read.serve cp).field = canonicalString (stored cp) := by
  intro h
  have hsame := h ⟨"BTC", "testnet"⟩ [replayedFrom 400] (.getCheckpointAt 700) (replayedFrom 400) (by decide)
  have hsigns := (canonicalString_eq_stored_iff (alike_serve _ _) rfl rfl).mp hsame
  revert hsigns
  decide

end CheckpointReads
