import XChainExplorer.Consensus.FixedMerkle
import XChainExplorer.Lib.JoinedFields
import Mathlib.Data.List.Forall2

/-! # The content leaves of a block

    Every row of a block is one leaf: the hash of its fields as text, joined by a zero byte behind the
    tag of its kind. A null of most columns is the empty text; that of the others is what `String` makes
    of it. -/

namespace Merkle

/-! ### Joined fields -/

/-- The byte between the fields. -/
def NUL : UInt8 := 0x00

/-- The bytes of a field, which holds no separator. -/
def fieldBytes (part : String) : Except String Bytes :=
  if NUL ∈ utf8 part then .error ("merkle: field contains 0x00, breaks injective join: " ++ part)
  else .ok (utf8 part)

/-- The fields joined, as they are hashed. -/
def joinFields (parts : List String) : Except String Bytes :=
  (parts.mapM fieldBytes).map fun bufs => [NUL].intercalate bufs

/-! ### The rows -/

/-- A column, as it is hashed. -/
inductive Cell
  /-- A number. -/
  | index (value : Option ℕ)
  /-- A number whose null is `''`. -/
  | count (value : Option ℕ)
  /-- A text whose null is `''`. -/
  | text (value : Option String)
  /-- A text as it is stored. -/
  | amount (value : Option String)
  deriving DecidableEq

/-- `String` of a column. -/
def Cell.encode : Cell → String
  | index value => (value.map Nat.repr).getD "null"
  | count value => (value.map Nat.repr).getD ""
  | text value => value.getD ""
  | amount value => value.getD "null"

/-- The tables of a block, in the order of their leaves. -/
inductive LeafKind
  | credit | debit | escrow | actions | contracts | state | executions | emissions | deposits | withdrawals
  deriving DecidableEq

/-- The fields before those of the row. -/
def LeafKind.tag : LeafKind → List String
  | credit => ["L", "credit"]
  | debit => ["L", "debit"]
  | escrow => ["L", "escrow"]
  | actions => ["A"]
  | contracts => ["C", "contracts"]
  | state => ["C", "state"]
  | executions => ["C", "executions"]
  | emissions => ["C", "emissions"]
  | deposits => ["C", "deposits"]
  | withdrawals => ["C", "withdrawals"]

/-- A row as it is hashed: its table and its cells. -/
structure LeafRow where
  kind : LeafKind
  cells : List Cell
  deriving DecidableEq

/-- A row of `credits`, `debits` or `escrows`. -/
structure LedgerRow where
  action_index : ℕ
  address : Option String
  tick : Option String
  amount : Option String

/-- A row of `actions`. -/
structure ActionRow where
  action_index : ℕ
  tx_index : Option ℕ
  action : Option String

/-- A row of `contracts`. -/
structure ContractRow where
  action_index : ℕ
  source_address : Option String
  code_hash : Option String
  status : Option String

/-- A row of the contracts' state. -/
structure StateRow where
  contract_index : ℕ
  state_key : Option String
  state_value : Option String

/-- A row of the contracts' executions. -/
structure ExecutionRow where
  action_index : ℕ
  contract_index : Option ℕ
  caller_address : Option String
  gas_used : Option ℕ
  status : Option String
  emitted_count : Option ℕ

/-- A row of the contracts' emissions. -/
structure EmissionRow where
  execution_index : ℕ
  emitted_action : Option String
  action_index : Option ℕ
  position : ℕ

/-- A row of `deposits` or `withdrawals`. -/
structure TransferRow where
  action_index : ℕ
  contract_index : Option ℕ
  source_address : Option String
  tick : Option String
  amount : String
  status : Option String

/-- The rows of a block, as `getBlockLeafRows` gathers them. -/
structure BlockRows where
  credits : List LedgerRow
  debits : List LedgerRow
  escrows : List LedgerRow
  actions : List ActionRow
  contracts : List ContractRow
  state : List StateRow
  executions : List ExecutionRow
  emissions : List EmissionRow
  deposits : List TransferRow
  withdrawals : List TransferRow

/-! ### The leaves -/

/-- The cells of a ledger row. Its amount is hashed as it stands. -/
def LedgerRow.leafRow (kind : LeafKind) (r : LedgerRow) : LeafRow where
  kind := kind
  cells := [.index r.action_index, .text r.address, .text r.tick, .amount r.amount]

/-- The cells of an action. -/
def ActionRow.leafRow (r : ActionRow) : LeafRow where
  kind := .actions
  cells := [.index r.action_index, .count r.tx_index, .text r.action]

/-- The cells of a contract. -/
def ContractRow.leafRow (r : ContractRow) : LeafRow where
  kind := .contracts
  cells := [.index r.action_index, .text r.source_address, .text r.code_hash, .text r.status]

/-- The cells of a value of a contract's state. -/
def StateRow.leafRow (r : StateRow) : LeafRow where
  kind := .state
  cells := [.index r.contract_index, .text r.state_key, .text r.state_value]

/-- The cells of an execution. -/
def ExecutionRow.leafRow (r : ExecutionRow) : LeafRow where
  kind := .executions
  cells := [.index r.action_index, .index r.contract_index, .text r.caller_address, .count r.gas_used,
    .text r.status, .count r.emitted_count]

/-- The cells of an emission. -/
def EmissionRow.leafRow (r : EmissionRow) : LeafRow where
  kind := .emissions
  cells := [.index r.execution_index, .text r.emitted_action, .index r.action_index, .index r.position]

/-- The cells of a deposit or a withdrawal. -/
def TransferRow.leafRow (kind : LeafKind) (r : TransferRow) : LeafRow where
  kind := kind
  cells := [.index r.action_index, .index r.contract_index, .text r.source_address, .text r.tick,
    .amount r.amount, .text r.status]

/-- The rows in the order of their leaves. -/
def BlockRows.ordered (rows : BlockRows) : List LeafRow :=
  rows.credits.map (LedgerRow.leafRow .credit) ++ rows.debits.map (LedgerRow.leafRow .debit) ++
    rows.escrows.map (LedgerRow.leafRow .escrow) ++ rows.actions.map ActionRow.leafRow ++
    rows.contracts.map ContractRow.leafRow ++ rows.state.map StateRow.leafRow ++
    rows.executions.map ExecutionRow.leafRow ++ rows.emissions.map EmissionRow.leafRow ++
    rows.deposits.map (TransferRow.leafRow .deposits) ++
    rows.withdrawals.map (TransferRow.leafRow .withdrawals)

/-- The tag of the table and the texts of the cells. -/
def LeafRow.fields (r : LeafRow) : List String := r.kind.tag ++ r.cells.map Cell.encode

/-- The leaf of a row. -/
def LeafRow.leaf (r : LeafRow) : Except String Bytes := (joinFields r.fields).map leafHash

/-- The leaf of an action. -/
def actionsLeaf (row : ActionRow) : Except String Bytes := row.leafRow.leaf

/-- The leaves of a block, the first row that has none stopping it. -/
def blockMerkleLeaves (rows : BlockRows) : Except String (List Bytes) := rows.ordered.mapM LeafRow.leaf

/-- The root over the leaves. -/
def blockMerkleRoot (orderedLeaves : List Bytes) : Option Bytes := fixedMerkleRoot orderedLeaves

/-! ### Fields without a zero byte -/

/-- No field of a row holds the byte the fields are joined by. -/
def BlockRows.NulFree (rows : BlockRows) : Prop :=
  ∀ r ∈ rows.ordered, ∀ c ∈ r.cells, NUL ∉ utf8 c.encode

/-- What a row's leaf is the hash of. -/
def LeafRow.joined (r : LeafRow) : Bytes := [NUL].intercalate (r.fields.map utf8)

theorem mapM_ok {α β : Type} {f : α → Except String β} {g : α → β} {l : List α}
    (h : ∀ a ∈ l, f a = .ok (g a)) : l.mapM f = .ok (l.map g) := by
  induction l with
  | nil => rfl
  | cons a l ih =>
    rw [List.mapM_cons, h a List.mem_cons_self, ih fun b hb => h b (List.mem_cons_of_mem _ hb)]
    rfl

theorem joinFields_ok {parts : List String} (h : ∀ part ∈ parts, NUL ∉ utf8 part) :
    joinFields parts = .ok ([NUL].intercalate (parts.map utf8)) := by
  have hparts : parts.mapM fieldBytes = .ok (parts.map utf8) :=
    mapM_ok fun part hpart => if_neg (h part hpart)
  rw [joinFields, hparts]
  rfl

theorem nul_notMem_tag (kind : LeafKind) : ∀ part ∈ kind.tag, NUL ∉ utf8 part := by
  cases kind <;> decide

theorem LeafRow.fields_free {r : LeafRow} (h : ∀ c ∈ r.cells, NUL ∉ utf8 c.encode) :
    ∀ part ∈ r.fields, NUL ∉ utf8 part := by
  intro part hpart
  rcases List.mem_append.mp hpart with hpart | hpart
  · exact nul_notMem_tag r.kind part hpart
  · obtain ⟨c, hc, rfl⟩ := List.mem_map.mp hpart
    exact h c hc

theorem BlockRows.NulFree.leaves {rows : BlockRows} (h : rows.NulFree) :
    blockMerkleLeaves rows = .ok (rows.ordered.map fun r => leafHash r.joined) := by
  refine mapM_ok fun r hr => ?_
  rw [LeafRow.leaf, joinFields_ok (LeafRow.fields_free (h r hr))]
  rfl

/-- Fields without a zero byte are told by what they are joined to. -/
theorem joined_inj {parts parts' : List String} (hparts : ∀ part ∈ parts, NUL ∉ utf8 part)
    (hparts' : ∀ part ∈ parts', NUL ∉ utf8 part) (hne : parts ≠ []) (hne' : parts' ≠ [])
    (h : [NUL].intercalate (parts.map utf8) = [NUL].intercalate (parts'.map utf8)) : parts = parts' := by
  have hsplit {k : List String} (hk : ∀ part ∈ k, NUL ∉ utf8 part) (hne : k ≠ []) :
      ([NUL].intercalate (k.map utf8)).splitOn NUL = k.map utf8 := by
    refine List.splitOn_intercalate NUL (fun f hf => ?_) (mt List.map_eq_nil_iff.mp hne)
    obtain ⟨part, hpart, rfl⟩ := List.mem_map.mp hf
    exact hk part hpart
  have hmap : parts.map utf8 = parts'.map utf8 := by rw [← hsplit hparts hne, h, hsplit hparts' hne']
  exact List.map_injective_iff.mpr utf8_injective hmap

/-! ### What a row's leaf tells -/

/-- What a cell is written from. -/
inductive Column
  | index | count | text | amount
  deriving DecidableEq

/-- The column that a cell came from. -/
def Cell.column : Cell → Column
  | index _ => .index
  | count _ => .count
  | text _ => .text
  | amount _ => .amount

/-- The columns of a table. -/
def LeafKind.columns : LeafKind → List Column
  | credit | debit | escrow => [.index, .text, .text, .amount]
  | actions => [.index, .count, .text]
  | contracts => [.index, .text, .text, .text]
  | state => [.index, .text, .text]
  | executions => [.index, .index, .text, .count, .text, .count]
  | emissions => [.index, .text, .index, .index]
  | deposits | withdrawals => [.index, .index, .text, .text, .amount, .text]

/-- One field of two rows: equal, but that a null is `''` in a column that is coerced. -/
def Cell.Agree : Cell → Cell → Prop
  | index a, index b => a = b
  | count a, count b => a = b
  | text a, text b => a.getD "" = b.getD ""
  | amount a, amount b => a = b
  | _, _ => False

/-- An amount is missing on one side, and the text that `String` makes of it on the other. -/
def Cell.NullSpelled (c d : Cell) : Prop :=
  (c = amount none ∧ d = amount (some "null")) ∨ (c = amount (some "null") ∧ d = amount none)

/-- Two rows of one table with related cells. -/
def LeafRow.Rel (R : Cell → Cell → Prop) (r s : LeafRow) : Prop :=
  r.kind = s.kind ∧ List.Forall₂ R r.cells s.cells

/-- The rows agree field by field. -/
def BlockRows.Agree (A B : BlockRows) : Prop := List.Forall₂ (LeafRow.Rel Cell.Agree) A.ordered B.ordered

/-- The rows agree but for missing amounts, and for one of these they do not. -/
def BlockRows.NullSpelled (A B : BlockRows) : Prop :=
  List.Forall₂ (LeafRow.Rel fun c d => c.Agree d ∨ c.NullSpelled d) A.ordered B.ordered ∧
    ∃ p ∈ A.ordered.zip B.ordered, ∃ q ∈ p.1.cells.zip p.2.cells, q.1.NullSpelled q.2

/-- The number of rows in each table. -/
def BlockRows.counts (rows : BlockRows) : List ℕ :=
  [rows.credits.length, rows.debits.length, rows.escrows.length, rows.actions.length, rows.contracts.length,
    rows.state.length, rows.executions.length, rows.emissions.length, rows.deposits.length,
    rows.withdrawals.length]

/-- The kind of every leaf. -/
def BlockRows.kinds (rows : BlockRows) : List LeafKind := rows.ordered.map LeafRow.kind

theorem repr_ne_empty (n : ℕ) : n.repr ≠ "" := by
  intro h
  have hlen := congrArg String.toList h
  rw [Nat.toList_repr] at hlen
  exact Nat.toDigits_ne_nil hlen

theorem repr_ne_null (n : ℕ) : n.repr ≠ "null" := by
  intro h
  have hfree : 'n' ∉ n.repr.toList := JoinedFields.separator_notMem_repr rfl n
  rw [h] at hfree
  exact hfree (by decide)

theorem repr_getD_inj {a b : Option ℕ} {null : String} (hnull : ∀ n : ℕ, n.repr ≠ null)
    (h : (a.map Nat.repr).getD null = (b.map Nat.repr).getD null) : a = b := by
  cases a with
  | none =>
    cases b with
    | none => rfl
    | some n => exact absurd h.symm (hnull n)
  | some m =>
    cases b with
    | none => exact absurd h (hnull m)
    | some n => exact congrArg some (JoinedFields.repr_injective h)

/-- Of one column, equal texts are equal fields, but for a missing amount. -/
theorem Cell.encode_eq_iff {c d : Cell} (h : c.column = d.column) :
    c.encode = d.encode ↔ c.Agree d ∨ c.NullSpelled d := by
  cases c with
  | index a =>
    cases d <;> simp only [column, reduceCtorEq] at h
    rename_i b
    refine ⟨fun h => .inl (repr_getD_inj repr_ne_null h), ?_⟩
    rintro (h | h)
    · exact congrArg (fun x => (Option.map Nat.repr x).getD "null") h
    · simp [NullSpelled] at h
  | count a =>
    cases d <;> simp only [column, reduceCtorEq] at h
    rename_i b
    refine ⟨fun h => .inl (repr_getD_inj repr_ne_empty h), ?_⟩
    rintro (h | h)
    · exact congrArg (fun x => (Option.map Nat.repr x).getD "") h
    · simp [NullSpelled] at h
  | text a =>
    cases d <;> simp only [column, reduceCtorEq] at h
    simp [encode, Agree, NullSpelled]
  | amount a =>
    cases d <;> simp only [column, reduceCtorEq] at h
    rename_i b
    cases a <;> cases b <;> simp [encode, Agree, NullSpelled, eq_comm]

theorem Cell.Agree.not_nullSpelled {c d : Cell} (h : c.Agree d) : ¬ c.NullSpelled d := by
  rintro (⟨rfl, rfl⟩ | ⟨rfl, rfl⟩) <;> cases h

theorem BlockRows.columns {rows : BlockRows} {r : LeafRow} (hr : r ∈ rows.ordered) :
    r.cells.map Cell.column = r.kind.columns := by
  simp only [ordered, List.mem_append, List.mem_map] at hr
  rcases hr with (((((((((⟨x, -, rfl⟩ | ⟨x, -, rfl⟩) | ⟨x, -, rfl⟩) | ⟨x, -, rfl⟩) | ⟨x, -, rfl⟩) | ⟨x, -, rfl⟩) |
    ⟨x, -, rfl⟩) | ⟨x, -, rfl⟩) | ⟨x, -, rfl⟩) | ⟨x, -, rfl⟩) <;> rfl

theorem BlockRows.kinds_eq {A B : BlockRows} (h : A.counts = B.counts) : A.kinds = B.kinds := by
  simp only [counts, List.cons.injEq, and_true] at h
  obtain ⟨h₁, h₂, h₃, h₄, h₅, h₆, h₇, h₈, h₉, h₁₀⟩ := h
  simp [kinds, ordered, Function.comp_def, LedgerRow.leafRow, ActionRow.leafRow, ContractRow.leafRow,
    StateRow.leafRow, ExecutionRow.leafRow, EmissionRow.leafRow, TransferRow.leafRow, *]

/-- The tags tell the kinds apart, whatever follows them. -/
theorem LeafKind.tag_inj {k k' : LeafKind} {l l' : List String} (h : k.tag ++ l = k'.tag ++ l') : k = k' := by
  cases k <;> cases k' <;> simp_all [tag]

theorem LeafRow.fields_ne_nil (r : LeafRow) : r.fields ≠ [] := by
  rw [fields]
  cases r.kind <;> simp [LeafKind.tag]

/-! ### What a block's root binds -/

/-- What `EMPTY 0` is the hash of. -/
def emptyBytes : Bytes := EMPTY_PREFIX :: utf8 "XCHAIN_EMPTY_LEAF"

/-- The byte strings that are hashed for a block's root: of the leaves, of the nodes and of the padding. -/
def BlockRows.hashed (rows : BlockRows) : List Bytes :=
  rows.ordered.map (fun r => LEAF_PREFIX :: r.joined) ++
    fixedHashed (rows.ordered.map fun r => leafHash r.joined) ++ [emptyBytes]

section Binds

variable {A B : BlockRows}

theorem leafHash_inj (hfree : NoClash A.hashed B.hashed) (hA : A.NulFree) (hB : B.NulFree) {r s : LeafRow}
    (hr : r ∈ A.ordered) (hs : s ∈ B.ordered) (h : leafHash r.joined = leafHash s.joined) :
    r.fields = s.fields := by
  have hpreimage := hfree (LEAF_PREFIX :: r.joined) (by
    rw [BlockRows.hashed, List.append_assoc]
    exact List.mem_append_left _ (List.mem_map_of_mem hr)) (LEAF_PREFIX :: s.joined) (by
    rw [BlockRows.hashed, List.append_assoc]
    exact List.mem_append_left _ (List.mem_map_of_mem hs)) h
  exact joined_inj (LeafRow.fields_free (hA r hr)) (LeafRow.fields_free (hB s hs)) r.fields_ne_nil
    s.fields_ne_nil (List.cons.inj hpreimage).2

theorem leafHash_ne_EMPTY (hfree : NoClash A.hashed B.hashed) {r : LeafRow} (hr : r ∈ A.ordered) :
    leafHash r.joined ≠ EMPTY 0 := by
  intro h
  have hpreimage := hfree (LEAF_PREFIX :: r.joined) (by
    rw [BlockRows.hashed, List.append_assoc]
    exact List.mem_append_left _ (List.mem_map_of_mem hr)) emptyBytes (by
    rw [BlockRows.hashed]
    exact List.mem_append_right _ (List.mem_singleton_self _)) h
  exact absurd (List.cons.inj hpreimage).1 (by decide)

/-- Rows of one kind have one leaf where their fields agree, or differ in a missing amount alone. -/
theorem LeafRow.fields_eq_iff {r s : LeafRow} (hr : r ∈ A.ordered) (hs : s ∈ B.ordered)
    (hkind : r.kind = s.kind) :
    r.fields = s.fields ↔ LeafRow.Rel (fun c d => c.Agree d ∨ c.NullSpelled d) r s := by
  have hcolumns : List.Forall₂ (fun c d : Cell => c.column = d.column) r.cells s.cells := by
    have h : r.cells.map Cell.column = s.cells.map Cell.column := by
      rw [BlockRows.columns hr, BlockRows.columns hs, hkind]
    rwa [← List.forall₂_eq_eq_eq, List.forall₂_map_left_iff, List.forall₂_map_right_iff] at h
  have hencode : r.cells.map Cell.encode = s.cells.map Cell.encode ↔
      List.Forall₂ (fun c d => c.Agree d ∨ c.NullSpelled d) r.cells s.cells := by
    rw [← List.forall₂_eq_eq_eq, List.forall₂_map_left_iff, List.forall₂_map_right_iff]
    clear hr hs hkind
    generalize r.cells = cells at hcolumns ⊢
    generalize s.cells = cells' at hcolumns ⊢
    induction hcolumns with
    | nil => simp
    | cons hcolumn hcolumns ih => rw [List.forall₂_cons, List.forall₂_cons, Cell.encode_eq_iff hcolumn, ih]
  rw [fields, fields, hkind, List.append_cancel_left_eq, hencode, Rel, and_iff_right hkind]

theorem leaves_eq_iff (hfree : NoClash A.hashed B.hashed) (hA : A.NulFree) (hB : B.NulFree)
    (hkinds : A.kinds = B.kinds) :
    (A.ordered.map fun r => leafHash r.joined) = (B.ordered.map fun r => leafHash r.joined) ↔
      List.Forall₂ (LeafRow.Rel fun c d => c.Agree d ∨ c.NullSpelled d) A.ordered B.ordered := by
  have hlen : A.ordered.length = B.ordered.length := by
    simpa [BlockRows.kinds] using congrArg List.length hkinds
  rw [BlockRows.kinds, BlockRows.kinds, ← List.forall₂_eq_eq_eq, List.forall₂_map_left_iff,
    List.forall₂_map_right_iff, List.forall₂_iff_zip] at hkinds
  rw [← List.forall₂_eq_eq_eq, List.forall₂_map_left_iff, List.forall₂_map_right_iff, List.forall₂_iff_zip,
    List.forall₂_iff_zip, and_iff_right hlen, and_iff_right hlen]
  refine forall₂_congr fun r s => imp_congr_right fun hrs => ?_
  obtain ⟨hr, hs⟩ := List.of_mem_zip hrs
  rw [← LeafRow.fields_eq_iff hr hs (hkinds.2 hrs)]
  constructor
  · exact leafHash_inj hfree hA hB hr hs
  · intro h
    rw [LeafRow.joined, LeafRow.joined, h]

/-- Where no amount is spelled for a missing one, rows that agree up to that agree. -/
theorem agree_of_not_nullSpelled
    (h : List.Forall₂ (LeafRow.Rel fun c d => c.Agree d ∨ c.NullSpelled d) A.ordered B.ordered)
    (hnull : ¬ A.NullSpelled B) : A.Agree B := by
  have hall := h
  rw [List.forall₂_iff_zip] at h
  rw [BlockRows.Agree, List.forall₂_iff_zip]
  refine ⟨h.1, fun {r s} hrs => ?_⟩
  obtain ⟨hkind, hcells⟩ := h.2 hrs
  refine ⟨hkind, ?_⟩
  rw [List.forall₂_iff_zip] at hcells ⊢
  refine ⟨hcells.1, fun {c d} hcd => (hcells.2 hcd).resolve_right fun hspelled => hnull ?_⟩
  exact ⟨hall, (r, s), hrs, (c, d), hcd, hspelled⟩

theorem BlockRows.Agree.not_nullSpelled (h : A.Agree B) : ¬ A.NullSpelled B := by
  rintro ⟨-, ⟨r, s⟩, hrs, ⟨c, d⟩, hcd, hspelled⟩
  rw [BlockRows.Agree, List.forall₂_iff_zip] at h
  have hcells := (h.2 hrs).2
  rw [List.forall₂_iff_zip] at hcells
  exact (hcells.2 hcd).not_nullSpelled hspelled

end Binds

/-- Of two blocks with as many rows of each kind, one root means one vector of leaves, and rows that
    agree field by field, unless a missing amount meets its own spelling. Leaves of two kinds are never
    equal, nor is a leaf and a padded position. -/
theorem blockMerkleRoot_binds_iff (A B : BlockRows) (hA : A.NulFree) (hB : B.NulFree)
    (hcounts : A.counts = B.counts) (hfree : NoClash A.hashed B.hashed) :
    ∃ leaves leaves' : List Bytes,
      blockMerkleLeaves A = .ok leaves ∧ blockMerkleLeaves B = .ok leaves' ∧
      (∀ root, blockMerkleRoot leaves = some root →
        ((blockMerkleRoot leaves' = some root → leaves = leaves' ∧ A.Agree B) ↔ ¬ A.NullSpelled B)) ∧
      (∀ (i j : ℕ) (x y : Bytes), leaves[i]? = some x → leaves'[j]? = some y → A.kinds[i]? ≠ B.kinds[j]? →
        x ≠ y) ∧
      ∀ x ∈ leaves, ∀ (width : ℕ), ∀ y ∈ (padLeaves leaves' width).drop leaves'.length, x ≠ y := by
  have hkinds := BlockRows.kinds_eq hcounts
  have hlen : A.ordered.length = B.ordered.length := by
    simpa [BlockRows.kinds] using congrArg List.length hkinds
  have hsize (rows : BlockRows) : ∀ b ∈ rows.ordered.map fun r => leafHash r.joined, b.length = 32 := by
    intro b hb
    obtain ⟨r, -, rfl⟩ := List.mem_map.mp hb
    exact length_leafHash _
  have hnodes : NoClash (fixedHashed (A.ordered.map fun r => leafHash r.joined))
      (fixedHashed (B.ordered.map fun r => leafHash r.joined)) := by
    refine hfree.mono ?_ ?_ <;> intro x hx <;> rw [BlockRows.hashed] <;>
      exact List.mem_append_left _ (List.mem_append_right _ hx)
  refine ⟨_, _, hA.leaves, hB.leaves, fun root hroot => ⟨fun hbinds hspelled => ?_, fun hnull hroot' => ?_⟩,
    ?_, ?_⟩
  · have hequal := (leaves_eq_iff hfree hA hB hkinds).mpr hspelled.1
    rw [hequal] at hroot
    exact (hbinds hroot).2.not_nullSpelled hspelled
  · have hequal := fixedMerkleRoot_inj (by rw [List.length_map, List.length_map, hlen]) (hsize A) (hsize B)
      hnodes hroot hroot'
    exact ⟨hequal, agree_of_not_nullSpelled ((leaves_eq_iff hfree hA hB hkinds).mp hequal) hnull⟩
  · intro i j x y hx hy hkind hxy
    rw [List.getElem?_map] at hx hy
    obtain ⟨r, hr, rfl⟩ := Option.map_eq_some_iff.mp hx
    obtain ⟨s, hs, rfl⟩ := Option.map_eq_some_iff.mp hy
    rw [BlockRows.kinds, BlockRows.kinds, List.getElem?_map, List.getElem?_map, hr, hs] at hkind
    have hfields := leafHash_inj hfree hA hB (List.mem_of_getElem? hr) (List.mem_of_getElem? hs) hxy
    exact hkind (congrArg some (LeafKind.tag_inj hfields))
  · intro x hx width y hy
    obtain ⟨r, hr, rfl⟩ := List.mem_map.mp hx
    rw [padLeaves, List.drop_left] at hy
    rw [(List.mem_replicate.mp hy).2]
    exact leafHash_ne_EMPTY hfree hr

/-- A block of two credits, a debit and an action, by the amount of its second credit. -/
def fourRows (amount : String) : BlockRows where
  credits := [⟨7, some "addr", some "XCH", some "5"⟩, ⟨7, some "addr2", some "XCH", some amount⟩]
  debits := [⟨7, some "addr3", some "XCH", some "8"⟩]
  escrows := []
  actions := [⟨7, some 3, some "SEND"⟩]
  contracts := []
  state := []
  executions := []
  emissions := []
  deposits := []
  withdrawals := []

theorem fourRows_free : (fourRows "3").NulFree ∧ (fourRows "4").NulFree := by
  unfold BlockRows.NulFree
  decide

theorem fourRows_noClash : NoClash (fourRows "3").hashed (fourRows "4").hashed := by
  unfold NoClash
  decide +kernel

/-- Rows related one by one have their second amounts related. -/
theorem amounts_of_fourRows {R : Cell → Cell → Prop} {amount amount' : String}
    (h : List.Forall₂ (LeafRow.Rel R) (fourRows amount).ordered (fourRows amount').ordered) :
    R (.amount (some amount)) (.amount (some amount')) := by
  rcases h with - | ⟨-, - | ⟨⟨-, hcells⟩, -⟩⟩
  rcases hcells with - | ⟨-, - | ⟨-, - | ⟨-, - | ⟨hamount, -⟩⟩⟩⟩
  exact hamount

/-- Blocks that differ in one amount have two roots. -/
theorem blockMerkleRoot_binds_fourRows :
    ∃ leaves leaves' : List Bytes,
      blockMerkleLeaves (fourRows "3") = .ok leaves ∧ blockMerkleLeaves (fourRows "4") = .ok leaves' ∧
      ∀ root, blockMerkleRoot leaves = some root → blockMerkleRoot leaves' ≠ some root := by
  obtain ⟨leaves, leaves', h, h', hbinds, -⟩ := blockMerkleRoot_binds_iff (fourRows "3") (fourRows "4")
    fourRows_free.1 fourRows_free.2 rfl fourRows_noClash
  have hspelled : ¬ (fourRows "3").NullSpelled (fourRows "4") := by
    rintro ⟨hrows, -⟩
    have hamount := amounts_of_fourRows hrows
    revert hamount
    simp [Cell.Agree, Cell.NullSpelled]
  refine ⟨leaves, leaves', h, h', fun root hroot hroot' => ?_⟩
  have hamount := amounts_of_fourRows (((hbinds root hroot).mpr hspelled) hroot').2
  revert hamount
  simp [Cell.Agree]

/-- A block whose only row is a credit of an amount. -/
def oneCredit (amount : Option String) : BlockRows where
  credits := [⟨7, some "addr", some "XCH", amount⟩]
  debits := []
  escrows := []
  actions := []
  contracts := []
  state := []
  executions := []
  emissions := []
  deposits := []
  withdrawals := []

theorem oneCredit_free : (oneCredit none).NulFree ∧ (oneCredit (some "null")).NulFree := by
  unfold BlockRows.NulFree
  decide

theorem oneCredit_noClash : NoClash (oneCredit none).hashed (oneCredit (some "null")).hashed := by
  unfold NoClash
  decide +kernel

/-- A credit without an amount has the leaf, and its block the root, of one of the amount `null`. -/
theorem nullAmount_same_root :
    ∃ (A B : BlockRows) (leaves : List Bytes) (root : Bytes), A.NulFree ∧ B.NulFree ∧ A.counts = B.counts ∧
      NoClash A.hashed B.hashed ∧ blockMerkleLeaves A = .ok leaves ∧ blockMerkleLeaves B = .ok leaves ∧
      blockMerkleRoot leaves = some root ∧ ¬ A.Agree B := by
  refine ⟨oneCredit none, oneCredit (some "null"), _, _, oneCredit_free.1, oneCredit_free.2, rfl,
    oneCredit_noClash, oneCredit_free.1.leaves, oneCredit_free.2.leaves, rfl, ?_⟩
  rintro (- | ⟨⟨-, hcells⟩, -⟩)
  rcases hcells with - | ⟨-, - | ⟨-, - | ⟨-, - | ⟨hamount, -⟩⟩⟩⟩
  cases hamount

end Merkle
