import XChainExplorer.Explorer.Proofs
import XChainExplorer.Lib.JoinedFields

/-! # What a checkpoint's string signs

    The string is a list of fields joined by `|`: an optional header of eight, the base of ten, and
    optional ends of four and three. No two choices of the optional parts have one length, so the
    string determines which of them are there and every field in them. Roots and digests are signed in
    lower case. -/

namespace CheckpointProofs

open Consensus HubDbSync JoinedFields

/-- The roots as they are signed, where the flag day commits them. -/
def signedRoots (cp : Checkpoint) : Option (String × ℕ × String × ℕ) :=
  if isCheckpointCommitmentActive cp.snapshot_block cp.network then
    (commitment cp).map fun (root, version, merkle, merkleVersion) =>
      (root.toLower, version, merkle.toLower, merkleVersion)
  else none

/-- The supersession as it is signed, where the flag day commits it. -/
def signedSupersession (cp : Checkpoint) : Option (ℕ × String) :=
  if isCheckpointSupersedeActive cp.snapshot_block cp.network then
    cp.supersedes_from.bind fun since => cp.rules_digest.map fun digest => (since, digest.toLower)
  else none

/-- Two rows sign the same content. -/
structure SameSigned (a b : Checkpoint) : Prop where
  chain : a.chain = b.chain
  network : a.network = b.network
  block_index : a.block_index = b.block_index
  block_hash : a.block_hash = b.block_hash
  ledger_hash : a.ledger_hash = b.ledger_hash
  actions_hash : a.actions_hash = b.actions_hash
  contract_hash : a.contract_hash = b.contract_hash
  checkpoint_seq : a.checkpoint_seq = b.checkpoint_seq
  snapshot_block : a.snapshot_block = b.snapshot_block
  roots : signedRoots a = signedRoots b
  supersession : signedSupersession a = signedSupersession b

/-- No text of the row holds the separator. The digest is checked by the code itself. -/
structure SeparatorFree (cp : Checkpoint) : Prop where
  chain : '|' ∉ cp.chain.toList
  network : '|' ∉ cp.network.toList
  block_hash : '|' ∉ cp.block_hash.toList
  ledger_hash : '|' ∉ cp.ledger_hash.toList
  actions_hash : '|' ∉ cp.actions_hash.toList
  contract_hash : '|' ∉ cp.contract_hash.toList
  state_root : ∀ root ∈ cp.state_root, '|' ∉ root.toList
  block_merkle_root : ∀ root ∈ cp.block_merkle_root, '|' ∉ root.toList

/-- No signature of a key holds for both of two payloads that differ. -/
def Binding (ed25519 : Ed25519) (payload payload' : String) : Prop :=
  ∀ sig pubkey, ed25519 payload sig pubkey = true → ed25519 payload' sig pubkey = true →
    payload = payload'

/-! ### The fields -/

def headerFields (cp : Checkpoint) : List String :=
  if isEquivHeaderActive cp.snapshot_block cp.network then
    ["EQUIV", ENGINE_TAG_CHECKPOINT, cp.chain, cp.network, cp.block_index.repr,
      cp.checkpoint_seq.repr, "0", ""]
  else []

def rootFields : Option (String × ℕ × String × ℕ) → List String
  | some (root, version, merkle, merkleVersion) =>
    [root, version.repr, merkle, merkleVersion.repr]
  | none => []

def supersessionFields : Option (ℕ × String) → List String
  | some (since, digest) => ["SUPERSEDE", since.repr, digest]
  | none => []

def signedFields (cp : Checkpoint) : List String :=
  headerFields cp ++ (baseFields cp ++ rootFields (signedRoots cp) ++
    supersessionFields (signedSupersession cp))

theorem rootFields_injective : Function.Injective rootFields := by
  intro x y h
  match x, y with
  | none, none => rfl
  | none, some (_, _, _, _) => cases h
  | some (_, _, _, _), none => cases h
  | some (root, version, merkle, merkleVersion), some (root', version', merkle', merkleVersion') =>
    simp only [rootFields, List.cons.injEq, and_true] at h
    obtain ⟨rfl, hversion, rfl, hmerkle⟩ := h
    rw [repr_injective hversion, repr_injective hmerkle]

theorem supersessionFields_injective : Function.Injective supersessionFields := by
  intro x y h
  match x, y with
  | none, none => rfl
  | none, some (_, _) => cases h
  | some (_, _), none => cases h
  | some (since, digest), some (since', digest') =>
    simp only [supersessionFields, List.cons.injEq, and_true, true_and] at h
    obtain ⟨hsince, rfl⟩ := h
    rw [repr_injective hsince]

theorem length_headerFields (cp : Checkpoint) :
    (headerFields cp).length = 0 ∨ (headerFields cp).length = 8 := by
  unfold headerFields
  split_ifs
  · exact .inr rfl
  · exact .inl rfl

theorem length_rootFields (x : Option (String × ℕ × String × ℕ)) :
    (rootFields x).length = 0 ∨ (rootFields x).length = 4 := by
  cases x with
  | none => exact .inl rfl
  | some x => exact .inr rfl

theorem length_supersessionFields (x : Option (ℕ × String)) :
    (supersessionFields x).length = 0 ∨ (supersessionFields x).length = 3 := by
  cases x with
  | none => exact .inl rfl
  | some x => exact .inr rfl

/-! ### The string joins the fields -/

section join
variable {cp : Checkpoint} {canonical suffix : String} {l : List String}

theorem intercalate_append (hl : l ≠ []) (m : List String) :
    "|".intercalate (l ++ m) = "|".intercalate l ++ if m = [] then "" else "|" ++ "|".intercalate m := by
  split_ifs with hm
  · rw [hm, List.append_nil, String.append_empty]
  · rw [String.intercalate_append_of_ne_nil hl hm, String.append_assoc]

theorem supersedeSuffix_eq (hactive : isCheckpointSupersedeActive cp.snapshot_block cp.network = true)
    (h : supersedeSuffix cp = some suffix) (hl : l ≠ []) :
    "|".intercalate l ++ suffix = "|".intercalate (l ++ supersessionFields (signedSupersession cp)) := by
  rw [intercalate_append hl, signedSupersession, if_pos hactive]
  unfold supersedeSuffix at h
  cases hfrom : cp.supersedes_from with
  | none =>
    cases hdigest : cp.rules_digest with
    | none =>
      rw [hfrom, hdigest] at h
      cases h
      rfl
    | some digest =>
      rw [hfrom, hdigest] at h
      cases h
  | some since =>
    cases hdigest : cp.rules_digest with
    | none =>
      rw [hfrom, hdigest] at h
      cases h
    | some digest =>
      rw [hfrom, hdigest] at h
      dsimp only at h
      split_ifs at h
      cases h
      have hmark : "|SUPERSEDE|" = "|" ++ "SUPERSEDE" ++ "|" := by decide
      rw [hmark]
      simp only [Option.bind_some, Option.map_some, supersessionFields, List.cons_ne_nil, if_false,
        String.intercalate_cons_cons, String.intercalate_singleton, String.append_assoc]

theorem rootedString_eq (cp : Checkpoint) :
    rootedString cp = "|".intercalate (baseFields cp ++ rootFields (signedRoots cp)) := by
  have hbase : baseFields cp ≠ [] := List.cons_ne_nil _ _
  rw [intercalate_append hbase, signedRoots, rootedString]
  cases hroots : commitment cp with
  | none => split_ifs <;> simp_all [rootFields]
  | some roots =>
    obtain ⟨root, version, merkle, merkleVersion⟩ := roots
    dsimp only [commitmentSuffix]
    split_ifs <;> simp_all [rootFields]

theorem buildEquivCanonical_eq (hl : l ≠ []) :
    (if isEquivHeaderActive cp.snapshot_block cp.network then
      buildEquivCanonical ENGINE_TAG_CHECKPOINT
        (cp.chain ++ "|" ++ cp.network ++ "|" ++ cp.block_index.repr ++ "|" ++
          cp.checkpoint_seq.repr) 0 ("|".intercalate l)
    else "|".intercalate l) = "|".intercalate (headerFields cp ++ l) := by
  unfold headerFields
  split_ifs
  · have hview : "|0||" = "|" ++ Nat.repr 0 ++ "||" := by decide
    rw [String.intercalate_append_of_ne_nil (List.cons_ne_nil _ _) hl]
    simp [buildEquivCanonical, equivPrefix, equivKey, hview, String.append_assoc]
  · rfl

/-- The string of a row joins its signed fields, and none of them holds the separator. -/
theorem canonicalCheckpointString_eq (h : canonicalCheckpointString cp = some canonical) :
    canonical = "|".intercalate (signedFields cp) := by
  obtain ⟨suffix, hsuffix, rfl⟩ := Option.map_eq_some_iff.mp h
  rw [rootedString_eq]
  have hne : baseFields cp ++ rootFields (signedRoots cp) ≠ [] := by simp [baseFields]
  have hend : "|".intercalate (baseFields cp ++ rootFields (signedRoots cp)) ++ suffix =
      "|".intercalate (baseFields cp ++ rootFields (signedRoots cp) ++
        supersessionFields (signedSupersession cp)) := by
    by_cases hactive : isCheckpointSupersedeActive cp.snapshot_block cp.network = true
    · rw [if_pos hactive] at hsuffix
      exact supersedeSuffix_eq hactive hsuffix hne
    · rw [if_neg hactive] at hsuffix
      cases hsuffix
      rw [signedSupersession, if_neg hactive, supersessionFields, List.append_nil,
        String.append_empty]
  rw [hend, signedFields]
  exact buildEquivCanonical_eq (List.append_ne_nil_of_left_ne_nil hne _)

end join

/-! ### No field holds the separator -/

section free
variable {cp : Checkpoint} {canonical : String}

theorem separator_notMem_toLower {s : String} (h : '|' ∉ s.toList) : '|' ∉ s.toLower.toList := by
  rw [toList_toLower]
  intro hmem
  obtain ⟨c, hc, hlower⟩ := List.mem_map.mp hmem
  have hbar : c = '|' := by
    by_cases hupper : c.val ≥ 'A'.val ∧ c.val ≤ 'Z'.val
    · -- a letter of the upper case goes to one below the separator
      have hval : (c.val.toNat + 32) % 2 ^ 32 = 124 :=
        congrArg (fun d : Char => d.val.toNat) ((dif_pos hupper).symm.trans hlower)
      have hle : c.val.toNat ≤ 90 := UInt32.le_iff_toNat_le.mp hupper.2
      omega
    · exact (dif_neg hupper).symm.trans hlower
  exact h (hbar ▸ hc)

theorem separator_notMem_of_isHex {n : ℕ} {s : String} (h : isHex n s = true) : '|' ∉ s.toList := by
  intro hmem
  simp only [isHex, Bool.and_eq_true, List.all_eq_true] at h
  have hbar := h.2 '|' hmem
  revert hbar
  decide

theorem free_rootFields (h : SeparatorFree cp) : Free '|' (rootFields (signedRoots cp)) := by
  unfold signedRoots commitment
  split_ifs
  · split
    case h_1 root version merkle merkleVersion hroot _ hmerkle _ =>
      simp only [Option.map_some, rootFields, free_cons, free_nil, and_true]
      exact ⟨separator_notMem_toLower (h.state_root root hroot), separator_notMem_repr rfl _,
        separator_notMem_toLower (h.block_merkle_root merkle hmerkle), separator_notMem_repr rfl _⟩
    case h_2 => exact free_nil
  · exact free_nil

theorem free_supersessionFields (h : canonicalCheckpointString cp = some canonical) :
    Free '|' (supersessionFields (signedSupersession cp)) := by
  obtain ⟨suffix, hsuffix, -⟩ := Option.map_eq_some_iff.mp h
  unfold signedSupersession
  split_ifs at hsuffix ⊢
  · unfold supersedeSuffix at hsuffix
    split at hsuffix
    case h_1 hfrom _ =>
      rw [hfrom]
      exact free_nil
    case h_2 since digest hfrom hdigest =>
      split_ifs at hsuffix with hwell
      rw [hfrom, hdigest]
      simp only [Option.bind_some, Option.map_some, supersessionFields, free_cons, free_nil, and_true]
      exact ⟨by decide, separator_notMem_repr rfl _, separator_notMem_of_isHex hwell.2⟩
    case h_3 => cases hsuffix
  · exact free_nil

theorem free_signedFields (h : SeparatorFree cp) (hcanonical : canonicalCheckpointString cp = some canonical) :
    Free '|' (signedFields cp) := by
  have hheader : Free '|' (headerFields cp) := by
    unfold headerFields
    split_ifs
    · simp only [free_cons, free_nil, and_true]
      exact ⟨by decide, by decide, h.chain, h.network, separator_notMem_repr rfl _,
        separator_notMem_repr rfl _, by decide, by decide⟩
    · exact free_nil
  have hbase : Free '|' (baseFields cp) := by
    simp only [baseFields, free_cons, free_nil, and_true]
    exact ⟨by decide, h.chain, h.network, separator_notMem_repr rfl _, h.block_hash, h.ledger_hash,
      h.actions_hash, h.contract_hash, separator_notMem_repr rfl _, separator_notMem_repr rfl _⟩
  simp only [signedFields, free_append]
  exact ⟨hheader, ⟨hbase, free_rootFields h⟩, free_supersessionFields hcanonical⟩

end free

section injective
variable {a b : Checkpoint} {canonical : String}

/-- The lengths of the optional parts tell which of them are there. -/
theorem signedFields_inj (h : signedFields a = signedFields b) :
    baseFields a = baseFields b ∧ signedRoots a = signedRoots b ∧
      signedSupersession a = signedSupersession b := by
  have hlength := congrArg List.length h
  have hbase (cp : Checkpoint) : (baseFields cp).length = 10 := rfl
  simp only [signedFields, List.length_append, hbase] at hlength
  have hparts : (headerFields a).length = (headerFields b).length ∧
      (rootFields (signedRoots a)).length = (rootFields (signedRoots b)).length ∧
      (supersessionFields (signedSupersession a)).length =
        (supersessionFields (signedSupersession b)).length := by
    have := length_headerFields a
    have := length_headerFields b
    have := length_rootFields (signedRoots a)
    have := length_rootFields (signedRoots b)
    have := length_supersessionFields (signedSupersession a)
    have := length_supersessionFields (signedSupersession b)
    omega
  obtain ⟨-, hrest⟩ := List.append_inj h hparts.1
  obtain ⟨hrest, hsupersession⟩ := List.append_inj' hrest hparts.2.2
  obtain ⟨hbase, hroots⟩ := List.append_inj hrest rfl
  exact ⟨hbase, rootFields_injective hroots, supersessionFields_injective hsupersession⟩

theorem sameSigned_of_canonical (ha : SeparatorFree a) (hb : SeparatorFree b)
    (hacanonical : canonicalCheckpointString a = some canonical)
    (hbcanonical : canonicalCheckpointString b = some canonical) : SameSigned a b := by
  have hjoin := (canonicalCheckpointString_eq hacanonical).symm.trans
    (canonicalCheckpointString_eq hbcanonical)
  have hne (cp : Checkpoint) : signedFields cp ≠ [] := by simp [signedFields, baseFields]
  have hfields := intercalate_inj rfl (free_signedFields ha hacanonical)
    (free_signedFields hb hbcanonical) (hne a) (hne b) hjoin
  obtain ⟨hbase, hroots, hsupersession⟩ := signedFields_inj hfields
  simp only [baseFields, List.cons.injEq, and_true, true_and] at hbase
  obtain ⟨hchain, hnetwork, hindex, hblock, hledger, hactions, hcontract, hseq, hsnapshot⟩ := hbase
  exact
    { chain := hchain
      network := hnetwork
      block_index := repr_injective hindex
      block_hash := hblock
      ledger_hash := hledger
      actions_hash := hactions
      contract_hash := hcontract
      checkpoint_seq := repr_injective hseq
      snapshot_block := repr_injective hsnapshot
      roots := hroots
      supersession := hsupersession }

/-- One signature of one key verifies for one of the payloads only. -/
theorem Binding.eq_of_verify {ed25519 : Ed25519} {canonical' sig pubkey : String}
    (h : Binding ed25519 canonical canonical') (hverify : ed25519Verify ed25519 canonical sig pubkey = true)
    (hverify' : ed25519Verify ed25519 canonical' sig pubkey = true) : canonical = canonical' := by
  simp only [ed25519Verify, Bool.and_eq_true] at hverify hverify'
  exact h _ _ hverify.2 hverify'.2

end injective

/-- Rows with one signing string sign the same content, and a signature that verifies for the strings
    of two rows does so for rows that sign the same content. -/
theorem canonical_checkpoint_injective {a b : Checkpoint} (ha : SeparatorFree a)
    (hb : SeparatorFree b) :
    (∀ canonical, canonicalCheckpointString a = some canonical →
      canonicalCheckpointString b = some canonical → SameSigned a b) ∧
    (∀ ed25519 canonical canonical' sig pubkey, Binding ed25519 canonical canonical' →
      canonicalCheckpointString a = some canonical →
      canonicalCheckpointString b = some canonical' →
      ed25519Verify ed25519 canonical sig pubkey = true →
      ed25519Verify ed25519 canonical' sig pubkey = true → SameSigned a b) := by
  refine ⟨fun canonical hac hbc => sameSigned_of_canonical ha hb hac hbc, ?_⟩
  intro ed25519 canonical canonical' sig pubkey hbinding hac hbc hverify hverify'
  rw [← hbinding.eq_of_verify hverify hverify'] at hbc
  exact sameSigned_of_canonical ha hb hac hbc

/-- A committed checkpoint of the regression network, by its state root. -/
def rootedAt (root : String) : Checkpoint :=
  { chain := "BTC"
    network := "regtest"
    block_index := 7
    block_hash := "b0"
    ledger_hash := "1e"
    actions_hash := "ac"
    contract_hash := "c0"
    checkpoint_seq := 1
    snapshot_block := 5
    supersedes_from := none
    rules_digest := none
    state_root := some root
    state_root_version := some 1
    block_merkle_root := some "ee"
    block_merkle_version := some 1
    validator_signatures := some [] }

theorem separatorFree_rootedAt {root : String} (h : '|' ∉ root.toList) :
    SeparatorFree (rootedAt root) where
  chain := by simp [rootedAt]
  network := by simp [rootedAt]
  block_hash := by simp [rootedAt]
  ledger_hash := by simp [rootedAt]
  actions_hash := by simp [rootedAt]
  contract_hash := by simp [rootedAt]
  state_root := by simpa [rootedAt] using h
  block_merkle_root := by simp [rootedAt]

theorem canonical_rootedAt :
    canonicalCheckpointString (rootedAt "A") = canonicalCheckpointString (rootedAt "a") := by
  have hroot : "A".toLower = "a".toLower := by
    apply String.toList_injective
    rw [toList_toLower, toList_toLower]
    rfl
  have hrooted : rootedString (rootedAt "A") = rootedString (rootedAt "a") := by
    simp only [rootedString, commitment, commitmentSuffix, rootedAt, baseFields, hroot]
    rfl
  rw [canonicalCheckpointString, hrooted]
  rfl

theorem exists_canonical_rootedAt (root : String) :
    ∃ canonical, canonicalCheckpointString (rootedAt root) = some canonical := by
  have hsuffix : supersedeSuffix (rootedAt root) = some "" := rfl
  rw [canonicalCheckpointString, hsuffix, ite_self]
  exact ⟨_, rfl⟩

/-- One key that signs one payload. -/
def signing (payload : String) : Ed25519 := fun signed sig pubkey =>
  decide (signed = payload ∧ sig = repeated 128 '1' ∧ pubkey = repeated 64 'a')

theorem ed25519Verify_signing {payload : String} (hpayload : payload ≠ "") :
    ed25519Verify (signing payload) payload (repeated 128 '1') (repeated 64 'a') = true := by
  rw [ed25519Verify, toLower_repeated (n := 128) (c := '1') rfl, toLower_repeated (c := 'a') rfl,
    isHex_repeated (by decide), isHex_repeated (by decide), decide_eq_true hpayload]
  simp [signing]

theorem canonical_rootedAt_ne_empty {root canonical : String}
    (h : canonicalCheckpointString (rootedAt root) = some canonical) : canonical ≠ "" := by
  rintro rfl
  have hjoined := congrArg String.toList (canonicalCheckpointString_eq h)
  have hheader : headerFields (rootedAt root) ≠ [] := by
    have hactive : isEquivHeaderActive (rootedAt root).snapshot_block (rootedAt root).network =
        true := by
      change isEquivHeaderActive 5 "regtest" = true
      decide +kernel
    rw [headerFields, if_pos hactive]
    exact List.cons_ne_nil _ _
  rw [signedFields, String.intercalate_append_of_ne_nil hheader (by simp [baseFields])] at hjoined
  simp at hjoined

/-- The signature over one spelling of the root verifies for the other, which signs the same. -/
theorem canonical_checkpoint_injective_case : SameSigned (rootedAt "A") (rootedAt "a") := by
  obtain ⟨canonical, hcanonical⟩ := exists_canonical_rootedAt "a"
  have hverify := ed25519Verify_signing (canonical_rootedAt_ne_empty hcanonical)
  exact (canonical_checkpoint_injective (separatorFree_rootedAt (by decide))
    (separatorFree_rootedAt (by decide))).2 (signing canonical) canonical canonical _ _
    (fun _ _ _ _ => rfl) (canonical_rootedAt.trans hcanonical) hcanonical hverify hverify

/-- Roots that differ in the case of a letter are signed alike. -/
theorem not_canonical_checkpoint_injective : ¬ ∀ a b : Checkpoint, SeparatorFree a →
    SeparatorFree b → ∀ canonical, canonicalCheckpointString a = some canonical →
      canonicalCheckpointString b = some canonical →
      isCheckpointCommitmentActive a.snapshot_block a.network = true →
        commitment a = commitment b := by
  intro h
  obtain ⟨canonical, hcanonical⟩ := exists_canonical_rootedAt "a"
  have hroots := h (rootedAt "A") (rootedAt "a") (separatorFree_rootedAt (by decide))
    (separatorFree_rootedAt (by decide)) canonical (canonical_rootedAt.trans hcanonical) hcanonical
    (by decide +kernel)
  revert hroots
  decide

end CheckpointProofs
