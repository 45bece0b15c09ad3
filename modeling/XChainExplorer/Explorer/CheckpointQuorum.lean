import XChainExplorer.Explorer.Proofs
import XChainExplorer.Lib.Quorum

/-! # Two count quorums

    Below the stake-weighted flag day a checkpoint is verified by a count of its signers. Two quorums
    of one snapshot always share a signer, and more signers than may be faulty for the sizes of
    `Overlapping` and no others. -/

namespace CheckpointProofs

open Consensus HubDbSync Quorum

/-- The sizes at which the count quorum is past half of the validators and the faulty together. -/
def Overlapping (n : ℕ) : Prop := n % 3 = 1 ∨ n = 2 ∨ n = 3 ∨ n = 6

instance (n : ℕ) : Decidable (Overlapping n) := inferInstanceAs (Decidable (_ ∨ _))

/-- How many of `n` validators may be faulty. -/
def tolerated (n : ℕ) : ℕ := (n - 1) / 3

/-- Whatever two quorums there are, they share more validators than may be faulty. -/
def SharesCorrect (validators : Finset String) (quorum : ℕ) : Prop :=
  ∀ A ⊆ validators, ∀ B ⊆ validators, quorum ≤ A.card → quorum ≤ B.card →
    tolerated validators.card < (A ∩ B).card

/-- Of the signatures that two rows carry for two payloads, a validator that is not faulty gave
    those of one payload only. -/
def SignsOnce (ed25519 : Ed25519) (faulty : Finset String) (cp cp' : Checkpoint)
    (canonical canonical' : String) : Prop :=
  ∀ key ∉ faulty, SignedBy ed25519 canonical (cp.validator_signatures.getD []) key →
    SignedBy ed25519 canonical' (cp'.validator_signatures.getD []) key → canonical = canonical'

theorem countQuorum_le {n : ℕ} (hn : 0 < n) : countQuorum n ≤ n := by
  unfold countQuorum
  split_ifs <;> omega

theorem lt_two_mul_countQuorum {n : ℕ} (hn : 0 < n) : n < 2 * countQuorum n := by
  unfold countQuorum
  split_ifs <;> omega

theorem overlapping_iff {n : ℕ} (hn : 0 < n) :
    Overlapping n ↔ n + tolerated n < 2 * countQuorum n := by
  unfold Overlapping tolerated countQuorum
  split_ifs <;> omega

theorem sharesCorrect_iff {validators : Finset String} (hn : 0 < validators.card) :
    SharesCorrect validators (countQuorum validators.card) ↔ Overlapping validators.card := by
  rw [overlapping_iff hn]
  constructor
  · intro h
    obtain ⟨A, hA, B, hB, hAcard, hBcard, hinter⟩ :=
      exists_card_inter (countQuorum_le hn) (lt_two_mul_countQuorum hn).le
    have hshare := h A hA B hB hAcard.ge hBcard.ge
    omega
  · intro h A hA B hB hAq hBq
    have hinter := card_inter hA hB hAq hBq
    omega

section results
variable {ed25519 : Ed25519} {cp cp' : Checkpoint} {canonical canonical' : String}
  {validators : List CapabilitySnapshot}

theorem card_qualified : (qualified validators).toFinset.card = (qualified validators).length :=
  List.toFinset_card_of_nodup (List.nodup_dedup _)

theorem qualified_pos (h : validators ≠ []) : 0 < (qualified validators).length := by
  obtain ⟨v, hv⟩ := List.exists_mem_of_ne_nil validators h
  exact List.length_pos_of_mem (List.mem_dedup.mpr (List.mem_map_of_mem hv))

/-- A verified count quorum is a set of distinct qualified signers of the canonical string. -/
theorem signers_of_verified (hcount : isStakeWeightedQuorumActive cp.snapshot_block cp.network = false)
    (h : (checkpointVerifyResult ed25519 cp canonical validators).verified = true) :
    ∃ A ⊆ (qualified validators).toFinset, countQuorum (qualified validators).length ≤ A.card ∧
      ∀ key ∈ A, SignedBy ed25519 canonical (cp.validator_signatures.getD []) key := by
  have hsigners := signers_countCheckpointSignatures ed25519 canonical (qualified validators)
    (cp.validator_signatures.getD [])
  refine ⟨_, fun key hkey => List.mem_toFinset.mpr (hsigners.subset (List.mem_toFinset.mp hkey)), ?_,
    fun key hkey => hsigners.signed key (List.mem_toFinset.mp hkey)⟩
  rw [List.toFinset_card_of_nodup hsigners.nodup]
  simp only [checkpointVerifyResult, hcount, Bool.false_eq_true, if_false, Bool.and_eq_true,
    decide_eq_true_eq] at h
  exact h.2

theorem eq_of_verified (hoverlap : Overlapping (qualified validators).length)
    (hne : validators ≠ [])
    (hcount : isStakeWeightedQuorumActive cp.snapshot_block cp.network = false)
    (hcount' : isStakeWeightedQuorumActive cp'.snapshot_block cp'.network = false)
    (h : (checkpointVerifyResult ed25519 cp canonical validators).verified = true)
    (h' : (checkpointVerifyResult ed25519 cp' canonical' validators).verified = true)
    {faulty : Finset String} (hfaulty : faulty.card ≤ tolerated (qualified validators).length)
    (honce : SignsOnce ed25519 faulty cp cp' canonical canonical') : canonical = canonical' := by
  obtain ⟨A, hA, hAq, hAsigned⟩ := signers_of_verified hcount h
  obtain ⟨B, hB, hBq, hBsigned⟩ := signers_of_verified hcount' h'
  rw [← card_qualified] at hoverlap hfaulty hAq hBq
  have hpos : 0 < (qualified validators).toFinset.card := card_qualified ▸ qualified_pos hne
  have hshare := (sharesCorrect_iff hpos).mpr hoverlap A hA B hB hAq hBq
  -- one of the shared signers is not faulty
  obtain ⟨key, hkey, hcorrect⟩ := Finset.exists_mem_notMem_of_card_lt_card (hfaulty.trans_lt hshare)
  exact honce key hcorrect (hAsigned key (Finset.mem_inter.mp hkey).1)
    (hBsigned key (Finset.mem_inter.mp hkey).2)

end results

/-- Two count quorums share a validator; they share more than may be faulty exactly where the number
    of qualified validators is overlapping, and there no two checkpoints that conflict are both
    verified. -/
theorem count_quorum_intersection (ed25519 : Ed25519) {validators : List CapabilitySnapshot}
    (hne : validators ≠ []) :
    (∀ cp canonical, ∀ A ⊆ (qualified validators).toFinset, ∀ B ⊆ (qualified validators).toFinset,
      (checkpointVerifyResult ed25519 cp canonical validators).quorum ≤ A.card →
      (checkpointVerifyResult ed25519 cp canonical validators).quorum ≤ B.card →
        (A ∩ B).Nonempty) ∧
    (∀ cp canonical, SharesCorrect (qualified validators).toFinset
      (checkpointVerifyResult ed25519 cp canonical validators).quorum ↔
        Overlapping (qualified validators).length) ∧
    (Overlapping (qualified validators).length → ∀ cp cp' canonical canonical' faulty,
      isStakeWeightedQuorumActive cp.snapshot_block cp.network = false →
      isStakeWeightedQuorumActive cp'.snapshot_block cp'.network = false →
      faulty.card ≤ tolerated (qualified validators).length →
      SignsOnce ed25519 faulty cp cp' canonical canonical' →
      (checkpointVerifyResult ed25519 cp canonical validators).verified = true →
      (checkpointVerifyResult ed25519 cp' canonical' validators).verified = true →
        canonical = canonical') := by
  have hpos : 0 < (qualified validators).toFinset.card := card_qualified ▸ qualified_pos hne
  have hquorum (cp : Checkpoint) (canonical : String) :
      (checkpointVerifyResult ed25519 cp canonical validators).quorum =
        countQuorum (qualified validators).toFinset.card := by
    rw [card_qualified]
    rfl
  refine ⟨fun cp canonical A hA B hB hAq hBq => ?_, fun cp canonical => ?_, ?_⟩
  · rw [hquorum] at hAq hBq
    have hinter := card_inter hA hB hAq hBq
    have htwo := lt_two_mul_countQuorum hpos
    rw [← Finset.card_pos]
    omega
  · rw [hquorum, ← card_qualified]
    exact sharesCorrect_iff hpos
  · intro hoverlap cp cp' canonical canonical' faulty hcount hcount' hfaulty honce h h'
    exact eq_of_verified hoverlap hne hcount hcount' h h' hfaulty honce

/-- Four validators with keys of one repeated letter. -/
def fourKeys : List CapabilitySnapshot :=
  ['a', 'b', 'c', 'd'].map fun c => ⟨0, repeated 64 c, some "1", some "s"⟩

/-- A row of a height with counted quorums that carries a signature of each of the letters. -/
def counted (signers : List Char) : Checkpoint :=
  { chain := "BTC"
    network := "mainnet"
    block_index := 7
    block_hash := "b0"
    ledger_hash := "1e"
    actions_hash := "ac"
    contract_hash := "c0"
    checkpoint_seq := 1
    snapshot_block := 900000
    supersedes_from := none
    rules_digest := none
    state_root := none
    state_root_version := none
    block_merkle_root := none
    block_merkle_version := none
    validator_signatures := some (signers.map fun c => ⟨repeated 64 c, repeated 128 '0'⟩) }

/-- The validators `a`, `b` and `c` sign the payload "x", and `a`, which is faulty, "y" as `d` does. -/
def forked : Ed25519 := fun payload _ pubkey =>
  decide ((payload, pubkey) ∈
    [("x", repeated 64 'a'), ("x", repeated 64 'b'), ("x", repeated 64 'c'),
      ("y", repeated 64 'a'), ("y", repeated 64 'd')])

theorem qualified_fourKeys : qualified fourKeys = ['a', 'b', 'c', 'd'].map (repeated 64) := by
  have ha : (repeated 64 'a').toLower = repeated 64 'a' := toLower_repeated rfl
  have hb : (repeated 64 'b').toLower = repeated 64 'b' := toLower_repeated rfl
  have hc : (repeated 64 'c').toLower = repeated 64 'c' := toLower_repeated rfl
  have hd : (repeated 64 'd').toLower = repeated 64 'd' := toLower_repeated rfl
  have hnodup : (['a', 'b', 'c', 'd'].map (repeated 64)).Nodup :=
    List.Nodup.map (fun _ _ h => (repeated_inj (by decide)).mp h) (by decide)
  rw [qualified, fourKeys]
  simp only [List.map_cons, List.map_nil, ha, hb, hc, hd] at hnodup ⊢
  exact hnodup.dedup

theorem letter_lower {c : Char} (hc : c ∈ ['a', 'b', 'c', 'd']) :
    c.toLower = c ∧ (c.isDigit || ('a' ≤ c && c ≤ 'f')) = true := by
  simp only [List.mem_cons, List.not_mem_nil, or_false] at hc
  rcases hc with rfl | rfl | rfl | rfl <;> exact ⟨rfl, rfl⟩

theorem ed25519Verify_forked {payload : String} {c : Char} (hpayload : payload ≠ "")
    (hc : c ∈ ['a', 'b', 'c', 'd']) :
    ed25519Verify forked payload (repeated 128 '0') (repeated 64 c) =
      forked payload (repeated 128 '0') (repeated 64 c) := by
  have hletter := letter_lower hc
  rw [ed25519Verify, toLower_repeated (n := 128) (c := '0') rfl, toLower_repeated hletter.1, isHex_repeated hletter.2,
    isHex_repeated (by decide), decide_eq_true hpayload, Bool.true_and, Bool.true_and, Bool.true_and]

theorem signedBy_counted {payload : String} {l : List Char} {key : String} (hpayload : payload ≠ "")
    (hl : l ⊆ ['a', 'b', 'c', 'd'])
    (h : SignedBy forked payload ((counted l).validator_signatures.getD []) key) :
    ∃ c ∈ l, key = repeated 64 c ∧ forked payload (repeated 128 '0') key = true := by
  obtain ⟨s, hs, hkey, hverify⟩ := h
  obtain ⟨c, hc, rfl⟩ := List.mem_map.mp hs
  rw [toLower_repeated (letter_lower (hl hc)).1] at hkey
  subst hkey
  rw [ed25519Verify_forked hpayload (hl hc)] at hverify
  exact ⟨c, hc, rfl, hverify⟩

theorem signsOnce_forked : SignsOnce forked {repeated 64 'a'} (counted ['a', 'b', 'c'])
    (counted ['a', 'd']) "x" "y" := by
  intro key hkey h h'
  obtain ⟨c, hc, rfl, hverify⟩ := signedBy_counted (by decide) (by decide) h
  obtain ⟨c', hc', heq, -⟩ := signedBy_counted (by decide) (by decide) h'
  have hsame : c = c' := (repeated_inj (by decide)).mp heq
  rw [← hsame] at hc'
  simp only [List.mem_cons, List.not_mem_nil, or_false] at hc hc'
  obtain rfl : c = 'a' := by
    rcases hc with rfl | rfl | rfl <;> simp_all
  exact absurd (Finset.mem_singleton_self _) hkey

theorem verified_counted :
    (checkpointVerifyResult forked (counted ['a', 'b', 'c']) "x" fourKeys).verified = true := by
  have hcount : isStakeWeightedQuorumActive (counted ['a', 'b', 'c']).snapshot_block
      (counted ['a', 'b', 'c']).network = false := by decide +kernel
  have hsigners : countCheckpointSignatures forked "x" (['a', 'b', 'c', 'd'].map (repeated 64))
      (['a', 'b', 'c'].map fun c => ⟨repeated 64 c, repeated 128 '0'⟩) =
        ['a', 'b', 'c'].map (repeated 64) := by
    have hlower {c : Char} (hc : c ∈ ['a', 'b', 'c', 'd']) : (repeated 64 c).toLower = repeated 64 c :=
      toLower_repeated (letter_lower hc).1
    simp [countCheckpointSignatures, hlower, ed25519Verify_forked, forked, repeated_inj,
      repeated_ne_empty]
  have hmissing : commitmentMissing (counted ['a', 'b', 'c']) = false := by decide +kernel
  have hbelow : supersedeBelowGate (counted ['a', 'b', 'c']) = false := rfl
  simp only [checkpointVerifyResult, hcount, hmissing, hbelow, qualified_fourKeys]
  rw [counted, Option.getD_some, hsigners]
  rfl

/-- Of four validators with one of them faulty no two payloads gather a quorum, and any two quorums
    share two validators. -/
theorem count_quorum_intersection_four :
    SharesCorrect (qualified fourKeys).toFinset 3 ∧
      (checkpointVerifyResult forked (counted ['a', 'b', 'c']) "x" fourKeys).verified = true ∧
      (checkpointVerifyResult forked (counted ['a', 'd']) "y" fourKeys).verified ≠ true := by
  have hlength : (qualified fourKeys).length = 4 := congrArg List.length qualified_fourKeys
  have hoverlap : Overlapping (qualified fourKeys).length := by
    rw [hlength]
    decide
  have hne : fourKeys ≠ [] := by decide
  have hresult := count_quorum_intersection forked hne
  refine ⟨?_, verified_counted, fun hverified => ?_⟩
  · have h := (hresult.2.1 (counted []) "").mpr hoverlap
    have hquorum : (checkpointVerifyResult forked (counted []) "" fourKeys).quorum = 3 :=
      congrArg countQuorum hlength
    exact hquorum ▸ h
  · have hfaulty : ({repeated 64 'a'} : Finset String).card ≤ tolerated (qualified fourKeys).length := by
      rw [hlength]
      decide
    have heq := hresult.2.2 hoverlap (counted ['a', 'b', 'c']) (counted ['a', 'd']) "x" "y" _
      (by decide +kernel) (by decide +kernel) hfaulty signsOnce_forked verified_counted hverified
    revert heq
    decide

/-- So many validators with keys of one letter. -/
def lettered (n : ℕ) : List CapabilitySnapshot :=
  (["a", "b", "c", "d", "e"].take n).map fun key => ⟨0, key, some "1", some key⟩

/-- Of five validators three are a quorum, and two quorums may share only the one that is faulty. -/
theorem not_count_quorum_intersection : ¬ ∀ (ed25519 : Ed25519) (cp : Checkpoint)
    (canonical : String) (validators : List CapabilitySnapshot), validators ≠ [] →
      SharesCorrect (qualified validators).toFinset
        (checkpointVerifyResult ed25519 cp canonical validators).quorum := by
  intro h
  have hfive := h (fun _ _ _ => true)
    ⟨"", "", 0, "", "", "", "", 0, 0, none, none, none, none, none, none, none⟩ "" (lettered 5)
    (by decide) {"a", "b", "c"} (by decide +kernel) {"c", "d", "e"} (by decide +kernel)
    (by decide +kernel) (by decide +kernel)
  revert hfive
  decide +kernel

end CheckpointProofs
