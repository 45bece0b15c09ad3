import XChainExplorer.Consensus.StakeQuorum

/-! # Two stake quorums meet

    Over a snapshot in which a key names one source and a source one weight, two accepted sets of
    signers share more than a third of the stake. The verdict grows with the signers and depends on
    which keys of the snapshot are among them, and a snapshot that cannot be weighed has no quorum. -/

namespace Consensus

open JsNumber Quorum

/-- Each public key stands under one source. -/
def OneSource (validators : List Validator) : Prop :=
  ∀ v ∈ validators, ∀ u ∈ validators, v.pubkey.toLower = u.pubkey.toLower → v.source = u.source

/-- Each source carries one weight. -/
def OneWeight (validators : List Validator) : Prop :=
  ∀ v ∈ validators, ∀ u ∈ validators, v.source = u.source →
    v.weight.bind bcnum = u.weight.bind bcnum

instance (validators : List Validator) : Decidable (OneSource validators) :=
  inferInstanceAs (Decidable (∀ v ∈ validators, ∀ u ∈ validators, _ → _))

instance (validators : List Validator) : Decidable (OneWeight validators) :=
  inferInstanceAs (Decidable (∀ v ∈ validators, ∀ u ∈ validators, _ → _))

/-- The sources with a key among the signers. -/
def represented (validators : List Validator) (signerPubkeys : List String) : Finset String :=
  sources (validators.filter fun v => v.pubkey.toLower ∈ signerPubkeys.map String.toLower)

/-- What no set of signers can finalize. -/
inductive Unweighable (snapshot : Snapshot) : Prop
  | truncated (h : snapshot.truncated = true)
  | blank (v : Validator) (hv : v ∈ snapshot.validators) (h : v.namedSource = none)
  | unweighed (src : String) (hsrc : src ∈ sources snapshot.validators)
      (h : firstWeight snapshot.validators src = none)
  | negative (v : Validator) (w : ℚ) (hv : v ∈ snapshot.validators)
      (h : v.weight.bind bcnum = some w) (hneg : w < 0)
  | unstaked (h : ∑ src ∈ sources snapshot.validators, weightOf snapshot.validators src = 0)

section rows
variable {validators : List Validator} {v u : Validator} {src key : String} {A B : List String}

theorem source_of_namedSource (h : v.namedSource = some src) : v.source = some src :=
  (Option.filter_eq_some_iff.mp h).1

theorem namedSource_congr (h : v.source = u.source) : v.namedSource = u.namedSource := by
  rw [Validator.namedSource, h, Validator.namedSource]

/-- Under one weight a source weighs what any of its rows says. -/
theorem OneWeight.firstWeight (h : OneWeight validators) (hv : v ∈ validators)
    (hsrc : v.namedSource = some src) :
    Consensus.firstWeight validators src = v.weight.bind bcnum := by
  have hfound : (validators.find? fun w => w.namedSource = some src).isSome := by
    rw [List.find?_isSome]
    exact ⟨v, hv, decide_eq_true hsrc⟩
  obtain ⟨w, hw⟩ := Option.isSome_iff_exists.mp hfound
  have hwsrc : w.namedSource = some src := by simpa using List.find?_some hw
  have hsame : w.source = v.source :=
    (source_of_namedSource hwsrc).trans (source_of_namedSource hsrc).symm
  rw [Consensus.firstWeight, hw, Option.bind_some]
  exact h w (List.mem_of_find?_eq_some hw) v hv hsame

/-- The last row of a key that has one. -/
theorem exists_lastRow (hv : v ∈ validators) (hkey : v.pubkey.toLower = key) :
    ∃ u ∈ validators, u.pubkey.toLower = key ∧ lastSource validators key = u.namedSource := by
  have hfound : (validators.reverse.find? fun w => w.pubkey.toLower = key).isSome := by
    rw [List.find?_isSome]
    exact ⟨v, List.mem_reverse.mpr hv, decide_eq_true hkey⟩
  obtain ⟨u, hu⟩ := Option.isSome_iff_exists.mp hfound
  refine ⟨u, List.mem_reverse.mp (List.mem_of_find?_eq_some hu), ?_, ?_⟩
  · simpa using List.find?_some hu
  · rw [lastSource, hu, Option.bind_some]

/-- A key that signs for a source has a row. -/
theorem exists_row_of_lastSource (h : lastSource validators key = some src) :
    ∃ u ∈ validators, u.pubkey.toLower = key ∧ u.namedSource = some src := by
  obtain ⟨u, hu, hsrc⟩ := Option.bind_eq_some_iff.mp h
  have hkey : u.pubkey.toLower = key := by simpa using List.find?_some hu
  exact ⟨u, List.mem_reverse.mp (List.mem_of_find?_eq_some hu), hkey, hsrc⟩

theorem OneSource.represented_eq (h : OneSource validators) :
    represented validators A = signed validators A := by
  ext src
  rw [represented, mem_sources, mem_signed]
  constructor
  · rintro ⟨v, hv, hsrc⟩
    obtain ⟨hv, hkey⟩ := List.mem_filter.mp hv
    obtain ⟨u, hu, hukey, hlast⟩ := exists_lastRow hv rfl
    refine ⟨v.pubkey.toLower, of_decide_eq_true hkey, ?_⟩
    rw [hlast, namedSource_congr (h u hu v hv hukey), hsrc]
  · rintro ⟨key, hkey, hlast⟩
    obtain ⟨u, hu, rfl, hsrc⟩ := exists_row_of_lastSource hlast
    exact ⟨u, List.mem_filter.mpr ⟨hu, decide_eq_true hkey⟩, hsrc⟩

theorem signed_mono (h : A.map String.toLower ⊆ B.map String.toLower) :
    signed validators A ⊆ signed validators B := by
  intro src hsrc
  obtain ⟨key, hkey, hlast⟩ := mem_signed.mp hsrc
  exact mem_signed.mpr ⟨key, h hkey, hlast⟩

/-- Only the keys of the snapshot count. -/
theorem signed_congr (h : ∀ v ∈ validators, v.pubkey.toLower ∈ A.map String.toLower →
    v.pubkey.toLower ∈ B.map String.toLower) : signed validators A ⊆ signed validators B := by
  intro src hsrc
  obtain ⟨key, hkey, hlast⟩ := mem_signed.mp hsrc
  obtain ⟨u, hu, rfl, -⟩ := exists_row_of_lastSource hlast
  exact mem_signed.mpr ⟨u.pubkey.toLower, h u hu hkey, hlast⟩

end rows

section verdict
variable {snapshot : Snapshot} {A B : List String}

theorem accepted_inter (hkey : OneSource snapshot.validators)
    (hA : meetsStakeThreshold snapshot A = true) (hB : meetsStakeThreshold snapshot B = true) :
    ∃ total, totalStake snapshot = some total ∧
      total < (∑ src ∈ represented snapshot.validators A ∩ represented snapshot.validators B,
        weightOf snapshot.validators src) * 3 := by
  obtain ⟨htruncated, hw, hheavyA⟩ := meetsStakeThreshold_iff.mp hA
  obtain ⟨-, -, hheavyB⟩ := meetsStakeThreshold_iff.mp hB
  refine ⟨_, totalStake_eq_some htruncated hw, ?_⟩
  rw [hkey.represented_eq, hkey.represented_eq]
  exact hheavyA.inter hw.nonneg hheavyB signed_subset_sources signed_subset_sources

theorem accepted_mono (h : A.map String.toLower ⊆ B.map String.toLower)
    (hA : meetsStakeThreshold snapshot A = true) : meetsStakeThreshold snapshot B = true := by
  obtain ⟨htruncated, hw, hheavy⟩ := meetsStakeThreshold_iff.mp hA
  exact meetsStakeThreshold_iff.mpr
    ⟨htruncated, hw, hheavy.mono hw.nonneg (signed_mono h) signed_subset_sources⟩

theorem accepted_congr (h : ∀ v ∈ snapshot.validators, v.pubkey.toLower ∈ A.map String.toLower ↔
    v.pubkey.toLower ∈ B.map String.toLower) :
    meetsStakeThreshold snapshot A = meetsStakeThreshold snapshot B := by
  have hsigned : signed snapshot.validators A = signed snapshot.validators B :=
    (signed_congr fun v hv => (h v hv).mp).antisymm (signed_congr fun v hv => (h v hv).mpr)
  rw [Bool.eq_iff_iff, meetsStakeThreshold_iff, meetsStakeThreshold_iff, hsigned]

theorem Unweighable.refused (hweight : OneWeight snapshot.validators) (h : Unweighable snapshot)
    (A : List String) : meetsStakeThreshold snapshot A = false := by
  rw [← Bool.not_eq_true, meetsStakeThreshold_iff]
  rintro ⟨htruncated, hw, -⟩
  cases h with
  | truncated h =>
    rw [h] at htruncated
    cases htruncated
  | blank v hv h =>
    have hnamed := hw.sourced.named v hv
    rw [h] at hnamed
    cases hnamed
  | unweighed src hsrc h =>
    have hfirst := hw.sourced.weighed src hsrc
    rw [h] at hfirst
    cases hfirst
  | negative v w hv h hneg =>
    obtain ⟨src, hsrc⟩ := Option.isSome_iff_exists.mp (hw.sourced.named v hv)
    have hnonneg := hw.nonneg src (mem_sources.mpr ⟨v, hv, hsrc⟩)
    rw [weightOf, hweight.firstWeight hv hsrc, h, Option.getD_some] at hnonneg
    exact absurd hneg (not_lt.mpr hnonneg)
  | unstaked h => exact hw.staked.ne' h

end verdict

/-- Two accepted sets of signers share sources of more than a third of the total stake; a larger set
    of signers is accepted with a smaller one; signers that repeat, are spelled in another case or
    are not in the snapshot change nothing; and what cannot be weighed is refused to all of them. -/
theorem stake_quorum_safety {snapshot : Snapshot} (hkey : OneSource snapshot.validators)
    (hweight : OneWeight snapshot.validators) :
    (∀ A B, meetsStakeThreshold snapshot A = true → meetsStakeThreshold snapshot B = true →
      ∃ total, totalStake snapshot = some total ∧
        total < (∑ src ∈ represented snapshot.validators A ∩ represented snapshot.validators B,
          weightOf snapshot.validators src) * 3) ∧
    (∀ A B, A.map String.toLower ⊆ B.map String.toLower →
      meetsStakeThreshold snapshot A = true → meetsStakeThreshold snapshot B = true) ∧
    (∀ A B, (∀ v ∈ snapshot.validators, v.pubkey.toLower ∈ A.map String.toLower ↔
        v.pubkey.toLower ∈ B.map String.toLower) →
      meetsStakeThreshold snapshot A = meetsStakeThreshold snapshot B) ∧
    (Unweighable snapshot → ∀ A, meetsStakeThreshold snapshot A = false) :=
  ⟨fun _ _ hA hB => accepted_inter hkey hA hB, fun _ _ h hA => accepted_mono h hA,
    fun _ _ h => accepted_congr h, fun h A => h.refused hweight A⟩

/-- Two sources of one stake. -/
def twoSources : Snapshot where
  validators := [⟨"a", some "s", some "1"⟩, ⟨"b", some "t", some "1.0"⟩]

theorem twoSources_accepted : meetsStakeThreshold twoSources ["A", "b"] = true := by
  decide +kernel

/-- Both sources must sign, and then both are shared. -/
theorem stake_quorum_safety_two : ∃ total, totalStake twoSources = some total ∧
    total < (∑ src ∈ represented twoSources.validators ["A", "b"] ∩
      represented twoSources.validators ["A", "b"], weightOf twoSources.validators src) * 3 :=
  (stake_quorum_safety (by decide +kernel) (by decide +kernel)).1 _ _ twoSources_accepted
    twoSources_accepted

end Consensus
