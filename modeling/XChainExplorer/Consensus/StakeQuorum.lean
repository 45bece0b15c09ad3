import XChainExplorer.Consensus.StakeWeightedQuorum
import XChainExplorer.Lib.KeyedMap
import XChainExplorer.Lib.Quorum

/-! # What the stake quorum weighs

    The dedupe maps of a snapshot, read off its rows: a source weighs what its first row says, and a
    key signs for the source of its last row. A quorum is a set of signers whose sources hold more
    than two thirds of the stake. -/

namespace Consensus

open JsNumber Quorum

/-! ### The rows behind the two maps -/

def sources (validators : List Validator) : Finset String :=
  (validators.filterMap (·.namedSource)).toFinset

/-- The weight of the first row of a source, `none` where that is missing or no number. -/
def firstWeight (validators : List Validator) (src : String) : Option ℚ :=
  (validators.find? fun v => v.namedSource = some src).bind fun v => v.weight.bind bcnum

/-- The source of the last row of a public key. -/
def lastSource (validators : List Validator) (key : String) : Option String :=
  (validators.reverse.find? fun v => v.pubkey.toLower = key).bind (·.namedSource)

def weightOf (validators : List Validator) (src : String) : ℚ :=
  (firstWeight validators src).getD 0

/-- The sources the signers sign for. -/
def signed (validators : List Validator) (signerPubkeys : List String) : Finset String :=
  ((signerPubkeys.map String.toLower).filterMap (lastSource validators)).toFinset

/-- Every row names a source, and the first weight of each is a number. -/
structure Sourced (validators : List Validator) : Prop where
  named : ∀ v ∈ validators, v.namedSource.isSome
  weighed : ∀ src ∈ sources validators, (firstWeight validators src).isSome

section rows
variable {validators : List Validator} {v : Validator} {src key : String}

theorem mem_sources : src ∈ sources validators ↔ ∃ v ∈ validators, v.namedSource = some src := by
  rw [sources, List.mem_toFinset, List.mem_filterMap]

theorem mem_sources_concat :
    src ∈ sources (validators ++ [v]) ↔ src ∈ sources validators ∨ v.namedSource = some src := by
  simp only [mem_sources, List.mem_append, List.mem_singleton]
  constructor
  · rintro ⟨w, hw | rfl, hsrc⟩
    · exact .inl ⟨w, hw, hsrc⟩
    · exact .inr hsrc
  · rintro (⟨w, hw, hsrc⟩ | hsrc)
    · exact ⟨w, .inl hw, hsrc⟩
    · exact ⟨v, .inr rfl, hsrc⟩

theorem find_eq_none_of_notMem (h : src ∉ sources validators) :
    (validators.find? fun v => v.namedSource = some src) = none := by
  rw [List.find?_eq_none]
  intro w hw hsrc
  exact h (mem_sources.mpr ⟨w, hw, of_decide_eq_true hsrc⟩)

theorem firstWeight_eq_none_of_notMem (h : src ∉ sources validators) :
    firstWeight validators src = none := by
  rw [firstWeight, find_eq_none_of_notMem h, Option.bind_none]

/-- A later row does not change what a source weighs. -/
theorem firstWeight_append_of_mem {later : List Validator} (h : src ∈ sources validators) :
    firstWeight (validators ++ later) src = firstWeight validators src := by
  obtain ⟨w, hw, hsrc⟩ := mem_sources.mp h
  have hfound : (validators.find? fun v => v.namedSource = some src).isSome := by
    rw [List.find?_isSome]
    exact ⟨w, hw, decide_eq_true hsrc⟩
  obtain ⟨u, hu⟩ := Option.isSome_iff_exists.mp hfound
  rw [firstWeight, List.find?_append, hu, Option.some_or, firstWeight, hu]

theorem firstWeight_concat_of_notMem (h : src ∉ sources validators) :
    firstWeight (validators ++ [v]) src =
      if v.namedSource = some src then v.weight.bind bcnum else none := by
  rw [firstWeight, List.find?_append, find_eq_none_of_notMem h, Option.none_or, List.find?_singleton]
  split_ifs with hv hv' hv'
  · rfl
  · exact absurd (of_decide_eq_true hv) hv'
  · exact absurd (decide_eq_true hv') hv
  · rfl

theorem lastSource_concat : lastSource (validators ++ [v]) key =
    if v.pubkey.toLower = key then v.namedSource else lastSource validators key := by
  rw [lastSource, List.reverse_append, List.reverse_singleton, List.singleton_append, List.find?_cons]
  by_cases hv : v.pubkey.toLower = key
  · rw [if_pos hv, decide_eq_true hv]
    rfl
  · rw [if_neg hv, decide_eq_false hv]
    rfl

theorem sourced_concat : Sourced (validators ++ [v]) ↔ Sourced validators ∧
    ∃ src, v.namedSource = some src ∧ (src ∈ sources validators ∨ (v.weight.bind bcnum).isSome) := by
  constructor
  · rintro ⟨hnamed, hweighed⟩
    have hold : Sourced validators := by
      refine ⟨fun w hw => hnamed w (List.mem_append_left _ hw), fun src hsrc => ?_⟩
      rw [← firstWeight_append_of_mem hsrc]
      exact hweighed src (mem_sources_concat.mpr (.inl hsrc))
    obtain ⟨src, hsrc⟩ := Option.isSome_iff_exists.mp (hnamed v (by simp))
    refine ⟨hold, src, hsrc, ?_⟩
    by_cases hmem : src ∈ sources validators
    · exact .inl hmem
    · right
      have hfirst := hweighed src (mem_sources_concat.mpr (.inr hsrc))
      rwa [firstWeight_concat_of_notMem hmem, if_pos hsrc] at hfirst
  · rintro ⟨hold, src, hsrc, hfirst⟩
    refine ⟨fun w hw => ?_, fun s hs => ?_⟩
    · rcases List.mem_append.mp hw with hw | hw
      · exact hold.named w hw
      · rw [List.mem_singleton.mp hw, hsrc]
        rfl
    · by_cases hmem : s ∈ sources validators
      · rw [firstWeight_append_of_mem hmem]
        exact hold.weighed s hmem
      · have hs := (mem_sources_concat.mp hs).resolve_left hmem
        obtain rfl := Option.some.inj (hsrc.symm.trans hs)
        rw [firstWeight_concat_of_notMem hmem, if_pos hs]
        exact hfirst.resolve_left hmem

end rows

/-! ### The index -/

/-- The two maps hold what the rows say. -/
structure Indexed (validators : List Validator) (index : StakeIndex) : Prop where
  sourced : Sourced validators
  weight : ∀ src, index.weightBySource.lookup src = firstWeight validators src
  source : ∀ key, index.pubkeyToSource.lookup key = lastSource validators key

section index
variable {validators : List Validator} {index : StakeIndex}

theorem Indexed.mem_weights (h : Indexed validators index) {src : String} :
    src ∈ index.weightBySource ↔ src ∈ sources validators := by
  rw [← AList.lookup_isSome, h.weight]
  constructor
  · intro hsome
    by_contra hmem
    rw [firstWeight_eq_none_of_notMem hmem] at hsome
    cases hsome
  · exact h.sourced.weighed src

theorem Indexed.concat (h : Indexed validators index) {v : Validator} {index' : StakeIndex}
    (hv : indexValidator index v = some index') : Indexed (validators ++ [v]) index' := by
  obtain ⟨weights, hweights, hv⟩ := Option.bind_eq_some_iff.mp hv
  obtain ⟨src, hsrc, rfl⟩ := Option.map_eq_some_iff.mp hv
  rw [indexWeight, hsrc, Option.bind_some] at hweights
  refine ⟨sourced_concat.mpr ⟨h.sourced, src, hsrc, ?_⟩, fun s => ?_, fun key => ?_⟩
  · split_ifs at hweights with hmem
    · exact .inl (h.mem_weights.mp hmem)
    · obtain ⟨w, hw, -⟩ := Option.map_eq_some_iff.mp hweights
      exact .inr (hw ▸ rfl)
  · by_cases hs : s ∈ sources validators
    · rw [firstWeight_append_of_mem hs, ← h.weight]
      split_ifs at hweights with hmem
      · obtain rfl := Option.some.inj hweights
        rfl
      · obtain ⟨w, -, rfl⟩ := Option.map_eq_some_iff.mp hweights
        refine AList.lookup_insert_ne ?_
        rintro rfl
        exact hmem (h.mem_weights.mpr hs)
    · rw [firstWeight_concat_of_notMem hs]
      have hnone : index.weightBySource.lookup s = none := by
        rw [h.weight, firstWeight_eq_none_of_notMem hs]
      split_ifs at hweights with hmem
      · obtain rfl := Option.some.inj hweights
        rw [hnone, hsrc, if_neg]
        rintro ⟨⟩
        exact hs (h.mem_weights.mp hmem)
      · obtain ⟨w, hw, rfl⟩ := Option.map_eq_some_iff.mp hweights
        by_cases heq : src = s
        · subst heq
          rw [hsrc, if_pos rfl, hw]
          exact AList.lookup_insert _
        · rw [hsrc, if_neg (by simpa using heq)]
          exact (AList.lookup_insert_ne (Ne.symm heq)).trans hnone
  · rw [lastSource_concat]
    split_ifs with hkey
    · subst hkey
      rw [hsrc]
      exact AList.lookup_insert _
    · rw [← h.source]
      exact AList.lookup_insert_ne (Ne.symm hkey)

theorem indexStakeSources_concat (validators : List Validator) (v : Validator) :
    indexStakeSources (validators ++ [v]) =
      (indexStakeSources validators).bind fun index => indexValidator index v := by
  rw [indexStakeSources, List.foldlM_append]
  refine congrArg _ (funext fun index => ?_)
  simp only [List.foldlM_cons, List.foldlM_nil, bind_pure]

theorem indexed_of_indexStakeSources (h : indexStakeSources validators = some index) :
    Indexed validators index := by
  induction validators using List.reverseRecOn generalizing index with
  | nil =>
    obtain rfl := Option.some.inj h
    refine ⟨⟨fun v hv => ?_, fun src hsrc => ?_⟩, fun src => rfl, fun key => rfl⟩
    · cases hv
    · simp [sources] at hsrc
  | append_singleton validators v ih =>
    rw [indexStakeSources_concat] at h
    obtain ⟨before, hbefore, hv⟩ := Option.bind_eq_some_iff.mp h
    exact (ih hbefore).concat hv

/-- Rows that all name a source of a weight make an index. -/
theorem Sourced.exists_index (h : Sourced validators) :
    ∃ index, indexStakeSources validators = some index := by
  induction validators using List.reverseRecOn with
  | nil => exact ⟨_, rfl⟩
  | append_singleton validators v ih =>
    obtain ⟨hold, src, hsrc, hfirst⟩ := sourced_concat.mp h
    obtain ⟨before, hbefore⟩ := ih hold
    have hmem : src ∈ before.weightBySource ↔ src ∈ sources validators :=
      (indexed_of_indexStakeSources hbefore).mem_weights
    rw [indexStakeSources_concat, hbefore, Option.bind_some, indexValidator, indexWeight, hsrc,
      Option.bind_some]
    split_ifs with hin
    · exact ⟨_, rfl⟩
    · obtain ⟨w, hw⟩ := Option.isSome_iff_exists.mp (hfirst.resolve_left fun hs => hin (hmem.mpr hs))
      rw [hw]
      exact ⟨_, rfl⟩

/-- The sum of the weights in the index. -/
theorem Indexed.sum_weights (h : Indexed validators index) :
    (index.weightBySource.entries.map (·.2)).sum = ∑ src ∈ sources validators, weightOf validators src := by
  have hkeys : index.weightBySource.keys.toFinset = sources validators := by
    ext src
    rw [List.mem_toFinset, ← AList.mem_keys, h.mem_weights]
  rw [KeyedMap.map_entries _ 0, ← hkeys, List.sum_toFinset _ index.weightBySource.keys_nodup]
  refine congrArg List.sum (List.map_congr_left fun src _ => ?_)
  rw [h.weight, weightOf]

theorem Indexed.any_negative (h : Indexed validators index) :
    (index.weightBySource.entries.map (·.2)).any (· < 0) = true ↔
      ∃ src ∈ sources validators, weightOf validators src < 0 := by
  rw [KeyedMap.map_entries _ 0, List.any_eq_true]
  constructor
  · rintro ⟨w, hw, hneg⟩
    obtain ⟨src, hsrc, rfl⟩ := List.mem_map.mp hw
    refine ⟨src, h.mem_weights.mp (AList.mem_keys.mpr hsrc), ?_⟩
    rw [h.weight] at hneg
    exact of_decide_eq_true hneg
  · rintro ⟨src, hsrc, hneg⟩
    refine ⟨_, List.mem_map_of_mem (AList.mem_keys.mp (h.mem_weights.mpr hsrc)), ?_⟩
    rw [h.weight]
    exact decide_eq_true hneg

/-- The stake of the signers is the stake of the sources they sign for. -/
theorem Indexed.sumSignerStake_eq (h : Indexed validators index) (signerPubkeys : List String) :
    sumSignerStake index signerPubkeys =
      ∑ src ∈ signed validators signerPubkeys, weightOf validators src := by
  have hsources : (signerPubkeys.filterMap fun pk => index.pubkeyToSource.lookup pk.toLower) =
      (signerPubkeys.map String.toLower).filterMap (lastSource validators) := by
    rw [List.filterMap_map]
    exact List.filterMap_congr fun pk _ => h.source _
  have hdedup (l : List String) : l.toFinset = l.dedup.toFinset := by
    ext src
    rw [List.mem_toFinset, List.mem_toFinset, List.mem_dedup]
  rw [sumSignerStake, hsources, signed, hdedup, List.sum_toFinset _ (List.nodup_dedup _)]
  refine congrArg List.sum (List.map_congr_left fun src _ => ?_)
  rw [h.weight, weightOf]

end index

/-! ### The verdict -/

section verdict
variable {snapshot : Snapshot} {validators : List Validator} {A B : List String}

theorem lastSource_mem_sources {src key : String} (h : lastSource validators key = some src) :
    src ∈ sources validators := by
  obtain ⟨v, hv, hsrc⟩ := Option.bind_eq_some_iff.mp h
  exact mem_sources.mpr ⟨v, List.mem_reverse.mp (List.mem_of_find?_eq_some hv), hsrc⟩

theorem mem_signed {src : String} :
    src ∈ signed validators A ↔ ∃ key ∈ A.map String.toLower, lastSource validators key = some src := by
  rw [signed, List.mem_toFinset, List.mem_filterMap]

theorem signed_subset_sources : signed validators A ⊆ sources validators := by
  intro src hsrc
  obtain ⟨key, -, hkey⟩ := mem_signed.mp hsrc
  exact lastSource_mem_sources hkey

/-- Every row weighs something that is no debt, and they weigh something together. -/
structure Weighable (validators : List Validator) : Prop where
  sourced : Sourced validators
  nonneg : ∀ src ∈ sources validators, 0 ≤ weightOf validators src
  staked : 0 < ∑ src ∈ sources validators, weightOf validators src

theorem sumStakeWeights_eq_some {index : StakeIndex} (h : Indexed validators index) {total : ℚ} :
    sumStakeWeights index.weightBySource = some total ↔
      Weighable validators ∧ total = ∑ src ∈ sources validators, weightOf validators src := by
  have hneg := h.any_negative
  simp only [sumStakeWeights, h.sum_weights]
  constructor
  · intro hsum
    split_ifs at hsum with hlow
    obtain ⟨hany, hpos⟩ := not_or.mp hlow
    refine ⟨⟨h.sourced, fun src hsrc => ?_, not_le.mp hpos⟩, (Option.some.inj hsum).symm⟩
    by_contra hlt
    exact hany (hneg.mpr ⟨src, hsrc, not_le.mp hlt⟩)
  · rintro ⟨hw, rfl⟩
    rw [if_neg]
    rintro (hany | hle)
    · obtain ⟨src, hsrc, hlt⟩ := hneg.mp hany
      exact absurd (hw.nonneg src hsrc) (not_le.mpr hlt)
    · exact absurd hw.staked (not_lt.mpr hle)

/-- The stake quorum, off the rows. -/
theorem meetsStakeThreshold_iff : meetsStakeThreshold snapshot A = true ↔
    snapshot.truncated = false ∧ Weighable snapshot.validators ∧
      Heavy (weightOf snapshot.validators) (sources snapshot.validators)
        (signed snapshot.validators A) := by
  unfold meetsStakeThreshold
  split_ifs with htruncated
  · simp [htruncated]
  rw [Bool.not_eq_true] at htruncated
  constructor
  · intro h
    split at h
    · cases h
    case _ index hindex =>
      split at h
      · cases h
      case _ total htotal =>
        have hindexed := indexed_of_indexStakeSources hindex
        obtain ⟨hw, rfl⟩ := (sumStakeWeights_eq_some hindexed).mp htotal
        rw [hindexed.sumSignerStake_eq, decide_eq_true_iff] at h
        exact ⟨htruncated, hw, h⟩
  · rintro ⟨-, hw, hheavy⟩
    obtain ⟨index, hindex⟩ := hw.sourced.exists_index
    have hindexed := indexed_of_indexStakeSources hindex
    rw [hindex]
    simp only [(sumStakeWeights_eq_some hindexed).mpr ⟨hw, rfl⟩, hindexed.sumSignerStake_eq]
    rw [decide_eq_true_iff]
    exact hheavy

theorem foldlM_indexWeight (index : StakeIndex) :
    validators.foldlM indexWeight index.weightBySource =
      (validators.foldlM indexValidator index).map (·.weightBySource) := by
  induction validators generalizing index with
  | nil => rfl
  | cons v validators ih =>
    rw [List.foldlM_cons, List.foldlM_cons]
    cases hsrc : v.namedSource with
    | none => simp [indexWeight, indexValidator, hsrc]
    | some src =>
      cases hweights : indexWeight index.weightBySource v with
      | none => simp [indexValidator, hweights]
      | some weights =>
        have hv : indexValidator index v = some
            { weightBySource := weights
              pubkeyToSource := index.pubkeyToSource.insert v.pubkey.toLower src } := by
          rw [indexValidator, hweights, hsrc]
          rfl
        rw [hv]
        exact ih { weightBySource := weights, pubkeyToSource := _ }

/-- Where the quorum can be judged at all, the total is the sum the threshold is taken of. -/
theorem totalStake_eq_some (htruncated : snapshot.truncated = false)
    (h : Weighable snapshot.validators) : totalStake snapshot =
      some (∑ src ∈ sources snapshot.validators, weightOf snapshot.validators src) := by
  obtain ⟨index, hindex⟩ := h.sourced.exists_index
  have hindexed := indexed_of_indexStakeSources hindex
  have hweights : snapshot.validators.foldlM indexWeight ∅ = some index.weightBySource := by
    rw [foldlM_indexWeight ⟨∅, ∅⟩]
    exact (congrArg (Option.map _) hindex).trans rfl
  have hneg : ¬ (index.weightBySource.entries.map (·.2)).any (· < 0) = true := by
    rw [hindexed.any_negative]
    rintro ⟨src, hsrc, hlt⟩
    exact absurd (h.nonneg src hsrc) (not_le.mpr hlt)
  simp only [totalStake, htruncated, Bool.false_eq_true, if_false, hweights, Option.bind_some,
    if_neg hneg, hindexed.sum_weights]

end verdict

end Consensus
