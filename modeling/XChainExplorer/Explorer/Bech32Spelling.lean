import XChainExplorer.Explorer.AddressShape

/-! # Segwit addresses

    The spelling of a witness version and its data words behind a human-readable part, with the one
    checksum that goes with them, and that the decoder finds exactly the texts spelled so. -/

namespace AddressShape
open Positional

/-! ### The checksum -/

theorem polymodStep_eq (chk value : ℕ) :
    polymodStep chk value = ShiftRegister.step 5 5 (fun top => mixIn top 0) chk value := by
  have hmix : ∀ (l : List ℕ) (top a b : ℕ),
      l.foldl (fun chk i => if (top >>> i) &&& 1 ≠ 0 then chk ^^^ BECH32_GEN.getD i 0 else chk) (a ^^^ b) =
        a ^^^ l.foldl (fun chk i => if (top >>> i) &&& 1 ≠ 0 then chk ^^^ BECH32_GEN.getD i 0 else chk) b := by
    intro l top a b
    induction l generalizing b with
    | nil => rfl
    | cons i l ih =>
      rw [List.foldl_cons, List.foldl_cons]
      split_ifs
      · rw [Nat.xor_assoc, ih]
      · rw [ih]
  have hmask : chk &&& 0x1ffffff = chk % 2 ^ 25 := Nat.and_two_pow_sub_one_eq_mod chk 25
  rw [polymodStep, ShiftRegister.step, hmask, mixIn, mixIn, ← hmix, Nat.xor_zero]

theorem mixIn_lt (top : ℕ) : mixIn top 0 < 2 ^ (5 * (5 + 1)) := by
  have hfold : ∀ (l : List ℕ) (chk : ℕ), chk < 2 ^ 30 →
      l.foldl (fun chk i => if (top >>> i) &&& 1 ≠ 0 then chk ^^^ BECH32_GEN.getD i 0 else chk) chk < 2 ^ 30 := by
    intro l
    induction l with
    | nil => exact fun chk hchk => hchk
    | cons i l ih =>
      intro chk hchk
      rw [List.foldl_cons]
      refine ih _ ?_
      split_ifs
      · refine Nat.xor_lt_two_pow hchk ?_
        have hgen : ∀ g ∈ BECH32_GEN, g < 2 ^ 30 := by decide
        rw [List.getD_eq_getElem?_getD]
        cases hg : BECH32_GEN[i]? with
        | none => norm_num
        | some g => exact hgen g (List.mem_of_getElem? hg)
      · exact hchk
  exact hfold _ 0 (by norm_num)

theorem bech32Polymod_eq (hrp : JsString) (data : List ℕ) :
    bech32Polymod hrp data = ShiftRegister.run 5 5 (fun top => mixIn top 0) 1 (expandHrp hrp ++ data) := by
  have hstep : polymodStep = ShiftRegister.step 5 5 (fun top => mixIn top 0) :=
    funext fun chk => funext fun value => polymodStep_eq chk value
  rw [bech32Polymod, hstep, ShiftRegister.run]

/-- The six words behind the version and the data words. -/
def createChecksum (hrp : JsString) (version : ℕ) (words : List ℕ) : List ℕ :=
  fixed 32 6 (bech32Polymod hrp (version :: words ++ List.replicate 6 0) ^^^ bech32Const version)

theorem length_createChecksum (hrp : JsString) (version : ℕ) (words : List ℕ) :
    (createChecksum hrp version words).length = 6 := length_fixed 6 _

theorem createChecksum_lt (hrp : JsString) (version : ℕ) (words : List ℕ) :
    ∀ d ∈ createChecksum hrp version words, d < 32 := fixed_lt (by norm_num) 6 _

theorem expandHrp_lt (hrp : JsString) : ∀ v ∈ expandHrp hrp, v < 2 ^ (5 * (5 + 1)) := by
  intro v hv
  rw [expandHrp, List.mem_append, List.mem_append, List.mem_map, List.mem_singleton, List.mem_map] at hv
  rcases hv with (⟨u, -, rfl⟩ | rfl) | ⟨u, -, rfl⟩
  · have hu : u.toNat < 65536 := u.toNat_lt
    rw [Nat.shiftRight_eq_div_pow]
    omega
  · norm_num
  · exact Nat.and_le_right.trans_lt (by norm_num)

/-- The checksum that holds is the one created. -/
theorem polymod_eq_const_iff {hrp : JsString} {version : ℕ} {words check : List ℕ} (hversion : version < 32)
    (hwords : ∀ d ∈ words, d < 32) (hlen : check.length = 6) (hcheck : ∀ d ∈ check, d < 32) :
    bech32Polymod hrp (version :: words ++ check) = bech32Const version ↔
      check = createChecksum hrp version words := by
  have hconst : bech32Const version < 2 ^ (5 * (5 + 1)) := by
    unfold bech32Const
    split_ifs <;> norm_num
  have hstart : ShiftRegister.run 5 5 (fun top => mixIn top 0) 1 (expandHrp hrp ++ version :: words) <
      2 ^ (5 * (5 + 1)) := by
    refine ShiftRegister.run_lt mixIn_lt (by norm_num) fun v hv => ?_
    rcases List.mem_append.mp hv with hv | hv
    · exact expandHrp_lt hrp v hv
    · have hall : ∀ d ∈ version :: words, d < 32 := List.forall_mem_cons.mpr ⟨hversion, hwords⟩
      exact (hall v hv).trans (by norm_num)
  have hiff := ShiftRegister.run_append_iff mixIn_lt hstart hconst hlen hcheck
  rw [← ShiftRegister.run_append, List.append_assoc, ← bech32Polymod_eq] at hiff
  rw [hiff, ShiftRegister.checksum, ← ShiftRegister.run_append, List.append_assoc, ← bech32Polymod_eq,
    createChecksum]
  rfl

/-! ### Spellings -/

/-- The text of a human-readable part, a witness version and data words. -/
def bech32 (hrp : JsString) (version : ℕ) (words : List ℕ) : JsString :=
  hrp ++ unit '1' :: spelled BECH32_CHARSET (version :: words ++ createChecksum hrp version words)

/-- So many data words carry a program that the witness version may have. -/
structure Fits (version n : ℕ) : Prop where
  padding : 5 * n % 8 < 5
  two_le : 2 ≤ 5 * n / 8
  le_forty : 5 * n / 8 ≤ 40
  zero : version = 0 → 5 * n / 8 = 20 ∨ 5 * n / 8 = 32

/-- What a text is read as: a human-readable part, a witness version and data words. -/
structure Reads (C : CaseMap) (s hrp : JsString) (version : ℕ) (words : List ℕ) : Prop where
  one_case : s = C.toLowerCase s ∨ s = C.toUpperCase s
  spelling : C.toLowerCase s = bech32 hrp version words
  length_le : (C.toLowerCase s).length ≤ 90
  hrp_ne : hrp ≠ []
  version_le : version ≤ 16
  words_lt : ∀ d ∈ words, d < 32
  fits : Fits version words.length

theorem charset_nodup : BECH32_CHARSET.Nodup := by decide

theorem length_charset : BECH32_CHARSET.length = 32 := by decide

theorem one_notMem_spelled {places : List ℕ} (hplaces : ∀ d ∈ places, d < 32) :
    unit '1' ∉ spelled BECH32_CHARSET places := by
  have hall : ∀ d < 32, BECH32_CHARSET.getD d 0 ≠ unit '1' := by decide
  rw [spelled, List.mem_map]
  rintro ⟨d, hd, h⟩
  exact hall d (hplaces d hd) h

theorem lastIndexOf_append {u : UInt16} {a b : JsString} (hb : u ∉ b) :
    lastIndexOf u (a ++ u :: b) = some a.length := by
  have hidx : (a ++ u :: b).reverse.idxOf? u = some b.length := by
    rw [List.reverse_append, List.reverse_cons, List.append_assoc, List.singleton_append, List.idxOf?_eq_some_iff]
    refine ⟨by simp, by simp, fun j hj h => hb ?_⟩
    rw [List.getElem_append_left (by simpa using hj)] at h
    exact List.mem_reverse.mp (h ▸ List.getElem_mem _)
  rw [lastIndexOf, hidx, Option.map_some, List.length_append, List.length_cons]
  congr 1
  omega

theorem exists_of_lastIndexOf {u : UInt16} {s : JsString} {pos : ℕ} (h : lastIndexOf u s = some pos) :
    ∃ a b, s = a ++ u :: b ∧ u ∉ b ∧ a.length = pos := by
  by_cases hu : u ∈ s
  · obtain ⟨a, b, hs, ha⟩ := List.eq_append_cons_of_mem (List.mem_reverse.mpr hu)
    have hs' : s = b.reverse ++ u :: a.reverse := by
      rw [← List.reverse_reverse s, hs, List.reverse_append, List.reverse_cons, List.append_assoc,
        List.singleton_append]
    have hua : u ∉ a.reverse := fun hmem => ha (List.mem_reverse.mp hmem)
    rw [hs', lastIndexOf_append hua] at h
    exact ⟨b.reverse, a.reverse, hs', hua, Option.some.inj h⟩
  · have hnone : s.reverse.idxOf? u = none := by
      rw [List.idxOf?_eq_none_iff]
      exact fun hmem => hu (List.mem_reverse.mp hmem)
    rw [lastIndexOf, hnone] at h
    simp at h

/-! ### The decoder -/

theorem witnessHolds_iff {hrp : JsString} {version : ℕ} {words check : List ℕ} (hlen : check.length = 6) :
    witnessHolds hrp (version :: words ++ check) = true ↔
      version ≤ 16 ∧ bech32Polymod hrp (version :: words ++ check) = bech32Const version ∧
        Fits version words.length := by
  have hbits : ((version :: words ++ check).length - 7) * 5 = 5 * words.length := by
    rw [List.length_append, List.length_cons, hlen]
    omega
  have hhead : (version :: words ++ check).headD 0 = version := rfl
  rw [witnessHolds, hbits, hhead]
  simp only [Bool.and_eq_true, decide_eq_true_eq, Bool.not_eq_true', Bool.or_eq_false_iff, Bool.and_eq_false_iff,
    decide_eq_false_iff_not, not_le, not_lt, ne_eq, not_not]
  constructor
  · rintro ⟨⟨⟨hversion, hpolymod⟩, ⟨hpadding, htwo⟩, hforty⟩, hzero⟩
    exact ⟨hversion, hpolymod, hpadding, htwo, hforty, fun h => by tauto⟩
  · rintro ⟨hversion, hpolymod, hfits⟩
    refine ⟨⟨⟨hversion, hpolymod⟩, ⟨hfits.padding, hfits.two_le⟩, hfits.le_forty⟩, ?_⟩
    have := hfits.zero
    tauto

variable {C : CaseMap} {s hrp : JsString}

theorem bech32Decode_of_reads {version : ℕ} {words : List ℕ} (h : Reads C s hrp version words) :
    bech32Decode C s = some hrp := by
  have hplaces : ∀ d ∈ version :: words ++ createChecksum hrp version words, d < 32 := by
    rw [List.cons_append, List.forall_mem_cons]
    refine ⟨h.version_le.trans_lt (by norm_num), fun d hd => ?_⟩
    exact (List.mem_append.mp hd).elim (h.words_lt d) (createChecksum_lt hrp version words d)
  have hlast := lastIndexOf_append (a := hrp) (one_notMem_spelled hplaces)
  have hindices := (indices_eq_some_iff charset_nodup).mpr ⟨by rwa [length_charset], rfl⟩
  have hholds : witnessHolds hrp (version :: words ++ createChecksum hrp version words) = true :=
    (witnessHolds_iff (length_createChecksum hrp version words)).mpr ⟨h.version_le,
      (polymod_eq_const_iff (h.version_le.trans_lt (by norm_num)) h.words_lt (length_createChecksum _ _ _)
        (createChecksum_lt _ _ _)).mpr rfl, h.fits⟩
  have hlen : (bech32 hrp version words).length = hrp.length + words.length + 8 := by
    rw [bech32, List.length_append, List.length_cons, length_spelled, List.length_append, List.length_cons,
      length_createChecksum]
    omega
  have hhrp : 1 ≤ hrp.length := List.length_pos_iff.mpr h.hrp_ne
  have hlow : ¬ ((bech32 hrp version words).length < 8 ∨ 90 < (bech32 hrp version words).length) := by
    have := h.length_le
    rw [h.spelling] at this
    omega
  have hpos : ¬ (hrp.length < 1 ∨ (bech32 hrp version words).length < hrp.length + 7) := by omega
  rw [bech32Decode, if_neg (by have := h.one_case; tauto)]
  simp only [h.spelling, if_neg hlow]
  rw [← bech32] at hlast
  simp only [hlast, if_neg hpos]
  have hdrop : (bech32 hrp version words).drop (hrp.length + 1) =
      spelled BECH32_CHARSET (version :: words ++ createChecksum hrp version words) := by
    rw [bech32, List.append_cons, List.drop_left' (by simp)]
  have htake : (bech32 hrp version words).take hrp.length = hrp := List.take_left
  simp only [hdrop, hindices, htake, hholds, if_true]

theorem reads_of_bech32Decode (h : bech32Decode C s = some hrp) : ∃ version words, Reads C s hrp version words := by
  unfold bech32Decode at h
  split_ifs at h with hcase
  dsimp only at h
  split_ifs at h with hlen
  cases hlast : lastIndexOf (unit '1') (C.toLowerCase s) with
  | none => simp [hlast] at h
  | some pos =>
    obtain ⟨a, b, hs, hb, rfl⟩ := exists_of_lastIndexOf hlast
    have hdrop : (C.toLowerCase s).drop (a.length + 1) = b := by rw [hs]; simp
    have htake : (C.toLowerCase s).take a.length = a := by rw [hs, List.take_left]
    simp only [hlast, hdrop, htake] at h
    split_ifs at h with hpos
    cases hindices : indices BECH32_CHARSET b with
    | none => simp [hindices] at h
    | some data =>
      simp only [hindices] at h
      split_ifs at h with hholds
      obtain ⟨hplaces, hspelled⟩ := (indices_eq_some_iff charset_nodup).mp hindices
      rw [length_charset] at hplaces
      rw [← Option.some.inj h]
      have hlong : 11 ≤ data.length := by
        simp only [witnessHolds, Bool.and_eq_true, Bool.not_eq_true', Bool.or_eq_false_iff,
          decide_eq_false_iff_not] at hholds
        omega
      obtain ⟨version, words, check, rfl, hcheck⟩ :
          ∃ version words check, data = version :: words ++ check ∧ check.length = 6 := by
        cases data with
        | nil => simp at hlong
        | cons version rest =>
          rw [List.length_cons] at hlong
          refine ⟨version, rest.take (rest.length - 6), rest.drop (rest.length - 6), ?_, ?_⟩
          · rw [List.cons_append, List.take_append_drop]
          · rw [List.length_drop]
            omega
      obtain ⟨hversion, hpolymod, hfits⟩ := (witnessHolds_iff hcheck).mp hholds
      have hwords : ∀ d ∈ words, d < 32 := fun d hd => hplaces d (by simp [hd])
      have hcreated := (polymod_eq_const_iff (by omega) hwords hcheck fun d hd => hplaces d (by simp [hd])).mp hpolymod
      refine ⟨version, words, ?_, ?_, by omega, ?_, hversion, hwords, hfits⟩
      · tauto
      · rw [hs, hspelled, bech32, hcreated]
      · exact fun hnil => hpos (.inl (by rw [hnil]; decide))

end AddressShape
