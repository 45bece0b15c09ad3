import XChainExplorer.Consensus.SparseMerkle

/-! # Compressed proofs

    The decoder walks the depths with a cursor into the siblings: a set bit takes the next one, a clear
    bit stands for the empty subtree of its depth. A cursor that does not end where the siblings do is
    an error, past their end as well as before it. -/

namespace Merkle

/-- `out` and `ri` after a depth. Past the siblings' end the source reads `undefined`, and throws below. -/
def decompressStep (bitmap : Bytes) (real : List String) (acc : List String × ℕ) (d : ℕ) : List String × ℕ :=
  if bitAt bitmap d = 1 then (acc.1 ++ [real.getD acc.2 ""], acc.2 + 1)
  else (acc.1 ++ [toHex (EMPTY (SMT_DEPTH - 1 - d))], acc.2)

def decompressSmtProof (compressed : CompressedProof) : Except String (List String) :=
  let acc := (List.range SMT_DEPTH).foldl
    (decompressStep (toBuf compressed.bitmap) compressed.siblings) ([], 0)
  if acc.2 ≠ compressed.siblings.length then .error "merkle: surplus siblings in compressed proof"
  else .ok acc.1

def verifyCompressedSmtProof (rootHex : String) (key : Bytes) (leafValueOrNull : Option String)
    (compressed : CompressedProof) : Except String Bool :=
  (decompressSmtProof compressed).map (verifySmtProof rootHex key leafValueOrNull)

/-! ### The bits of a bitmap -/

def bitCount (byte : UInt8) : ℕ := (List.range 8).countP fun i => byte.toNat.testBit i

def popCount (bitmap : Bytes) : ℕ := (bitmap.map bitCount).sum

theorem popCount_append (a b : Bytes) : popCount (a ++ b) = popCount a + popCount b := by
  simp [popCount]

theorem bitAt_byte (bitmap : Bytes) (n i : ℕ) (hi : i < 8) :
    bitAt bitmap (8 * n + i) = ((bitmap.getD n 0).toNat.testBit (7 - i)).toNat := by
  have hbyte : (8 * n + i) / 8 = n := by omega
  have hplace : (8 * n + i) % 8 = i := by omega
  rw [bitAt_eq, hbyte, hplace]

theorem countP_byte (bitmap : Bytes) (n : ℕ) :
    (List.range 8).countP (fun i => bitAt bitmap (8 * n + i) = 1) = bitCount (bitmap.getD n 0) := by
  have hbits : (List.range 8).countP (fun i => decide (bitAt bitmap (8 * n + i) = 1)) =
      (List.range 8).countP fun i => (bitmap.getD n 0).toNat.testBit (7 - i) := by
    refine List.countP_congr fun i hi => ?_
    rw [bitAt_byte _ _ _ (List.mem_range.mp hi)]
    simp
  rw [hbits, bitCount]
  generalize (bitmap.getD n 0).toNat = b
  simp only [List.range_succ, List.range_zero, List.nil_append, List.cons_append, List.countP_cons,
    List.countP_nil, Nat.reduceSub]
  omega

theorem bitCount_zero : bitCount 0 = 0 := by decide

/-- The bits that are read are those of the first bytes. -/
theorem countP_range (bitmap : Bytes) (n : ℕ) :
    (List.range (8 * n)).countP (fun d => bitAt bitmap d = 1) = popCount (bitmap.take n) := by
  induction n with
  | zero => rfl
  | succ n ih =>
    rw [Nat.mul_succ, List.range_add, List.countP_append, ih, List.countP_map]
    have hbyte := countP_byte bitmap n
    by_cases hn : n < bitmap.length
    · rw [List.take_succ_eq_append_getElem hn, popCount_append]
      rw [List.getD_eq_getElem _ _ hn] at hbyte
      simpa [popCount, Function.comp_def] using hbyte
    · rw [List.take_of_length_le (by omega), List.take_of_length_le (by omega)]
      rw [List.getD_eq_default _ _ (by omega), bitCount_zero] at hbyte
      simpa [Function.comp_def] using hbyte

/-! ### The decoder -/

theorem cursor_run (bitmap : Bytes) (real : List String) (n : ℕ) :
    ((List.range n).foldl (decompressStep bitmap real) ([], 0)).2 =
      (List.range n).countP fun d => bitAt bitmap d = 1 := by
  induction n with
  | zero => rfl
  | succ n ih =>
    rw [List.range_succ, List.foldl_append, List.foldl_cons, List.foldl_nil, List.countP_append,
      decompressStep]
    split_ifs with hbit <;> simp [ih, hbit]

/-- The decoder fails just where the count of the siblings is not that of the bits it reads. -/
theorem decompressSmtProof_ok {compressed : CompressedProof} {out : List String}
    (h : decompressSmtProof compressed = .ok out) :
    compressed.siblings.length = popCount ((toBuf compressed.bitmap).take 32) := by
  rw [decompressSmtProof] at h
  split_ifs at h with hcount
  rw [cursor_run, show SMT_DEPTH = 8 * 32 from rfl, countP_range] at hcount
  exact (not_not.mp hcount).symm

theorem decompressSmtProof_error {compressed : CompressedProof}
    (h : compressed.siblings.length ≠ popCount ((toBuf compressed.bitmap).take 32)) :
    decompressSmtProof compressed = .error "merkle: surplus siblings in compressed proof" := by
  rw [decompressSmtProof, if_pos]
  rw [cursor_run, show SMT_DEPTH = 8 * 32 from rfl, countP_range]
  exact h.symm

/-! ### The encoder -/

theorem toNat_bit (i : ℕ) (hi : i < 8) : ((1 : UInt8) <<< UInt8.ofNat i).toNat = 2 ^ i := by
  interval_cases i <;> rfl

/-- Setting the bit of a depth sets that bit alone. -/
theorem bitAt_set {bitmap : Bytes} {d : ℕ} (hd : d < 8 * bitmap.length) (i : ℕ) :
    bitAt (bitmap.modify (d >>> 3) fun byte => byte ||| 1 <<< UInt8.ofNat (7 - (d &&& 7))) i = 1 ↔
      i = d ∨ bitAt bitmap i = 1 := by
  have hand : d &&& 7 = d % 8 := Nat.and_two_pow_sub_one_eq_mod d 3
  have hshift : d >>> 3 = d / 8 := Nat.shiftRight_eq_div_pow d 3
  rw [hand, hshift, bitAt_eq, bitAt_eq, Bool.toNat_eq_one, Bool.toNat_eq_one, List.getD_eq_getElem?_getD,
    List.getD_eq_getElem?_getD, List.getElem?_modify]
  by_cases hbyte : d / 8 = i / 8
  · have hlt : i / 8 < bitmap.length := by omega
    simp only [if_pos hbyte, List.getElem?_eq_getElem hlt, Option.map_eq_map, Option.map_some,
      Option.getD_some, UInt8.toNat_or, Nat.testBit_or]
    rw [toNat_bit _ (by omega), Nat.testBit_two_pow, Bool.or_eq_true, decide_eq_true_iff]
    have hplace : 7 - d % 8 = 7 - i % 8 ↔ i = d := by omega
    rw [hplace, or_comm]
  · have hne : i ≠ d := by
      rintro rfl
      exact hbyte rfl
    simp [hbyte, hne]

theorem compressLoop_concat (siblings : List Bytes) (sib : Bytes) :
    compressLoop (siblings ++ [sib]) = compressStep (compressLoop siblings) siblings.length sib := by
  simp [compressLoop, List.zipIdx_append]

theorem length_compressLoop (siblings : List Bytes) : (compressLoop siblings).1.length = 32 := by
  induction siblings using List.reverseRecOn with
  | nil => rfl
  | append_singleton siblings sib ih =>
    rw [compressLoop_concat, compressStep]
    split_ifs
    · rw [List.length_modify, ih]
    · exact ih

/-- The bits that are set are the depths of the siblings that are not empty subtrees. -/
theorem bitAt_compressLoop {siblings : List Bytes} (hlen : siblings.length ≤ SMT_DEPTH) (i : ℕ) :
    bitAt (compressLoop siblings).1 i = 1 ↔
      ∃ sib, siblings[i]? = some sib ∧ sib ≠ EMPTY (SMT_DEPTH - 1 - i) := by
  induction siblings using List.reverseRecOn with
  | nil =>
    have hzero : (List.replicate 32 (0 : UInt8)).getD (i / 8) 0 = 0 := by
      rw [List.getD_eq_getElem?_getD, List.getElem?_replicate]
      split_ifs <;> rfl
    have hbit : bitAt (compressLoop []).1 i = 0 := by
      rw [bitAt_eq, show (compressLoop []).1 = List.replicate 32 0 from rfl, hzero]
      simp
    simp [hbit]
  | append_singleton siblings sib ih =>
    rw [List.length_append, List.length_singleton] at hlen
    have hlt : siblings.length < 8 * (compressLoop siblings).1.length := by
      rw [length_compressLoop]
      exact hlen
    have hget (h : i ≠ siblings.length) : (siblings ++ [sib])[i]? = siblings[i]? := by
      rcases lt_or_gt_of_ne h with h | h
      · exact List.getElem?_append_left h
      · rw [List.getElem?_eq_none (by rw [List.length_append]; exact h), List.getElem?_eq_none h.le]
    rw [compressLoop_concat, compressStep]
    split_ifs with hsib
    · rw [bitAt_set hlt, ih (by omega)]
      by_cases hi : i = siblings.length
      · subst hi
        simp [hsib]
      · rw [hget hi]
        simp [hi]
    · rw [ih (by omega)]
      by_cases hi : i = siblings.length
      · subst hi
        simp [not_not.mp hsib]
      · rw [hget hi]

/-- Over a bitmap with the encoder's bits, and siblings that start with the encoder's, the decoder gives
    back what was encoded. -/
theorem decompress_run {siblings : List Bytes} (hlen : siblings.length ≤ SMT_DEPTH) {bitmap : Bytes}
    {real : List String} (hreal : (compressLoop siblings).2 <+: real)
    (hbits : ∀ i < siblings.length,
      (bitAt bitmap i = 1 ↔ ∃ sib, siblings[i]? = some sib ∧ sib ≠ EMPTY (SMT_DEPTH - 1 - i))) :
    (List.range siblings.length).foldl (decompressStep bitmap real) ([], 0) =
      (siblings.map toHex, (compressLoop siblings).2.length) := by
  induction siblings using List.reverseRecOn with
  | nil => rfl
  | append_singleton siblings sib ih =>
    have hlast := hbits siblings.length (by simp)
    have hbefore : ∀ i < siblings.length,
        (bitAt bitmap i = 1 ↔ ∃ sib, siblings[i]? = some sib ∧ sib ≠ EMPTY (SMT_DEPTH - 1 - i)) := by
      intro i hi
      rw [hbits i (by rw [List.length_append]; omega), List.getElem?_append_left hi]
    rw [List.length_append, List.length_singleton] at hlen
    rw [compressLoop_concat, compressStep] at hreal ⊢
    rw [List.length_append, List.length_singleton, List.range_succ, List.foldl_append, List.foldl_cons,
      List.foldl_nil]
    by_cases hsib : sib = EMPTY (SMT_DEPTH - 1 - siblings.length)
    · rw [if_neg (not_not.mpr hsib)] at hreal ⊢
      have hbit : ¬ bitAt bitmap siblings.length = 1 := by
        rw [hlast]
        simp [hsib]
      rw [ih (by omega) hreal hbefore, decompressStep, if_neg hbit, List.map_append, List.map_singleton,
        hsib]
    · rw [if_pos hsib] at hreal ⊢
      have hbit : bitAt bitmap siblings.length = 1 := hlast.mpr ⟨sib, by simp, hsib⟩
      have hprefix := (List.prefix_append _ _).trans hreal
      obtain ⟨rest, rfl⟩ := hreal
      rw [ih (by omega) hprefix hbefore, decompressStep, if_pos hbit]
      simp

/-- Whatever follows the bitmap's 32 bytes is not read. -/
theorem decompress_append {siblings : List Bytes} (hlen : siblings.length = SMT_DEPTH) (stray : Bytes) :
    decompressSmtProof ⟨toHex ((compressLoop siblings).1 ++ stray), (compressLoop siblings).2⟩ =
      .ok (siblings.map toHex) := by
  have hbits : ∀ i < siblings.length, (bitAt ((compressLoop siblings).1 ++ stray) i = 1 ↔
      ∃ sib, siblings[i]? = some sib ∧ sib ≠ EMPTY (SMT_DEPTH - 1 - i)) := by
    intro i hi
    have hlt : i / 8 < (compressLoop siblings).1.length := by
      rw [length_compressLoop]
      rw [hlen, SMT_DEPTH] at hi
      omega
    rw [← bitAt_compressLoop hlen.le, bitAt_eq, bitAt_eq, List.getD_append _ _ _ _ hlt]
  rw [decompressSmtProof]
  dsimp only
  rw [toBuf_toHex, ← hlen, decompress_run hlen.le (List.prefix_refl _) hbits]
  exact if_neg (not_not.mpr rfl)

theorem decompress_compress {siblings : List Bytes} (hlen : siblings.length = SMT_DEPTH) :
    decompressSmtProof (compressSmtProof (siblings.map toHex)) = .ok (siblings.map toHex) := by
  have hbuf : (siblings.map toHex).map toBuf = siblings := by simp [Function.comp_def]
  have h := decompress_append hlen []
  rw [List.append_nil] at h
  rw [compressSmtProof, hbuf, h]

/-! ### The proofs on the wire -/

/-- The compressed form loses nothing, its verification is that of what it stands for, and one whose
    count of siblings is not that of the 256 bits of its bitmap is accepted for no root. -/
theorem compressedProof_sound :
    (∀ siblings : List Bytes, siblings.length = SMT_DEPTH →
      decompressSmtProof (compressSmtProof (siblings.map toHex)) = .ok (siblings.map toHex)) ∧
    (∀ (compressed : CompressedProof) (siblings : List String),
      decompressSmtProof compressed = .ok siblings → ∀ (rootHex : String) (key : Bytes) (leaf : Option String),
        verifyCompressedSmtProof rootHex key leaf compressed = .ok (verifySmtProof rootHex key leaf siblings)) ∧
    (∀ compressed : CompressedProof,
      compressed.siblings.length ≠ popCount ((toBuf compressed.bitmap).take 32) →
      ∀ (rootHex : String) (key : Bytes) (leaf : Option String),
        verifyCompressedSmtProof rootHex key leaf compressed =
          .error "merkle: surplus siblings in compressed proof") := by
  refine ⟨fun siblings hlen => decompress_compress hlen, ?_, ?_⟩
  · intro compressed siblings h rootHex key leaf
    rw [verifyCompressedSmtProof, h]
    rfl
  · intro compressed h rootHex key leaf
    rw [verifyCompressedSmtProof, decompressSmtProof_error h]
    rfl

theorem compressedProof_sound_two :
    decompressSmtProof (compressSmtProof ((twoLeaves.siblings zeros).map toHex)) =
        .ok ((twoLeaves.siblings zeros).map toHex) ∧
      verifyCompressedSmtProof twoLeaves.rootHex zeros (some (toHex (filled 1)))
          (compressSmtProof ((twoLeaves.siblings zeros).map toHex)) =
        .ok (verifySmtProof twoLeaves.rootHex zeros (some (toHex (filled 1)))
          ((twoLeaves.siblings zeros).map toHex)) ∧
      verifyCompressedSmtProof twoLeaves.rootHex zeros (some (toHex (filled 1))) ⟨"ff", ["00"]⟩ =
        .error "merkle: surplus siblings in compressed proof" := by
  obtain ⟨hround, hverify, hcount⟩ := compressedProof_sound
  have hdecoded := hround _ (twoLeaves.length_siblings zeros)
  refine ⟨hdecoded, hverify _ _ hdecoded _ _ _, hcount ⟨"ff", ["00"]⟩ ?_ _ _ _⟩
  decide +kernel

/-- Bits after the 256 of the depths are not read. -/
theorem strayBits_accepted :
    ∃ (rootHex : String) (key : Bytes) (leaf : Option String) (compressed : CompressedProof),
      compressed.siblings.length ≠ popCount (toBuf compressed.bitmap) ∧
      verifyCompressedSmtProof rootHex key leaf compressed = .ok true := by
  let M := oneLeaf zeros zeros
  have hdecoded := decompress_append (M.length_siblings zeros) [0xff]
  refine ⟨M.rootHex, zeros, (M.prove zeros).leaf_value,
    ⟨toHex ((compressLoop (M.siblings zeros)).1 ++ [0xff]), (compressLoop (M.siblings zeros)).2⟩, ?_, ?_⟩
  · have hcount := decompressSmtProof_ok hdecoded
    have hlen : (compressLoop (M.siblings zeros)).1.length = 32 := length_compressLoop _
    have hstray : popCount [0xff] = 8 := by decide
    rw [toBuf_toHex, List.take_append_of_le_length hlen.ge, List.take_of_length_le hlen.le] at hcount
    rw [toBuf_toHex, popCount_append, hstray, hcount]
    omega
  · rw [verifyCompressedSmtProof, hdecoded]
    exact congrArg Except.ok (verify_prove M zeros)

end Merkle
