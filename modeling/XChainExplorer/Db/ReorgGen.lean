import XChainExplorer.Db.ActionCache

/-! # What a reorg generation promises

    An entry that can be hit was read in the present generation, as long as no bump falls between a
    call's first read and its store. A block that left the chain is noticed by the next request
    probe, as long as request probes do not overlap. Each condition fails on a short run. -/

namespace DbCache
open Tables TipProbe

variable {β H K T P V : Type*} [DecidableEq H] [DecidableEq K] {B : Blocks β H}
  {R : Readers β T P V} {coin : K} {maxSize : ℕ} {d d' : Db β H K T P V} {l : Label β K V}

theorem gen_le_of_watch {L : Ledger β H} {c : Chain β} {w w' : Watch β H} {gen gen' : ℕ}
    {l : WatchLabel} (hs : w.step L c gen l = some (w', gen')) : gen ≤ gen' := by
  cases watchTrans_of_step hs with
  | complete h hg => split_ifs at hg <;> omega
  | _ => exact le_rfl

/-! ### The action cache -/

/-- No bump since the first of the reads behind what a call stores. -/
def StoresInGeneration (d : Db β H K T P V) : Label β K V → Prop
  | .callRun j => ∀ t ∈ d.calls j, t.toTask.value.any isCacheableAction = true →
      ∀ g ∈ t.reads.head?, g = d.reorgGen
  | _ => True

instance (d : Db β H K T P V) : ∀ l, Decidable (StoresInGeneration d l)
  | .callRun j => inferInstanceAs (Decidable (∀ t ∈ d.calls j,
      t.toTask.value.any isCacheableAction = true → ∀ g ∈ t.reads.head?, g = d.reorgGen))
  | .chain _ | .resultCacheGeneration _ _ | .request _ | .poll _ | .otherCoin _ _ | .page _ _
  | .pageDb _ | .pageFail _ | .call _ _ _ | .callDb _ | .callFail _ => isTrue trivial

/-- Reads made in order, none before the task began. -/
structure Timely (gen since : ℕ) (reads : List ℕ) : Prop where
  began : since ≤ gen
  within : ∀ g ∈ reads, since ≤ g ∧ g ≤ gen
  ordered : reads.Pairwise (· ≤ ·)

variable (coin) in
/-- Every task's reads are in order, and a kept response was read in the generation of its key. -/
structure Kept.Fresh (d : Db β H K T P V) : Prop where
  pages : ∀ i t, d.pages i = some t → Timely d.reorgGen t.since t.reads
  calls : ∀ j t, d.calls j = some t → Timely d.reorgGen t.since t.reads
  cache : ∀ key kept, (key, kept) ∈ d.actionDataCache → key.coin = coin →
    ∀ g ∈ kept.reads, key.gen ≤ g ∧ g ≤ d.reorgGen
  answers : ∀ a ∈ d.answers, ∀ g ∈ a.reads, a.since ≤ g

theorem Timely.mono {gen gen' since : ℕ} {reads : List ℕ} (h : Timely gen since reads)
    (hg : gen ≤ gen') : Timely gen' since reads :=
  ⟨h.began.trans hg, fun g hm => ⟨(h.within g hm).1, (h.within g hm).2.trans hg⟩, h.ordered⟩

theorem Timely.db {α : Type*} {gen : ℕ} {c : Chain β} {t t' : Task β α}
    (h : Timely gen t.since t.reads) (ht : t.db c gen = some t') :
    Timely gen t'.since t'.reads := by
  unfold Task.db at ht
  split at ht
  · obtain rfl := Option.some.inj ht
    refine ⟨h.began, fun g hg => ?_, ?_⟩
    · rcases List.mem_append.mp hg with hg | hg
      · exact h.within g hg
      · obtain rfl := List.mem_singleton.mp hg
        exact ⟨h.began, le_rfl⟩
    · refine List.pairwise_append.mpr ⟨h.ordered, List.pairwise_singleton _ _, fun a ha b hb => ?_⟩
      exact List.mem_singleton.mp hb ▸ (h.within a ha).2
  · simp at ht

/-- Reads whose first was made in the present generation were all made in it. -/
theorem Timely.all_eq {gen since : ℕ} {reads : List ℕ} (h : Timely gen since reads)
    (hf : ∀ g, reads.head? = some g → g = gen) : ∀ g ∈ reads, g = gen := by
  intro g hg
  cases reads with
  | nil => simp at hg
  | cons r rs =>
    have hr := hf r rfl
    have hle := (h.within g hg).2
    rcases List.mem_cons.mp hg with rfl | hg
    · exact hr
    · have := (List.pairwise_cons.mp h.ordered).1 g hg
      omega

omit [DecidableEq H] [DecidableEq K] in
theorem Kept.Fresh.init (c : Chain β) : Kept.Fresh coin (Db.init c : Db β H K T P V) :=
  ⟨by simp [Db.init], by simp [Db.init], by simp [Db.init], by simp [Db.init]⟩

omit [DecidableEq H] [DecidableEq K] in
/-- A bump makes no entry newer than it was. -/
theorem Kept.Fresh.bump (h : Kept.Fresh coin d) {gen : ℕ} (hg : d.reorgGen ≤ gen)
    {request : Watch β (Option H × Option H)} {poll : Watch β H} {tipMemo : Option (TipMemo H)} :
    Kept.Fresh coin { d with reorgGen := gen, request, poll, tipMemo } :=
  ⟨fun i t ht => (h.pages i t ht).mono hg, fun j t ht => (h.calls j t ht).mono hg,
    fun key kept hm hc g hr => ⟨(h.cache key kept hm hc g hr).1, (h.cache key kept hm hc g hr).2.trans hg⟩,
    h.answers⟩

omit [DecidableEq H] [DecidableEq K] in
theorem Kept.Fresh.setCalls (h : Kept.Fresh coin d) {j : ℕ} {t : Option (Call β V)}
    (ht : ∀ c, t = some c → Timely d.reorgGen c.since c.reads) :
    Kept.Fresh coin { d with calls := Function.update d.calls j t } := by
  refine ⟨h.pages, fun i c hc => ?_, h.cache, h.answers⟩
  simp only [Function.update_apply] at hc
  split_ifs at hc
  · exact ht c hc
  · exact h.calls i c hc

omit [DecidableEq H] [DecidableEq K] in
theorem Kept.Fresh.setPages (h : Kept.Fresh coin d) {i : ℕ} {t : Option (Task β (Preload T P))}
    (ht : ∀ p, t = some p → Timely d.reorgGen p.since p.reads) :
    Kept.Fresh coin { d with pages := Function.update d.pages i t } := by
  refine ⟨fun j p hp => ?_, h.calls, h.cache, h.answers⟩
  simp only [Function.update_apply] at hp
  split_ifs at hp
  · exact ht p hp
  · exact h.pages j p hp

omit [DecidableEq H] [DecidableEq K] in
theorem Kept.Fresh.setCache (h : Kept.Fresh coin d) (cache : List (Key K × Kept V))
    (hc : ∀ key kept, (key, kept) ∈ cache → key.coin = coin →
      ∀ g ∈ kept.reads, key.gen ≤ g ∧ g ≤ d.reorgGen) :
    Kept.Fresh coin { d with actionDataCache := cache } :=
  ⟨h.pages, h.calls, hc, h.answers⟩

omit [DecidableEq H] [DecidableEq K] in
theorem Kept.Fresh.answer (h : Kept.Fresh coin d) {a : Answer V}
    (ha : ∀ g ∈ a.reads, a.since ≤ g) :
    Kept.Fresh coin { d with answers := d.answers ++ [a] } := by
  refine ⟨h.pages, h.calls, h.cache, fun b hb => ?_⟩
  rcases List.mem_append.mp hb with hb | hb
  · exact h.answers b hb
  · exact List.mem_singleton.mp hb ▸ ha

omit [DecidableEq H] in
/-- Looking a page's indexes up brings no entry in. -/
theorem mem_of_mem_coldIndexes {key : ℤ → Key K} {e : Key K × Kept V} {is : List ℤ} :
    ∀ {cache : List (Key K × Kept V)}, e ∈ (coldIndexes cache key is).2 → e ∈ cache := by
  induction is with
  | nil => exact id
  | cons i is ih => exact fun h => Lru.mem_of_mem_get (ih h)

omit [DecidableEq H] in
theorem Kept.Fresh.startPage (h : Kept.Fresh coin d) (i : ℕ) (indexes : List ℤ) :
    Kept.Fresh coin (d.startPage R coin i indexes) := by
  have hc := h.setCache (coldIndexes d.actionDataCache (d.cacheKey coin) indexes.dedup).2
    fun key kept hm => h.cache key kept (mem_of_mem_coldIndexes hm)
  refine hc.setPages fun p hp => ?_
  split_ifs at hp
  obtain rfl := Option.some.inj hp
  exact ⟨le_rfl, by simp, List.Pairwise.nil⟩

omit [DecidableEq H] in
theorem Kept.Fresh.startCall (h : Kept.Fresh coin d) (j : ℕ) (action_index : ℤ)
    {page : Option (ℕ × List ℕ × Preload T P)}
    (hp : ∀ p, page = some p → Timely d.reorgGen p.1 p.2.1) :
    Kept.Fresh coin (d.startCall R coin j action_index page) := by
  have hc := h.setCache (Lru.get d.actionDataCache (d.cacheKey coin action_index)).2
    fun key kept hm => h.cache key kept (Lru.mem_of_mem_get hm)
  unfold Db.startCall
  split
  case h_1 kept cache hg =>
    rw [hg] at hc
    refine hc.answer fun g hr => ?_
    -- a hit's key is of the present generation
    exact (h.cache _ kept (Lru.mem_of_get (congrArg Prod.fst hg)) rfl g hr).1
  case h_2 cache hg =>
    rw [hg] at hc
    refine hc.setCalls fun c heq => ?_
    obtain rfl := Option.some.inj heq
    simp only
    split
    case h_1 pre since reads pre' hu => exact hp (since, reads, pre') rfl
    case h_2 => exact ⟨le_rfl, by simp, List.Pairwise.nil⟩

omit [DecidableEq H] in
theorem Kept.Fresh.endCall (h : Kept.Fresh coin d) {j : ℕ} {t : Call β V} {data : ActionData V}
    (ht : d.calls j = some t) (hs : isCacheableAction data = true →
      ∀ g, t.reads.head? = some g → g = d.reorgGen) :
    Kept.Fresh coin (d.endCall coin maxSize j t data) := by
  have htime := h.calls j t ht
  have hcache := h.setCache (if isCacheableAction data then
      Lru.set d.actionDataCache (d.cacheKey coin t.action_index) ⟨data, t.reads⟩ maxSize
    else d.actionDataCache) ?_
  · exact (hcache.setCalls (j := j) (t := none) (by simp)).answer
      (a := ⟨t.action_index, data, t.since, t.reads⟩) fun g hg => (htime.within g hg).1
  intro key kept hm hcoin g hg
  split_ifs at hm with hcache
  · rcases Lru.mem_of_mem_set hm with heq | hm
    · obtain ⟨rfl, rfl⟩ := Prod.mk.inj heq
      have := htime.all_eq (hs hcache) g hg
      simp [Db.cacheKey, this]
    · exact h.cache key kept hm hcoin g hg
  · exact h.cache key kept hm hcoin g hg

/-- One step in which no bump falls between a call's first read and its store. -/
theorem Kept.Fresh.step (h : Kept.Fresh coin d) (hl : StoresInGeneration d l)
    (hs : d.step B R coin maxSize l = some d') : Kept.Fresh coin d' := by
  cases l with
  | chain c =>
    obtain rfl := Option.some.inj hs
    exact ⟨h.pages, h.calls, h.cache, h.answers⟩
  | resultCacheGeneration i fresh =>
    simp only [Db.step] at hs
    split_ifs at hs
    · exact Option.some.inj hs ▸ h
    · obtain ⟨⟨w, gen⟩, hw, rfl⟩ := Option.map_eq_some_iff.mp hs
      exact h.bump (gen_le_of_watch hw)
  | request l =>
    cases l with
    | start i => simp [Db.step] at hs
    | db i | run i | fail i =>
      obtain ⟨⟨w, gen⟩, hw, rfl⟩ := Option.map_eq_some_iff.mp hs
      exact h.bump (gen_le_of_watch hw)
  | poll l =>
    obtain ⟨⟨w, gen⟩, hw, rfl⟩ := Option.map_eq_some_iff.mp hs
    exact h.bump (gen_le_of_watch hw)
  | otherCoin key kept =>
    simp only [Db.step] at hs
    split_ifs at hs with hk
    obtain rfl := Option.some.inj hs
    refine h.setCache _ fun key' kept' hm hc => ?_
    rcases Lru.mem_of_mem_set hm with heq | hm
    · exact absurd ((Prod.mk.inj heq).1 ▸ hc) hk
    · exact h.cache key' kept' hm hc
  | page i indexes => exact Option.some.inj hs ▸ h.startPage i indexes
  | pageDb i =>
    obtain ⟨t, ht, hs⟩ := Option.bind_eq_some_iff.mp hs
    obtain ⟨t', ht', rfl⟩ := Option.map_eq_some_iff.mp hs
    refine h.setPages fun p hp => ?_
    exact Option.some.inj hp ▸ (h.pages i t ht).db ht'
  | pageFail i =>
    obtain rfl := Option.some.inj hs
    exact h.setPages (by simp)
  | call j action_index page =>
    simp only [Db.step] at hs
    split at hs
    · simp at hs
    · split at hs
      · exact Option.some.inj hs ▸ h.startCall j action_index (by simp)
      · exact Option.some.inj hs ▸ h.startCall j action_index (by simp)
      case h_3 t ht =>
        obtain ⟨pre, -, rfl⟩ := Option.map_eq_some_iff.mp hs
        obtain ⟨i, -, hi⟩ := Option.map_eq_some_iff.mp ht
        refine h.startCall j action_index fun p hp => ?_
        exact Option.some.inj hp ▸ h.pages i t hi
  | callDb j =>
    obtain ⟨t, ht, hs⟩ := Option.bind_eq_some_iff.mp hs
    obtain ⟨t', ht', rfl⟩ := Option.map_eq_some_iff.mp hs
    refine h.setCalls fun c hc => ?_
    obtain rfl := Option.some.inj hc
    exact (h.calls j t ht).db ht'
  | callRun j =>
    obtain ⟨t, ht, hs⟩ := Option.bind_eq_some_iff.mp hs
    obtain ⟨data, hd, rfl⟩ := Option.map_eq_some_iff.mp hs
    exact h.endCall ht fun hcache => hl t ht (by simpa [hd] using hcache)
  | callFail j =>
    obtain ⟨t, ht, rfl⟩ := Option.map_eq_some_iff.mp hs
    exact h.setCalls (by simp)

/-- Reorg safety of the action cache. While no bump falls between a call's first read and its
    store, every entry that can be hit was computed from reads of the present generation, and no
    call answers from a read made in a generation before it began. -/
theorem action_cache_fresh {c : Chain β} {ls : List (Label β K V)}
    (hm : Runs.Meets (Db.step B R coin maxSize) StoresInGeneration (Db.init c) ls)
    (hr : Runs.run (Db.step B R coin maxSize) (Db.init c) ls = some d) :
    (∀ key kept, (key, kept) ∈ d.actionDataCache → key = d.cacheKey coin key.action_index →
      ∀ g ∈ kept.reads, g = d.reorgGen) ∧
    ∀ a ∈ d.answers, ∀ g ∈ a.reads, a.since ≤ g := by
  have hfresh : Kept.Fresh coin d :=
    Runs.run_inv (fun _ _ _ h hl hs => h.step hl hs) (Kept.Fresh.init c) hm hr
  refine ⟨fun key kept hmem hkey g hg => ?_, hfresh.answers⟩
  have := hfresh.cache key kept hmem (by rw [hkey]; rfl) g hg
  have hgen : key.gen = d.reorgGen := by rw [hkey]; rfl
  omega

/-! A call reads the type of action 1, the block under it is replaced and the poll bumps the
generation, and the call reads the rest and stores. -/

/-- Every action is of one type and its payload is the height it was read at. -/
def heightReaders : Readers ℕ Unit Unit ℕ where
  buildActionPreload indexes := .ret { indexes, types := [], legs := () }
  getActionType _ _ := some ()
  detail _ action_index _ := .read fun c =>
    .ret { action_index := some action_index, payload := c.length }
  blank := { payload := 0 }

/-- Blocks under their ledger hash alone. -/
def ledgerBlocks : Blocks ℕ (Chain ℕ) := { start := 0, ledgerHash := some, actionsHash := fun _ => none }

/-- One check of the poll. -/
def pollOnce : List (Label ℕ Unit ℕ) := [.poll (.start 0), .poll (.db 0), .poll (.run 0)]

def storeAfterBump : List (Label ℕ Unit ℕ) :=
  pollOnce ++ [.call 0 1 none, .callDb 0, .chain [⟨[7], 1⟩]] ++ pollOnce ++ [.callDb 0, .callRun 0]

def storeAndHit : List (Label ℕ Unit ℕ) :=
  [.call 0 1 none, .callDb 0, .callDb 0, .callRun 0, .call 0 1 none]

theorem action_cache_fresh_hit : ∃ d : Db ℕ (Chain ℕ) Unit Unit Unit ℕ,
    Runs.run (Db.step ledgerBlocks heightReaders () 1000) (Db.init [⟨[7], 0⟩]) storeAndHit = some d ∧
      d.answers.length = 2 ∧ ∀ a ∈ d.answers, ∀ g ∈ a.reads, a.since ≤ g := by
  obtain ⟨d, hr, hs⟩ : ∃ d : Db ℕ (Chain ℕ) Unit Unit Unit ℕ,
      Runs.run (Db.step ledgerBlocks heightReaders () 1000) (Db.init [⟨[7], 0⟩]) storeAndHit =
        some d ∧ d.answers.length = 2 := Option.map_eq_some_iff.mp (by decide +kernel)
  exact ⟨d, hr, hs, (action_cache_fresh (by decide +kernel) hr).2⟩

/-- The store computes its key anew: what was read before the bump is kept under the generation
    after it. -/
theorem action_cache_stale : ¬ ∀ (ls : List (Label ℕ Unit ℕ)) (d : Db ℕ (Chain ℕ) Unit Unit Unit ℕ),
    Runs.run (Db.step ledgerBlocks heightReaders () 1000) (Db.init [⟨[7], 0⟩]) ls = some d →
    ∀ key kept, (key, kept) ∈ d.actionDataCache → key = d.cacheKey () key.action_index →
      ∀ g ∈ kept.reads, g = d.reorgGen := by
  intro h
  obtain ⟨d, hr, hs⟩ : ∃ d : Db ℕ (Chain ℕ) Unit Unit Unit ℕ,
      Runs.run (Db.step ledgerBlocks heightReaders () 1000) (Db.init [⟨[7], 0⟩]) storeAfterBump =
        some d ∧ (d.reorgGen, d.actionDataCache.map fun e => (e.1, e.2.reads)) =
          (1, [(⟨(), 1, 1⟩, [0, 1])]) := Option.map_eq_some_iff.mp (by decide +kernel)
  obtain ⟨hgen, hcache⟩ := Prod.mk.inj hs
  obtain ⟨⟨key, kept⟩, hmem, heq⟩ : ∃ e ∈ d.actionDataCache, (e.1, e.2.reads) = (⟨(), 1, 1⟩, [0, 1]) :=
    List.mem_map.mp (hcache ▸ List.mem_singleton.mpr rfl)
  obtain ⟨rfl, hreads⟩ := Prod.mk.inj heq
  have := h storeAfterBump d hr _ kept hmem (by rw [Db.cacheKey, hgen]) 0 (by rw [hreads]; simp)
  omega

/-! ### The request path's probes -/

variable (B) in
/-- A step of the request path's probes comes between no other's reading and record. -/
def RequestUndisturbed (d : Db β H K T P V) : Label β K V → Prop
  | .request l => Undisturbed B.request d.chain d.request l
  | _ => True

instance (d : Db β H K T P V) : ∀ l, Decidable (RequestUndisturbed B d l)
  | .request l => inferInstanceAs (Decidable (Undisturbed B.request d.chain d.request l))
  | .chain _ | .resultCacheGeneration _ _ | .callRun _ | .poll _ | .otherCoin _ _ | .page _ _
  | .pageDb _ | .pageFail _ | .call _ _ _ | .callDb _ | .callFail _ => isTrue trivial

/-- Only its own steps move the request path's observer; the generation moves under it. -/
theorem watched_of_step (hL : Distinct B.request)
    (h : Watched B.request d.reorgGen d.request) (hl : RequestUndisturbed B d l)
    (hs : d.step B R coin maxSize l = some d') : Watched B.request d'.reorgGen d'.request := by
  cases l with
  | resultCacheGeneration i fresh =>
    simp only [Db.step] at hs
    split_ifs at hs
    · exact Option.some.inj hs ▸ h
    · obtain ⟨⟨w, gen⟩, hw, rfl⟩ := Option.map_eq_some_iff.mp hs
      exact h.step (c := d.chain) hL (l := .start i) trivial (watchTrans_of_step hw)
  | request l =>
    cases l with
    | start i => simp [Db.step] at hs
    | db i | run i | fail i =>
      obtain ⟨⟨w, gen⟩, hw, rfl⟩ := Option.map_eq_some_iff.mp hs
      simp only [RequestUndisturbed] at hl
      exact h.step hL hl (watchTrans_of_step hw)
  | poll l =>
    obtain ⟨⟨w, gen⟩, hw, rfl⟩ := Option.map_eq_some_iff.mp hs
    exact h.bump (gen_le_of_watch hw)
  | chain c => exact Option.some.inj hs ▸ h
  | otherCoin key kept =>
    simp only [Db.step] at hs
    split_ifs at hs
    exact Option.some.inj hs ▸ h
  | page i indexes => exact Option.some.inj hs ▸ h
  | pageFail i => exact Option.some.inj hs ▸ h
  | pageDb i =>
    obtain ⟨t, -, hs⟩ := Option.bind_eq_some_iff.mp hs
    obtain ⟨t', -, rfl⟩ := Option.map_eq_some_iff.mp hs
    exact h
  | call j action_index page =>
    have hcall (p : Option (ℕ × List ℕ × Preload T P)) :
        Watched B.request (d.startCall R coin j action_index p).reorgGen
          (d.startCall R coin j action_index p).request := by
      unfold Db.startCall
      split <;> exact h
    simp only [Db.step] at hs
    split at hs
    · simp at hs
    · split at hs
      · exact Option.some.inj hs ▸ hcall _
      · exact Option.some.inj hs ▸ hcall _
      · obtain ⟨pre, -, rfl⟩ := Option.map_eq_some_iff.mp hs
        exact hcall _
  | callDb j | callRun j =>
    obtain ⟨t, -, hs⟩ := Option.bind_eq_some_iff.mp hs
    obtain ⟨t', -, rfl⟩ := Option.map_eq_some_iff.mp hs
    exact h
  | callFail j =>
    obtain ⟨t, -, rfl⟩ := Option.map_eq_some_iff.mp hs
    exact h

/-- Request-path reorg detection. While probes do not overlap, a block one completed probe saw at
    the tip is on every chain a later one reads, or the generation was bumped by the time that one
    completed. -/
theorem replaced_block_caught (hL : Distinct B.request) {c : Chain β} {ls : List (Label β K V)}
    (hm : Runs.Meets (Db.step B R coin maxSize) (RequestUndisturbed B) (Db.init c) ls)
    (hr : Runs.run (Db.step B R coin maxSize) (Db.init c) ls = some d) : Caught d.request.done :=
  (Runs.run_inv (I := fun d => Watched B.request d.reorgGen d.request)
    (fun _ _ _ h hl hs => watched_of_step hL h hl hs) Watched.init hm hr).caught

/-! Probe 1 reads the tip at height 1 and waits for the row below it; probe 2 reads and records the
tip at height 2; probe 1 records its older tip; the block at height 2 is replaced; probe 3 looks. -/

/-- One request probe from start to end. -/
def requestOnce (i : ℕ) : List (Label ℕ Unit ℕ) :=
  [.resultCacheGeneration i false, .request (.db i), .request (.run i)]

/-- One that also reads the row at the height seen last. -/
def requestTwice (i : ℕ) : List (Label ℕ Unit ℕ) :=
  requestOnce i ++ [.request (.db i), .request (.run i)]

def overlappingProbes : List (Label ℕ Unit ℕ) :=
  requestOnce 0 ++ .chain [⟨[], 1⟩, ⟨[], 0⟩] :: requestOnce 1 ++
    .chain [⟨[], 2⟩, ⟨[], 1⟩, ⟨[], 0⟩] :: requestTwice 2 ++
    [.request (.db 1), .request (.run 1), .chain [⟨[], 3⟩, ⟨[], 1⟩, ⟨[], 0⟩]] ++ requestTwice 3

/-- What those probes leave on record. -/
def overlappingDone : List (Done ℕ) :=
  let tip (salt : ℕ) : Chain ℕ := [⟨[], salt⟩, ⟨[], 1⟩, ⟨[], 0⟩]
  [{ started := 0, seen := [⟨[], 0⟩], reads := [[⟨[], 0⟩]], gen := 0 },
    { started := 1, seen := tip 2, reads := [tip 2, tip 2], gen := 0 },
    { started := 1, seen := [⟨[], 1⟩, ⟨[], 0⟩], reads := [[⟨[], 1⟩, ⟨[], 0⟩], tip 2], gen := 0 },
    { started := 3, seen := tip 3, reads := [tip 3, tip 3], gen := 0 }]

def replacedAlone : List (Label ℕ Unit ℕ) :=
  requestOnce 0 ++ .chain [⟨[], 1⟩] :: requestOnce 1

theorem distinct_ledgerBlocks : Distinct ledgerBlocks.request :=
  ⟨fun _ _ h => by simpa [Blocks.request, ledgerBlocks, requestIdentity] using h, fun _ => by
    simp [Blocks.request, ledgerBlocks, requestIdentity]⟩

theorem replaced_block_caught_alone : ∃ d : Db ℕ (Chain ℕ) Unit Unit Unit ℕ,
    Runs.run (Db.step ledgerBlocks heightReaders () 1000) (Db.init [⟨[], 0⟩]) replacedAlone = some d ∧
      d.request.done.map (·.gen) = [0, 1] ∧ Caught d.request.done := by
  obtain ⟨d, hr, hs⟩ : ∃ d : Db ℕ (Chain ℕ) Unit Unit Unit ℕ,
      Runs.run (Db.step ledgerBlocks heightReaders () 1000) (Db.init [⟨[], 0⟩]) replacedAlone =
        some d ∧ d.request.done.map (·.gen) = [0, 1] := Option.map_eq_some_iff.mp (by decide +kernel)
  exact ⟨d, hr, hs, replaced_block_caught distinct_ledgerBlocks (by decide +kernel) hr⟩

/-- A slow probe records an older tip over a newer one, and the newer block's replacement is
    missed. -/
theorem replaced_block_missed : ¬ ∀ (ls : List (Label ℕ Unit ℕ))
    (d : Db ℕ (Chain ℕ) Unit Unit Unit ℕ),
    Runs.run (Db.step ledgerBlocks heightReaders () 1000) (Db.init [⟨[], 0⟩]) ls = some d →
    Caught d.request.done := by
  intro h
  obtain ⟨d, hr, hs⟩ : ∃ d : Db ℕ (Chain ℕ) Unit Unit Unit ℕ,
      Runs.run (Db.step ledgerBlocks heightReaders () 1000) (Db.init [⟨[], 0⟩]) overlappingProbes =
        some d ∧ d.request.done = overlappingDone := Option.map_eq_some_iff.mp (by decide +kernel)
  have hmissed := h overlappingProbes d hr (overlappingDone.take 3) overlappingDone[3] [] hs
    overlappingDone[1] (by decide) overlappingDone[3].seen (by decide) (by decide)
  exact absurd hmissed (by decide)

end DbCache
