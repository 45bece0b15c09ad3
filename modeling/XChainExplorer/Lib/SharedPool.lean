import XChainExplorer.Lib.Reading
import XChainExplorer.Lib.WorkerPool

/-! # Workers that share a memory of responses

    The workers of a page take its items by a shared cursor. An item the memory holds is answered from it; any
    other is read by the page's program for it, and its response may be kept. A program may ask for a page of
    its own. Others may change the memory at any time. -/

namespace SharedPool

open Reading WorkerPool

/-- The items of a page and the program it reads each by. -/
structure Page (δ ι ρ : Type) where
  items : List ι
  read : ι → Reading δ ι ρ ρ

/-- What the workers work with: the database, the memory, the program that reads an item by itself, and the
    page that is opened over a list of indexes, with its number of workers. -/
structure Service (δ ι ρ μ : Type) where
  db : δ
  find : μ → ι → Option ρ × μ
  keep : μ → ι → ρ → μ
  read : ι → Reading δ ι ρ ρ
  page : List ι → μ → Page δ ι ρ
  workers : List ι → ℕ

/-- A pool whose workers share a memory. -/
structure Pool (δ ι ρ μ : Type) extends WorkerPool.Pool ι (Reading δ ι ρ ρ) ρ where
  memory : μ

variable {δ ι ρ μ : Type} (S : Service δ ι ρ μ)

/-- Workers at the start of a page. -/
def init (workers : ℕ) (memory : μ) : Pool δ ι ρ μ := { WorkerPool.init workers with memory }

variable [DecidableEq ι]

/-- One worker goes on by one step. -/
def step (page : Page δ ι ρ) (p : Pool δ ι ρ μ) (i : ℕ) : Option (Pool δ ι ρ μ) :=
  match p.workers[i]? with
  | some .idle =>
    match page.items[p.cursor]? with
    | none => some { p with cursor := p.cursor + 1, workers := p.workers.set i .finished }
    | some item =>
      match S.find p.memory item with
      | (some found, memory) =>
        some { p with cursor := p.cursor + 1, results := Function.update p.results item (some found), memory }
      | (none, memory) =>
        some { p with cursor := p.cursor + 1, workers := p.workers.set i (.busy item (page.read item)), memory }
  | some (.busy item (.query k)) => some { p with workers := p.workers.set i (.busy item (k S.db)) }
  | some (.busy item (.ret d)) => some { p with
      workers := p.workers.set i .idle, results := Function.update p.results item (some d),
      memory := S.keep p.memory item d }
  | _ => none

/-- Every worker came to the end of the page. -/
def Done (p : Pool δ ι ρ μ) : Prop := WorkerPool.Done p.toPool

/-- What the workers of a page do in any order, while the memory may change to any that `P` allows. A program
    that asks for a page of its own goes on with the page's results when all its workers are done. -/
inductive Run (P : μ → Prop) : Page δ ι ρ → Pool δ ι ρ μ → Pool δ ι ρ μ → Prop
  | refl {page : Page δ ι ρ} (p : Pool δ ι ρ μ) : Run P page p p
  | outside {page : Page δ ι ρ} {p q : Pool δ ι ρ μ} (hrun : Run P page p q) {memory : μ} (hm : P memory) :
      Run P page p { q with memory }
  | worker {page : Page δ ι ρ} {p q q' : Pool δ ι ρ μ} (hrun : Run P page p q) (i : ℕ)
      (hstep : step S page q i = some q') : Run P page p q'
  | nested {page : Page δ ι ρ} {p q q' : Pool δ ι ρ μ} (hrun : Run P page p q) (i : ℕ) {item : ι}
      {indexes : List ι} {k : List ρ → Reading δ ι ρ ρ} (hi : q.workers[i]? = some (.busy item (.nested indexes k)))
      {opened memory : μ} (hm : P memory)
      (hnested : Run P (S.page indexes opened) (init (S.workers indexes) memory) q') (hdone : Done q') (out : ι → ρ)
      (hout : ∀ j ∈ indexes, q'.results j = some (out j)) :
      Run P page p { q with workers := q.workers.set i (.busy item (k (indexes.map out))) }

variable {S} {P : μ → Prop} {page page' : Page δ ι ρ} {p p' q q' r : Pool δ ι ρ μ} {i : ℕ} {item : ι}

theorem Run.trans (hpq : Run S P page p q) (hqr : Run S P page q r) : Run S P page p r := by
  induction hqr with
  | refl => exact hpq
  | outside _ hm ih => exact .outside (ih hpq) hm
  | worker _ i hstep ih => exact .worker (ih hpq) i hstep
  | nested _ i hi hm hnested hdone out hout ih _ => exact .nested (ih hpq) i hi hm hnested hdone out hout

theorem Run.one (hstep : step S page p i = some q) : Run S P page p q := .worker (.refl p) i hstep

/-! ### What each step does -/

theorem step_finish (hi : p.workers[i]? = some .idle) (hitem : page.items[p.cursor]? = none) :
    step S page p i = some { p with cursor := p.cursor + 1, workers := p.workers.set i .finished } := by
  simp only [step, hi, hitem]

theorem step_found {d : ρ} (hi : p.workers[i]? = some .idle) (hitem : page.items[p.cursor]? = some item)
    (hfind : (S.find p.memory item).1 = some d) :
    step S page p i = some { p with
      cursor := p.cursor + 1, results := Function.update p.results item (some d),
      memory := (S.find p.memory item).2 } := by
  simp only [step, hi, hitem]
  split
  · next found memory heq =>
    rw [heq] at hfind ⊢
    cases hfind
    rfl
  · next heq =>
    rw [heq] at hfind
    cases hfind

theorem step_take (hi : p.workers[i]? = some .idle) (hitem : page.items[p.cursor]? = some item)
    (hfind : (S.find p.memory item).1 = none) :
    step S page p i = some { p with
      cursor := p.cursor + 1, workers := p.workers.set i (.busy item (page.read item)),
      memory := (S.find p.memory item).2 } := by
  simp only [step, hi, hitem]
  split
  · next heq =>
    rw [heq] at hfind
    cases hfind
  · next memory heq => rw [heq]

theorem step_query {k : δ → Reading δ ι ρ ρ} (hi : p.workers[i]? = some (.busy item (.query k))) :
    step S page p i = some { p with workers := p.workers.set i (.busy item (k S.db)) } := by
  simp only [step, hi]

theorem step_ret {d : ρ} (hi : p.workers[i]? = some (.busy item (.ret d))) :
    step S page p i = some { p with
      workers := p.workers.set i .idle, results := Function.update p.results item (some d),
      memory := S.keep p.memory item d } := by
  simp only [step, hi]

/-- A worker finds no item, finds its item in the memory, takes one up, has a query answered, or files what its
    program returned. -/
theorem step_cases (h : step S page p i = some q) :
    (p.workers[i]? = some .idle ∧ page.items[p.cursor]? = none ∧
      q = { p with cursor := p.cursor + 1, workers := p.workers.set i .finished }) ∨
    (∃ item d, p.workers[i]? = some .idle ∧ page.items[p.cursor]? = some item ∧
      (S.find p.memory item).1 = some d ∧
      q = { p with
        cursor := p.cursor + 1, results := Function.update p.results item (some d),
        memory := (S.find p.memory item).2 }) ∨
    (∃ item, p.workers[i]? = some .idle ∧ page.items[p.cursor]? = some item ∧ (S.find p.memory item).1 = none ∧
      q = { p with
        cursor := p.cursor + 1, workers := p.workers.set i (.busy item (page.read item)),
        memory := (S.find p.memory item).2 }) ∨
    (∃ item k, p.workers[i]? = some (.busy item (.query k)) ∧
      q = { p with workers := p.workers.set i (.busy item (k S.db)) }) ∨
    ∃ item d, p.workers[i]? = some (.busy item (.ret d)) ∧
      q = { p with
        workers := p.workers.set i .idle, results := Function.update p.results item (some d),
        memory := S.keep p.memory item d } := by
  rcases hi : p.workers[i]? with _ | _ | ⟨item, _ | _ | _⟩ | _
  · simp [step, hi] at h
  · rcases hitem : page.items[p.cursor]? with _ | item
    · rw [step_finish hi hitem, Option.some.injEq] at h
      exact .inl ⟨rfl, rfl, h.symm⟩
    · rcases hfind : (S.find p.memory item).1 with _ | d
      · rw [step_take hi hitem hfind, Option.some.injEq] at h
        exact .inr (.inr (.inl ⟨item, rfl, rfl, hfind, h.symm⟩))
      · rw [step_found hi hitem hfind, Option.some.injEq] at h
        exact .inr (.inl ⟨item, d, rfl, rfl, hfind, h.symm⟩)
  · rw [step_ret hi, Option.some.injEq] at h
    exact .inr (.inr (.inr (.inr ⟨item, _, rfl, h.symm⟩)))
  · rw [step_query hi, Option.some.injEq] at h
    exact .inr (.inr (.inr (.inl ⟨item, _, rfl, h.symm⟩)))
  · simp [step, hi] at h
  · simp [step, hi] at h

/-- The workers of a page stay as many. -/
theorem Run.workers (hrun : Run S P page p q) : p.workers.length = q.workers.length := by
  induction hrun with
  | refl => rfl
  | outside _ _ ih => exact ih
  | worker _ i hstep ih =>
    rw [ih]
    obtain ⟨-, -, rfl⟩ | ⟨_, _, -, -, -, rfl⟩ | ⟨_, -, -, -, rfl⟩ | ⟨_, _, -, rfl⟩ | ⟨_, _, -, rfl⟩ := step_cases hstep
    all_goals simp only [List.length_set]
  | nested _ i _ _ _ _ _ _ ih _ => rw [ih, List.length_set]

/-! ### Programs with their queries answered -/

/-- A worker with the queries of its program answered. -/
def answered (db : δ) : Worker ι (Reading δ ι ρ ρ) → Worker ι (Reading δ ι ρ ρ)
  | .idle => .idle
  | .busy item r => .busy item (r.answered db)
  | .finished => .finished

/-- Two pools that differ in the queries their workers have before them. -/
structure Alike (db : δ) (p p' : Pool δ ι ρ μ) : Prop where
  cursor : p.cursor = p'.cursor
  workers : p.workers.map (answered db) = p'.workers.map (answered db)
  results : p.results = p'.results
  memory : p.memory = p'.memory

/-- A program that awaits no query next. -/
def Settled (r : Reading δ ι ρ ρ) : Prop := ∀ k, r ≠ .query k

omit [DecidableEq ι] in
theorem Alike.refl (db : δ) (p : Pool δ ι ρ μ) : Alike db p p := ⟨rfl, rfl, rfl, rfl⟩

omit [DecidableEq ι] in
/-- The worker at one place of two pools alike. -/
theorem Alike.getElem? {db : δ} (h : Alike db p p') (i : ℕ) :
    p.workers[i]?.map (answered db) = p'.workers[i]?.map (answered db) := by
  rw [← List.getElem?_map, ← List.getElem?_map, h.workers]

omit [DecidableEq ι] in
theorem Alike.idle {db : δ} (h : Alike db p p') (hi : p.workers[i]? = some .idle) : p'.workers[i]? = some .idle := by
  have hsame := h.getElem? i
  rw [hi] at hsame
  rcases hi' : p'.workers[i]? with _ | _ | _ | _ <;> rw [hi'] at hsame <;> first | rfl | cases hsame

omit [DecidableEq ι] in
theorem Alike.busy {db : δ} {r : Reading δ ι ρ ρ} (h : Alike db p p') (hi : p.workers[i]? = some (.busy item r)) :
    ∃ r', p'.workers[i]? = some (.busy item r') ∧ r'.answered db = r.answered db := by
  have hsame := h.getElem? i
  rw [hi] at hsame
  rcases hi' : p'.workers[i]? with _ | _ | ⟨item', r'⟩ | _ <;> rw [hi'] at hsame
  · cases hsame
  · cases hsame
  · simp only [Option.map_some, answered, Option.some.injEq, Worker.busy.injEq] at hsame
    exact ⟨r', by rw [hsame.1], hsame.2.symm⟩
  · cases hsame

omit [DecidableEq ι] in
theorem Alike.done {db : δ} (h : Alike db p p') (hdone : Done p) : Done p' := by
  intro w hw
  obtain ⟨w', hw', heq⟩ := List.mem_map.mp (h.workers ▸ List.mem_map_of_mem hw :
    answered db w ∈ p.workers.map (answered db))
  cases hdone w' hw'
  cases w <;> first | rfl | cases heq

theorem set_of_getElem? {α : Type*} {l : List α} {a : α} (h : l[i]? = some a) : l.set i a = l := by
  obtain ⟨hlt, rfl⟩ := List.getElem?_eq_some_iff.mp h
  exact List.set_getElem_self hlt

omit [DecidableEq ι] in
/-- Workers set at one place stay alike. -/
theorem map_set {db : δ} {ws ws' : List (Worker ι (Reading δ ι ρ ρ))} {w w' : Worker ι (Reading δ ι ρ ρ)}
    (h : ws.map (answered db) = ws'.map (answered db)) (hw : answered db w = answered db w') (i : ℕ) :
    (ws.set i w).map (answered db) = (ws'.set i w').map (answered db) := by
  rw [List.map_set, List.map_set, h, hw]

omit [DecidableEq ι] in
theorem set_same {ws : List (Worker ι (Reading δ ι ρ ρ))} {db : δ} {w w' : Worker ι (Reading δ ι ρ ρ)}
    (hi : ws[i]? = some w) (hw : answered db w' = answered db w) :
    (ws.set i w').map (answered db) = ws.map (answered db) := by
  rw [List.map_set, hw]
  exact set_of_getElem? (by rw [List.getElem?_map, hi]; rfl)

/-- A worker has its next queries answered. -/
theorem exists_settled (S : Service δ ι ρ μ) (P : μ → Prop) (page : Page δ ι ρ) {p : Pool δ ι ρ μ}
    {r : Reading δ ι ρ ρ} (hi : p.workers[i]? = some (.busy item r)) :
    ∃ r', Settled r' ∧ r'.answered S.db = r.answered S.db ∧
      Run S P page p { p with workers := p.workers.set i (.busy item r') } := by
  induction r generalizing p with
  | ret d =>
    refine ⟨.ret d, (fun _ h => nomatch h), rfl, ?_⟩
    rw [set_of_getElem? hi]
    exact .refl p
  | nested indexes k =>
    refine ⟨.nested indexes k, (fun _ h => nomatch h), rfl, ?_⟩
    rw [set_of_getElem? hi]
    exact .refl p
  | query k ih =>
    have hlt : i < p.workers.length := (List.getElem?_eq_some_iff.mp hi).1
    obtain ⟨r', hsettled, hsame, hrun⟩ := ih S.db
      (p := { p with workers := p.workers.set i (.busy item (k S.db)) }) (List.getElem?_set_self hlt)
    refine ⟨r', hsettled, hsame, (Run.one (step_query hi)).trans ?_⟩
    simpa only [List.set_set] using hrun

/-! ### A page whose programs go alike -/

/-- Pages over the same items whose programs differ in their queries only. -/
structure Page.Alike (db : δ) (page page' : Page δ ι ρ) : Prop where
  items : page.items = page'.items
  read : ∀ item, (page.read item).answered db = (page'.read item).answered db

omit [DecidableEq ι] in
theorem Page.Alike.symm {db : δ} (h : page.Alike db page') : page'.Alike db page :=
  ⟨h.items.symm, fun item => (h.read item).symm⟩

/-- A step of one page is none or several of the other. -/
theorem Alike.step (hpage : page.Alike S.db page') (h : Alike S.db p p') (hstep : step S page p i = some q) :
    ∃ q', Run S P page' p' q' ∧ Alike S.db q q' := by
  have hcursor : p.cursor + 1 = p'.cursor + 1 := by rw [h.cursor]
  have hitem : page'.items[p'.cursor]? = page.items[p.cursor]? := by rw [hpage.items, h.cursor]
  obtain ⟨hi, hnone, rfl⟩ | ⟨item, d, hi, hsome, hfind, rfl⟩ | ⟨item, hi, hsome, hfind, rfl⟩ | ⟨item, k, hi, rfl⟩ |
    ⟨item, d, hi, rfl⟩ := step_cases hstep
  · exact ⟨_, .one (step_finish (h.idle hi) (hitem.trans hnone)), hcursor, map_set h.workers rfl i, h.results, h.memory⟩
  · rw [h.memory] at hfind
    refine ⟨_, .one (step_found (h.idle hi) (hitem.trans hsome) hfind), hcursor, h.workers, ?_, ?_⟩
    · rw [h.results]
    · rw [h.memory]
  · rw [h.memory] at hfind
    refine ⟨_, .one (step_take (h.idle hi) (hitem.trans hsome) hfind), hcursor, map_set h.workers ?_ i, h.results, ?_⟩
    · simp only [answered, hpage.read]
    · rw [h.memory]
  · -- a query of one program is answered while the other stands
    have hset : (p.workers.set i (.busy item (k S.db))).map (answered S.db) = p.workers.map (answered S.db) :=
      set_same hi rfl
    exact ⟨p', .refl p', h.cursor, hset.trans h.workers, h.results, h.memory⟩
  · obtain ⟨r', hi', hsame⟩ := h.busy hi
    obtain ⟨r'', hsettled, hsame', hrun⟩ := exists_settled S P page' hi'
    rw [hsame] at hsame'
    cases r'' with
    | query k => exact absurd rfl (hsettled k)
    | nested indexes k => cases hsame'
    | ret d' =>
      cases hsame'
      have hlt : i < p'.workers.length := (List.getElem?_eq_some_iff.mp hi').1
      refine ⟨_, .worker hrun i (step_ret (List.getElem?_set_self hlt)), h.cursor, ?_, ?_, ?_⟩
      · simp only [List.set_set]
        exact map_set h.workers rfl i
      · simp only [h.results]
      · simp only [h.memory]

/-- Whatever the workers of one page do, those of the other come to the same results and the same memory. -/
theorem Alike.run (hpage : page.Alike S.db page') (hrun : Run S P page p q) (h : Alike S.db p p') :
    ∃ q', Run S P page' p' q' ∧ Alike S.db q q' := by
  induction hrun generalizing p' with
  | refl => exact ⟨p', .refl p', h⟩
  | outside _ hm ih =>
    obtain ⟨q', hrun', hq⟩ := ih hpage h
    exact ⟨_, hrun'.outside hm, hq.cursor, hq.workers, hq.results, rfl⟩
  | worker _ i hstep ih =>
    obtain ⟨q', hrun', hq⟩ := ih hpage h
    obtain ⟨q'', hrest, hq'⟩ := hq.step hpage hstep
    exact ⟨q'', hrun'.trans hrest, hq'⟩
  | nested _ i hi hm hnested hdone out hout ih _ =>
    obtain ⟨q', hrun', hq⟩ := ih hpage h
    obtain ⟨r', hi', hsame⟩ := hq.busy hi
    obtain ⟨r'', hsettled, hsame', hsettle⟩ := exists_settled S P page' hi'
    rw [hsame] at hsame'
    cases r'' with
    | query k => exact absurd rfl (hsettled k)
    | ret d => cases hsame'
    | nested indexes k =>
      simp only [answered_nested, Reading.nested.injEq] at hsame'
      obtain ⟨rfl, hk⟩ := hsame'
      have hlt : i < q'.workers.length := (List.getElem?_eq_some_iff.mp hi').1
      refine ⟨_, .nested (hrun'.trans hsettle) i (List.getElem?_set_self hlt) hm hnested hdone out hout, hq.cursor, ?_,
        hq.results, hq.memory⟩
      simp only [List.set_set]
      exact map_set hq.workers (by simp only [answered, ← congrFun hk]) i

/-! ### A memory that holds what the programs return -/

/-- In a good memory what is found of an item is what its own program returns, and it stays good under its own
    use. A page opened over a list reads its items alike. -/
structure Lawful (S : Service δ ι ρ μ) (Good : μ → Prop) : Prop where
  found : ∀ m item d, Good m → (S.find m item).1 = some d → Reads S.db S.read (S.read item) d
  find : ∀ m item, Good m → Good (S.find m item).2
  keep : ∀ m item d, Good m → Reads S.db S.read (S.read item) d → Good (S.keep m item d)
  page : ∀ indexes m, (∀ i, i ∈ (S.page indexes m).items ↔ i ∈ indexes) ∧
    ∀ item, ((S.page indexes m).read item).answered S.db = (S.read item).answered S.db
  workers : ∀ indexes, indexes ≠ [] → 0 < S.workers indexes

variable {Good : μ → Prop}

/-- Each item behind the cursor has its response or is worked on, and every response is the one its own program
    returns. -/
structure Inv (S : Service δ ι ρ μ) (Good : μ → Prop) (page : Page δ ι ρ) (p : Pool δ ι ρ μ) : Prop where
  taken : ∀ j item, j < p.cursor → page.items[j]? = some item →
    (p.results item).isSome ∨ ∃ r, Worker.busy item r ∈ p.workers
  results : ∀ item d, p.results item = some d → Reads S.db S.read (S.read item) d
  busy : ∀ item r, Worker.busy item r ∈ p.workers →
    item ∈ page.items ∧ ∀ d, Reads S.db S.read r d ↔ Reads S.db S.read (S.read item) d
  finished : Worker.finished ∈ p.workers → page.items.length ≤ p.cursor
  memory : Good p.memory

omit [DecidableEq ι] in
theorem Inv.init {workers : ℕ} {memory : μ} (hmemory : Good memory) :
    Inv S Good page (SharedPool.init workers memory : Pool δ ι ρ μ) where
  taken _ _ hj _ := absurd hj (Nat.not_lt_zero _)
  results _ _ h := by cases h
  busy _ _ h := by cases List.eq_of_mem_replicate h
  finished h := by cases List.eq_of_mem_replicate h
  memory := hmemory

/-- A program goes on to one that returns the same. -/
theorem Inv.advance {r r' : Reading δ ι ρ ρ} (hinv : Inv S Good page p) (hi : p.workers[i]? = some (.busy item r))
    (hr : ∀ d, Reads S.db S.read r' d ↔ Reads S.db S.read r d) :
    Inv S Good page { p with workers := p.workers.set i (.busy item r') } := by
  refine ⟨fun j other hj hother => ?_, hinv.results, fun other r'' hmem => ?_, fun hmem => ?_, hinv.memory⟩
  · refine (hinv.taken j other hj hother).imp_right ?_
    rintro ⟨busy, hmem⟩
    by_cases hsame : Worker.busy other busy = Worker.busy item r
    · cases hsame
      exact ⟨r', mem_set_self (p := p.toPool) hi⟩
    · exact ⟨busy, mem_set_of_ne (p := p.toPool) hi hsame hmem⟩
  · rcases List.mem_or_eq_of_mem_set hmem with hmem | heq
    · exact hinv.busy other r'' hmem
    · cases heq
      obtain ⟨hitem, hreads⟩ := hinv.busy item r (List.mem_of_getElem? hi)
      exact ⟨hitem, fun d => (hr d).trans (hreads d)⟩
  · rcases List.mem_or_eq_of_mem_set hmem with hmem | heq
    · exact hinv.finished hmem
    · cases heq

theorem Inv.step (hS : Lawful S Good) (hpage : ∀ item, (page.read item).answered S.db = (S.read item).answered S.db)
    (hinv : Inv S Good page p) (hstep : step S page p i = some q) : Inv S Good page q := by
  obtain ⟨hi, hnone, rfl⟩ | ⟨item, d, hi, hsome, hfind, rfl⟩ | ⟨item, hi, hsome, hfind, rfl⟩ | ⟨item, k, hi, rfl⟩ |
    ⟨item, d, hi, rfl⟩ := step_cases hstep
  · have hlen : page.items.length ≤ p.cursor := List.getElem?_eq_none_iff.mp hnone
    refine ⟨fun j other _ hother => ?_, hinv.results, fun other r hmem => ?_, fun _ => hlen.trans (Nat.le_succ _),
      hinv.memory⟩
    · have hlt : j < p.cursor := (List.getElem?_eq_some_iff.mp hother).1.trans_le hlen
      refine (hinv.taken j other hlt hother).imp_right ?_
      rintro ⟨r, hmem⟩
      exact ⟨r, mem_set_of_ne (p := p.toPool) hi (by simp) hmem⟩
    · rcases List.mem_or_eq_of_mem_set hmem with hmem | heq
      · exact hinv.busy other r hmem
      · cases heq
  · refine ⟨fun j other hj hother => ?_, fun other answer hanswer => ?_, hinv.busy,
      fun hmem => (hinv.finished hmem).trans (Nat.le_succ _), hS.find _ _ hinv.memory⟩
    · by_cases hsame : other = item
      · exact .inl (by simp [hsame])
      · simp only [Function.update_of_ne hsame]
        rcases Nat.lt_succ_iff_lt_or_eq.mp hj with hj | rfl
        · exact hinv.taken j other hj hother
        · exact absurd (Option.some.inj (hother.symm.trans hsome)) hsame
    · by_cases hsame : other = item
      · subst hsame
        simp only [Function.update_self, Option.some.injEq] at hanswer
        exact hanswer ▸ hS.found _ _ _ hinv.memory hfind
      · simp only [Function.update_of_ne hsame] at hanswer
        exact hinv.results other answer hanswer
  · refine ⟨fun j other hj hother => ?_, hinv.results, fun other r hmem => ?_, fun hmem => ?_, hS.find _ _ hinv.memory⟩
    · rcases Nat.lt_succ_iff_lt_or_eq.mp hj with hj | rfl
      · refine (hinv.taken j other hj hother).imp_right ?_
        rintro ⟨r, hmem⟩
        exact ⟨r, mem_set_of_ne (p := p.toPool) hi (by simp) hmem⟩
      · obtain rfl := Option.some.inj (hother.symm.trans hsome)
        exact .inr ⟨_, mem_set_self (p := p.toPool) hi⟩
    · rcases List.mem_or_eq_of_mem_set hmem with hmem | heq
      · exact hinv.busy other r hmem
      · cases heq
        exact ⟨List.mem_of_getElem? hsome, fun d => reads_congr (hpage _)⟩
    · rcases List.mem_or_eq_of_mem_set hmem with hmem | heq
      · exact (hinv.finished hmem).trans (Nat.le_succ _)
      · cases heq
  · exact hinv.advance hi fun d => reads_query.symm
  · have hreads : Reads S.db S.read (S.read item) d :=
      ((hinv.busy item _ (List.mem_of_getElem? hi)).2 d).mp (.ret d)
    refine ⟨fun j other hj hother => ?_, fun other answer hanswer => ?_, fun other r hmem => ?_, fun hmem => ?_,
      hS.keep _ _ _ hinv.memory hreads⟩
    · by_cases hsame : other = item
      · exact .inl (by simp [hsame])
      · simp only [Function.update_of_ne hsame]
        refine (hinv.taken j other hj hother).imp_right ?_
        rintro ⟨r, hmem⟩
        exact ⟨r, mem_set_of_ne (p := p.toPool) hi (by rintro heq; cases heq; exact hsame rfl) hmem⟩
    · by_cases hsame : other = item
      · subst hsame
        simp only [Function.update_self, Option.some.injEq] at hanswer
        exact hanswer ▸ hreads
      · simp only [Function.update_of_ne hsame] at hanswer
        exact hinv.results other answer hanswer
    · rcases List.mem_or_eq_of_mem_set hmem with hmem | heq
      · exact hinv.busy other r hmem
      · cases heq
    · rcases List.mem_or_eq_of_mem_set hmem with hmem | heq
      · exact hinv.finished hmem
      · cases heq

/-- Every run over a memory that stays coherent keeps the invariant. -/
theorem Inv.run (hS : Lawful S Good) (hpage : ∀ item, (page.read item).answered S.db = (S.read item).answered S.db)
    (hrun : Run S Good page p q) (hinv : Inv S Good page p) : Inv S Good page q := by
  induction hrun with
  | refl => exact hinv
  | outside _ hm ih =>
    have hq := ih hpage hinv
    exact ⟨hq.taken, hq.results, hq.busy, hq.finished, hm⟩
  | worker _ i hstep ih => exact (ih hpage hinv).step hS hpage hstep
  | @nested page p q q' _ i item indexes k hi opened memory hm _ _ out hout ih ihnested =>
    have hread := ihnested (hS.page indexes opened).2 (.init hm)
    exact (ih hpage hinv).advance hi fun d => (reads_nested fun j hj => hread.results j _ (hout j hj)).symm

/-- At the end every item has the response its own program returns. -/
theorem results_of_done {workers : ℕ} {memory : μ} (hS : Lawful S Good) (hworkers : 0 < workers)
    (hpage : ∀ item, (page.read item).answered S.db = (S.read item).answered S.db) (hm : Good memory)
    (hrun : Run S Good page (init workers memory) q) (hdone : Done q) (hitem : item ∈ page.items) :
    ∃ d, q.results item = some d ∧ Reads S.db S.read (S.read item) d := by
  have hinv : Inv S Good page q := .run hS hpage hrun (.init hm)
  have hlen : q.workers.length = workers := by
    rw [← hrun.workers]
    exact List.length_replicate ..
  obtain ⟨w, hw⟩ := List.exists_mem_of_length_pos (hlen ▸ hworkers : 0 < q.workers.length)
  have hend : page.items.length ≤ q.cursor := hinv.finished (hdone w hw ▸ hw)
  obtain ⟨j, hj⟩ := List.mem_iff_getElem?.mp hitem
  rcases hinv.taken j item ((List.getElem?_eq_some_iff.mp hj).1.trans_le hend) hj with hsome | ⟨r, hbusy⟩
  · obtain ⟨d, hd⟩ := Option.isSome_iff_exists.mp hsome
    exact ⟨d, hd, hinv.results item d hd⟩
  · cases hdone _ hbusy

/-! ### Every page comes to its end -/

/-- A worker with this program files a response of the item, and the memory stays coherent. -/
def Returns (S : Service δ ι ρ μ) (Good : μ → Prop) (item : ι) (r : Reading δ ι ρ ρ) : Prop :=
  ∀ page (p : Pool δ ι ρ μ) i, p.workers[i]? = some (.busy item r) → Good p.memory →
    ∃ d memory, Good memory ∧ Run S Good page p { p with
      workers := p.workers.set i .idle, results := Function.update p.results item (some d), memory }

def weight : Worker ι (Reading δ ι ρ ρ) → ℕ
  | .idle => 1
  | .busy _ _ => 2
  | .finished => 0

/-- A bound on the items and programs that are left. -/
def left (page : Page δ ι ρ) (p : Pool δ ι ρ μ) : ℕ :=
  2 * (page.items.length - p.cursor) + (p.workers.map weight).sum

/-- Workers whose programs return finish the page. -/
theorem exists_done (page : Page δ ι ρ) (p : Pool δ ι ρ μ) (hS : Lawful S Good) (hm : Good p.memory)
    (hbusy : ∀ item r, Worker.busy item r ∈ p.workers → Returns S Good item r)
    (hitems : ∀ item ∈ page.items, Returns S Good item (page.read item)) :
    ∃ q, Run S Good page p q ∧ Done q := by
  induction hleft : left page p using Nat.strong_induction_on generalizing p with
  | h n ih =>
    by_cases hdone : Done p
    · exact ⟨p, .refl p, hdone⟩
    -- one worker goes on, and less is left
    obtain ⟨q, hstep, hmq, hbusyq, hlt⟩ : ∃ q, Run S Good page p q ∧ Good q.memory ∧
        (∀ item r, Worker.busy item r ∈ q.workers → Returns S Good item r) ∧ left page q < left page p := by
      obtain ⟨w, hw, hne⟩ : ∃ w ∈ p.workers, w ≠ .finished := by
        simpa [Done, WorkerPool.Done] using hdone
      obtain ⟨i, hi⟩ := List.mem_iff_getElem?.mp hw
      cases w with
      | finished => exact absurd rfl hne
      | idle =>
        rcases hitem : page.items[p.cursor]? with _ | item
        · refine ⟨_, .one (step_finish hi hitem), hm, fun item r hmem => ?_, ?_⟩
          · rcases List.mem_or_eq_of_mem_set hmem with hmem | heq
            · exact hbusy item r hmem
            · cases heq
          · have hsum := WorkerPool.sum_set (v := .finished) hi weight
            simp only [weight] at hsum
            simp only [left]
            omega
        · have hcursor : p.cursor < page.items.length := (List.getElem?_eq_some_iff.mp hitem).1
          rcases hfind : (S.find p.memory item).1 with _ | d
          · refine ⟨_, .one (step_take hi hitem hfind), hS.find _ _ hm, fun other r hmem => ?_, ?_⟩
            · rcases List.mem_or_eq_of_mem_set hmem with hmem | heq
              · exact hbusy other r hmem
              · cases heq
                exact hitems _ (List.mem_of_getElem? hitem)
            · have hsum := WorkerPool.sum_set (v := .busy item (page.read item)) hi weight
              simp only [weight] at hsum
              simp only [left]
              omega
          · refine ⟨_, .one (step_found hi hitem hfind), hS.find _ _ hm, hbusy, ?_⟩
            simp only [left]
            omega
      | busy item r =>
        obtain ⟨d, memory, hmemory, hrun⟩ := hbusy item r hw page p i hi hm
        refine ⟨_, hrun, hmemory, fun other r' hmem => ?_, ?_⟩
        · rcases List.mem_or_eq_of_mem_set hmem with hmem | heq
          · exact hbusy other r' hmem
          · cases heq
        · have hsum := WorkerPool.sum_set (v := .idle) hi weight
          simp only [weight] at hsum
          simp only [left]
          omega
    obtain ⟨q', hrest, hdone'⟩ := ih _ (hleft ▸ hlt) q hmq hbusyq rfl
    exact ⟨q', hstep.trans hrest, hdone'⟩

/-- A program that reads the response of its item files one, whatever queries it awaits. -/
theorem returns_of_reads (hS : Lawful S Good) {r r' : Reading δ ι ρ ρ} {d : ρ} (h : Reads S.db S.read r d)
    (hread : Reads S.db S.read (S.read item) d) (hsame : r'.answered S.db = r.answered S.db) : Returns S Good item r' := by
  induction h generalizing item r' with
  | ret d =>
    intro page p i hi hm
    obtain ⟨r'', hsettled, hsame', hrun⟩ := exists_settled S Good page hi
    rw [hsame] at hsame'
    cases r'' with
    | query k => exact absurd rfl (hsettled k)
    | nested indexes k => cases hsame'
    | ret d' =>
      cases hsame'
      have hlt : i < p.workers.length := (List.getElem?_eq_some_iff.mp hi).1
      refine ⟨d, _, hS.keep _ _ _ hm hread, ?_⟩
      have hfile := hrun.worker i (step_ret (List.getElem?_set_self hlt))
      simpa only [List.set_set] using hfile
  | query _ ih => exact ih hread hsame
  | @nested indexes k d out hout h ihout ih =>
    intro page p i hi hm
    obtain ⟨r'', hsettled, hsame', hrun⟩ := exists_settled S Good page hi
    rw [hsame] at hsame'
    cases r'' with
    | query k => exact absurd rfl (hsettled k)
    | ret d => cases hsame'
    | nested indexes k' =>
      simp only [answered_nested, Reading.nested.injEq] at hsame'
      obtain ⟨rfl, hk⟩ := hsame'
      have hlt : i < p.workers.length := (List.getElem?_eq_some_iff.mp hi).1
      obtain ⟨hitems, hpage⟩ := hS.page indexes p.memory
      -- the page it asks for comes to its end, and each of its items has its response
      obtain ⟨q, hnested, hdone⟩ := exists_done (S.page indexes p.memory)
        (init (S.workers indexes) p.memory) hS hm (fun j r hmem => by cases List.eq_of_mem_replicate hmem)
        fun j hj => ihout j ((hitems j).mp hj) (hout j ((hitems j).mp hj)) (hpage j)
      have hresults : ∀ j ∈ indexes, q.results j = some (out j) := by
        intro j hj
        obtain ⟨d', hd', hreads⟩ := results_of_done hS (hS.workers indexes (List.ne_nil_of_mem hj)) hpage hm hnested
          hdone ((hitems j).mpr hj)
        rw [hd', hreads.unique (hout j hj)]
      have hnext := hrun.nested i (List.getElem?_set_self hlt) hm hnested hdone out hresults
      simp only [List.set_set] at hnext
      obtain ⟨d', memory, hmemory, hrest⟩ := ih hread (congrFun hk (indexes.map out)) page
        { p with workers := p.workers.set i (.busy item (k' (indexes.map out))) } i (List.getElem?_set_self hlt) hm
      refine ⟨d', memory, hmemory, hnext.trans ?_⟩
      simpa only [List.set_set] using hrest

/-- Wherever the workers are, they can finish a page whose items can be read. -/
theorem Inv.exists_done (hS : Lawful S Good) (hpage : ∀ item, (page.read item).answered S.db = (S.read item).answered S.db)
    (hinv : Inv S Good page p) (hreads : ∀ item ∈ page.items, ∃ d, Reads S.db S.read (S.read item) d) :
    ∃ q, Run S Good page p q ∧ Done q := by
  refine SharedPool.exists_done page p hS hinv.memory (fun item r hmem => ?_) fun item hitem => ?_
  · obtain ⟨hitem, hiff⟩ := hinv.busy item r hmem
    obtain ⟨d, hd⟩ := hreads item hitem
    exact returns_of_reads hS ((hiff d).mpr hd) hd rfl
  · obtain ⟨d, hd⟩ := hreads item hitem
    exact returns_of_reads hS hd hd (hpage item)

end SharedPool
