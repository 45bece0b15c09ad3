import Mathlib.Order.Defs.Unbundled
import Mathlib.Tactic.SplitIfs

/-! # Programs that may stop

    A program runs over a state and returns a value or stops, and the state it leaves is kept either way.
    Two judgements compose along it: a preorder every run stays within, however it ends, and what holds
    where it returned. -/

/-- A program over `σ` that returns an `α` or stops with an `ε`. -/
def Program (σ ε α : Type) := σ → Except ε α × σ

namespace Program

variable {σ ε α β : Type}

instance : Monad (Program σ ε) where
  pure a := fun s => (.ok a, s)
  bind x f := fun s => match x s with
    | (.ok a, s') => f a s'
    | (.error e, s') => (.error e, s')

def raise (e : ε) : Program σ ε α := fun s => (.error e, s)

def modify (f : σ → σ) : Program σ ε Unit := fun s => (.ok (), f s)

/-- `try x catch h`, for the stops that can be caught. -/
def rescue (caught : ε → Bool) (x h : Program σ ε α) : Program σ ε α := fun s => match x s with
  | (.ok a, s') => (.ok a, s')
  | (.error e, s') => if caught e then h s' else (.error e, s')

/-- The body for each element of the list, in order. -/
def each : List β → (β → Program σ ε Unit) → Program σ ε Unit
  | [], _ => pure ()
  | b :: l, f => f b >>= fun _ => each l f

/-- However it ends, the state it leaves is related to the one it began in. -/
def Within (R : σ → σ → Prop) (x : Program σ ε α) : Prop := ∀ s, R s (x s).2

/-- From a state in `P` it returns only to states in `Q`. -/
def Yields (P : σ → Prop) (x : Program σ ε α) (Q : α → σ → Prop) : Prop :=
  ∀ s a s', P s → x s = (.ok a, s') → Q a s'

/-- The relation carries the predicate along. -/
def Stable (R : σ → σ → Prop) (P : σ → Prop) : Prop := ∀ s s', R s s' → P s → P s'

variable {R : σ → σ → Prop} {P P' : σ → Prop} {Q Q' : α → σ → Prop} {x : Program σ ε α}

theorem bind_eq_ok {f : α → Program σ ε β} {s s' : σ} {b : β} (h : (x >>= f) s = (.ok b, s')) :
    ∃ a s₁, x s = (.ok a, s₁) ∧ f a s₁ = (.ok b, s') := by
  change (match x s with
    | (.ok a, s') => f a s'
    | (.error e, s') => (.error e, s')) = _ at h
  rcases hx : x s with ⟨_ | a, s₁⟩
  · rw [hx] at h
    cases h
  · rw [hx] at h
    exact ⟨a, s₁, rfl, h⟩

/-! ### Staying within a relation -/

theorem Within.mono {R' : σ → σ → Prop} (h : ∀ s s', R s s' → R' s s') (hx : Within R x) : Within R' x :=
  fun s => h _ _ (hx s)

theorem within_pure [Std.Refl R] (a : α) : Within R (pure a : Program σ ε α) := fun s => refl_of R s

theorem within_raise [Std.Refl R] (e : ε) : Within R (raise e : Program σ ε α) := fun s => refl_of R s

theorem Within.bind [IsTrans σ R] {f : α → Program σ ε β} (hx : Within R x) (hf : ∀ a, Within R (f a)) :
    Within R (x >>= f) := by
  intro s
  have hfirst := hx s
  change R s (match x s with
    | (.ok a, s') => f a s'
    | (.error e, s') => (.error e, s')).2
  generalize x s = r at hfirst ⊢
  rcases r with ⟨_ | a, s₁⟩
  · exact hfirst
  · exact trans_of R hfirst (hf a s₁)

theorem Within.rescue [IsTrans σ R] {caught : ε → Bool} {h : Program σ ε α} (hx : Within R x)
    (hh : Within R h) : Within R (rescue caught x h) := by
  intro s
  have hfirst := hx s
  rw [Program.rescue]
  generalize x s = r at hfirst ⊢
  rcases r with ⟨e | a, s₁⟩
  · dsimp only
    split_ifs
    · exact trans_of R hfirst (hh s₁)
    · exact hfirst
  · exact hfirst

theorem within_each [Std.Refl R] [IsTrans σ R] {l : List β} {f : β → Program σ ε Unit}
    (h : ∀ b ∈ l, Within R (f b)) : Within R (each l f) := by
  induction l with
  | nil => exact within_pure ()
  | cons b l ih =>
    exact (h b List.mem_cons_self).bind fun _ => ih fun c hc => h c (List.mem_cons_of_mem _ hc)

/-! ### What a return yields -/

theorem Yields.mono (hP : ∀ s, P' s → P s) (hQ : ∀ a s, Q a s → Q' a s) (h : Yields P x Q) :
    Yields P' x Q' :=
  fun s a s' hs hx => hQ a s' (h s a s' (hP s hs) hx)

theorem yields_pure {a : α} (h : ∀ s, P s → Q a s) : Yields P (pure a : Program σ ε α) Q := by
  intro s b s' hs hx
  cases hx
  exact h s hs

theorem yields_raise {e : ε} : Yields P (raise e : Program σ ε α) Q := by
  intro s a s' _ hx
  cases hx

theorem Yields.bind {f : α → Program σ ε β} {S : β → σ → Prop} (hx : Yields P x Q)
    (hf : ∀ a, Yields (Q a) (f a) S) : Yields P (x >>= f) S := by
  intro s b s' hs hrun
  obtain ⟨a, s₁, hfirst, hrest⟩ := bind_eq_ok hrun
  exact hf a s₁ b s' (hx s a s₁ hs hfirst) hrest

theorem yields_exists {ι : Type} {P : ι → σ → Prop} (h : ∀ i, Yields (P i) x Q) :
    Yields (fun s => ∃ i, P i s) x Q :=
  fun s a s' ⟨i, hs⟩ hx => h i s a s' hs hx

theorem yields_and {p : Prop} (h : p → Yields P x Q) : Yields (fun s => p ∧ P s) x Q :=
  fun s a s' hs hx => h hs.1 s a s' hs.2 hx

theorem Yields.rescue {caught : ε → Bool} {h : Program σ ε α} (hx : Yields P x Q)
    (hstop : ∀ s, P s → ∀ e s', x s = (.error e, s') → P' s') (hh : Yields P' h Q) :
    Yields P (rescue caught x h) Q := by
  intro s a s' hs hrun
  rw [Program.rescue] at hrun
  rcases hx' : x s with ⟨e | b, s₁⟩
  · rw [hx'] at hrun
    dsimp only at hrun
    split_ifs at hrun
    · exact hh s₁ a s' (hstop s hs e s₁ hx') hrun
    · cases hrun
  · rw [hx'] at hrun
    cases hrun
    exact hx _ _ _ hs hx'

/-- What is carried along holds behind the program too. -/
theorem Yields.and_stable {I : σ → Prop} (hR : Within R x) (hI : Stable R I) (h : Yields P x Q) :
    Yields (fun s => P s ∧ I s) x fun a s => Q a s ∧ I s := by
  intro s a s' hs hx
  have hmove := hR s
  rw [hx] at hmove
  exact ⟨h s a s' hs.1 hx, hI s s' hmove hs.2⟩

/-- A loop leaves behind what each of its rounds does, where the rounds after it keep that. -/
theorem yields_each {l : List β} {f : β → Program σ ε Unit} {post : β → σ → Prop} {R : β → σ → σ → Prop}
    (hkept : l.Pairwise fun b c => Stable (R c) (post b)) (hR : ∀ b ∈ l, Within (R b) (f b))
    (h : ∀ b ∈ l, Yields P (f b) fun _ s => P s ∧ post b s) :
    Yields P (each l f) fun _ s => P s ∧ ∀ b ∈ l, post b s := by
  induction l generalizing P with
  | nil => exact yields_pure fun s hs => ⟨hs, List.forall_mem_nil _⟩
  | cons b l ih =>
    obtain ⟨hb, hkept⟩ := List.pairwise_cons.mp hkept
    have htail := ih hkept (fun c hc => hR c (List.mem_cons_of_mem _ hc)) 
      fun c hc => ((h c (List.mem_cons_of_mem _ hc)).and_stable (hR c (List.mem_cons_of_mem _ hc))
        (hb c hc)).mono (fun _ hs => hs) fun _ _ hs => ⟨⟨hs.1.1, hs.2⟩, hs.1.2⟩
    refine (h b List.mem_cons_self).bind fun _ => htail.mono (fun _ hs => hs) fun _ s hs => ?_
    exact ⟨hs.1.1, List.forall_mem_cons.mpr ⟨hs.1.2, hs.2⟩⟩

end Program
