import Mathlib.Order.MinMax
import Mathlib.Data.List.Induction
import Mathlib.Logic.Function.Basic

/-! # INSERT … ON DUPLICATE KEY UPDATE

    A statement is the list of its assignments, run from left to right: each one reads the row that
    was delivered and the local row as the assignments before it left it. Three disciplines make the
    outcome of many deliveries independent of their order: a gate that takes the newer version whole,
    a column that only rises, and a column that keeps its first value. -/

namespace OnDuplicate

variable {ρ γ κ α : Type*}

/-- `column = expression`, on the delivered row and the local one. -/
abbrev Assignment (ρ : Type*) := ρ → ρ → ρ

/-- The local row after the assignments of a statement. -/
def assign (sets : List (Assignment ρ)) (values row : ρ) : ρ :=
  sets.foldl (fun row set => set values row) row

/-- `column = IF(gate, expression, column)`. -/
def gated (gate : ρ → ρ → Bool) (set : Assignment ρ) : Assignment ρ := fun values row =>
  if gate values row then set values row else row

/-- A delivery to a key: it is inserted where no row stands, and else the assignments run. -/
def upsert (sets : List (Assignment ρ)) (row : Option ρ) (values : ρ) : Option ρ :=
  some (row.elim values (assign sets values))

@[simp] theorem assign_nil (values row : ρ) : assign [] values row = row := rfl

@[simp] theorem assign_cons (set : Assignment ρ) (sets : List (Assignment ρ)) (values row : ρ) :
    assign (set :: sets) values row = assign sets values (set values row) := rfl

theorem assign_append (sets sets' : List (Assignment ρ)) (values row : ρ) :
    assign (sets ++ sets') values row = assign sets' values (assign sets values row) :=
  List.foldl_append ..

/-- A column no assignment of the list writes. -/
theorem assign_frame {sets : List (Assignment ρ)} (f : ρ → γ)
    (hf : ∀ set ∈ sets, ∀ values row, f (set values row) = f row) (values row : ρ) :
    f (assign sets values row) = f row := by
  induction sets generalizing row with
  | nil => rfl
  | cons set sets ih =>
    rw [assign_cons, ih fun s hs => hf s (List.mem_cons_of_mem _ hs)]
    exact hf set List.mem_cons_self values row

/-- A gate stays open through assignments none of which shuts it. -/
theorem gate_assign {gate : ρ → ρ → Bool} {sets : List (Assignment ρ)}
    (hg : ∀ set ∈ sets, ∀ values row, gate values row = true →
      gate values (set values row) = true) {values row : ρ} (hgate : gate values row = true) :
    gate values (assign sets values row) = true := by
  induction sets generalizing row with
  | nil => exact hgate
  | cons set sets ih =>
    exact ih (fun s hs => hg s (List.mem_cons_of_mem _ hs)) (hg set List.mem_cons_self _ _ hgate)

/-- A gate that holds for a delivery holds for every column when no assignment shuts it for the
    next one, so the statement takes the delivered columns, all of them or none. -/
theorem assign_gated {gate : ρ → ρ → Bool} {sets : List (Assignment ρ)}
    (hg : ∀ set ∈ sets, ∀ values row, gate values row = true →
      gate values (set values row) = true) (values row : ρ) :
    assign (sets.map (gated gate)) values row =
      if gate values row then assign sets values row else row := by
  induction sets generalizing row with
  | nil => simp
  | cons set sets ih =>
    have ih := ih fun s hs => hg s (List.mem_cons_of_mem _ hs)
    rw [List.map_cons, assign_cons, ih]
    by_cases hgate : gate values row = true
    · simp only [gated, hgate, if_true, hg set List.mem_cons_self values row hgate, assign_cons]
    · simp only [gated, hgate, Bool.false_eq_true, if_false]

/-- The last assignment may shut the gate behind it. -/
theorem assign_gated_concat {gate : ρ → ρ → Bool} {sets : List (Assignment ρ)}
    (hg : ∀ set ∈ sets, ∀ values row, gate values row = true →
      gate values (set values row) = true) (last : Assignment ρ) (values row : ρ) :
    assign ((sets ++ [last]).map (gated gate)) values row =
      if gate values row then assign (sets ++ [last]) values row else row := by
  rw [List.map_append, assign_append, assign_gated hg, assign_append]
  by_cases hgate : gate values row = true
  · have hopen := gate_assign hg hgate
    simp only [hgate, if_true, List.map_cons, List.map_nil, assign_cons, assign_nil, gated, hopen]
  · simp only [hgate, Bool.false_eq_true, if_false, List.map_cons, List.map_nil, assign_cons,
      assign_nil, gated]

/-! ### A statement of several rows -/

section Rows

variable [DecidableEq κ] {sets : List (Assignment ρ)}

/-- One row of a statement: an upsert at the row's key. -/
def put (key : ρ → κ) (sets : List (Assignment ρ)) (t : κ → Option ρ) (values : ρ) : κ → Option ρ :=
  Function.update t (key values) (upsert sets (t (key values)) values)

/-- At a key the rows of that key run, one after the other. -/
theorem foldl_put_apply (key : ρ → κ) (t : κ → Option ρ) (vs : List ρ) (k : κ) :
    vs.foldl (put key sets) t k = (vs.filter fun v => key v = k).foldl (upsert sets) (t k) := by
  induction vs generalizing t with
  | nil => rfl
  | cons v vs ih =>
    rw [List.foldl_cons, ih, put]
    by_cases hk : key v = k
    · subst hk
      rw [Function.update_self, List.filter_cons_of_pos (by simp), List.foldl_cons]
    · rw [Function.update_of_ne (Ne.symm hk), List.filter_cons_of_neg (by simpa using hk)]

variable {takes : ρ → Bool} {merge : ρ → ρ → ρ}

/-- Rows that are taken whole or not at all, whatever stands at their key, leave the same behind when they
    run once more. -/
theorem foldl_upsert_again (hsets : ∀ v row, assign sets v row = if takes v then merge v row else row)
    (hmerge : ∀ v w row, merge v (merge w row) = merge v row) (hself : ∀ v, merge v v = v) (vs : List ρ)
    (row : Option ρ) :
    vs.foldl (upsert sets) (vs.foldl (upsert sets) row) = vs.foldl (upsert sets) row := by
  have hput (row v : ρ) : upsert sets (some row) v = some (if takes v then merge v row else row) :=
    congrArg some (hsets v row)
  -- what runs over a row that is there changes it by merges only
  have hmerged (vs : List ρ) (row : ρ) :
      ∃ row', vs.foldl (upsert sets) (some row) = some row' ∧ ∀ v, merge v row' = merge v row := by
    induction vs generalizing row with
    | nil => exact ⟨row, rfl, fun _ => rfl⟩
    | cons v vs ih =>
      rw [List.foldl_cons, hput]
      obtain ⟨row', hrow', hsame⟩ := ih (if takes v then merge v row else row)
      refine ⟨row', hrow', fun w => (hsame w).trans ?_⟩
      split_ifs
      · exact hmerge w v row
      · rfl
  induction vs using List.reverseRecOn with
  | nil => rfl
  | append_singleton vs v ih =>
    rw [List.foldl_append, List.foldl_append, List.foldl_cons, List.foldl_nil, List.foldl_cons, List.foldl_nil]
    generalize hfirst : vs.foldl (upsert sets) row = first at ih ⊢
    cases first with
    | none =>
      obtain rfl : vs = [] := by
        cases vs with
        | nil => rfl
        | cons w vs =>
          obtain ⟨row', hrow', -⟩ := hmerged vs (row.elim w (assign sets w))
          rw [List.foldl_cons, upsert, hrow'] at hfirst
          cases hfirst
      have hv : upsert sets none v = some v := rfl
      rw [List.foldl_nil, hv, hput, hself, ite_self]
    | some row₀ =>
      rw [hput]
      by_cases htakes : takes v = true
      · rw [if_pos htakes]
        obtain ⟨row', hrow', hsame⟩ := hmerged vs (merge v row₀)
        rw [hrow', hput, if_pos htakes, hsame, hmerge]
      · rw [if_neg htakes, ih, hput, if_neg htakes]

/-- A statement of rows that ran is one of upserts, whatever table it runs over. -/
theorem exists_foldl_put {β : Type*} {key : ρ → κ} {f : β → Option ρ} {l : List β} {t t' : κ → Option ρ}
    (h : l.foldlM (fun t b => (f b).map (put key sets t)) t = some t') :
    ∃ vs : List ρ, ∀ t, l.foldlM (fun t b => (f b).map (put key sets t)) t = some (vs.foldl (put key sets) t) := by
  induction l generalizing t with
  | nil => exact ⟨[], fun _ => rfl⟩
  | cons b l ih =>
    rw [List.foldlM_cons] at h
    cases hv : f b with
    | none =>
      rw [hv] at h
      cases h
    | some v =>
      rw [hv] at h
      obtain ⟨vs, hvs⟩ := ih h
      refine ⟨v :: vs, fun t => ?_⟩
      rw [List.foldlM_cons, hv, List.foldl_cons]
      exact hvs _

/-- So is a statement of such rows. -/
theorem foldlM_put_again {β : Type*} {key : ρ → κ} {f : β → Option ρ} {l : List β} {t t' : κ → Option ρ}
    (hsets : ∀ v row, assign sets v row = if takes v then merge v row else row)
    (hmerge : ∀ v w row, merge v (merge w row) = merge v row) (hself : ∀ v, merge v v = v)
    (h : l.foldlM (fun t b => (f b).map (put key sets t)) t = some t') :
    l.foldlM (fun t b => (f b).map (put key sets t)) t' = some t' := by
  obtain ⟨vs, hvs⟩ := exists_foldl_put h
  rw [hvs] at h ⊢
  cases h
  congr 1
  funext k
  rw [foldl_put_apply, foldl_put_apply, foldl_upsert_again hsets hmerge hself]

end Rows

/-! ### Many deliveries -/

variable {deliver : ρ → ρ → ρ}

theorem foldl_frame (column : ρ → γ) (hd : ∀ row values, column (deliver row values) = column row)
    (first : ρ) (vs : List ρ) : column (vs.foldl deliver first) = column first := by
  induction vs generalizing first with
  | nil => rfl
  | cons v vs ih => exact (ih _).trans (hd first v)

/-- A column that takes the newer version whole holds one of the versions delivered, and none of
    them is newer. -/
theorem foldl_newest [LinearOrder κ] (content : ρ → γ) (key : γ → κ)
    (hd : ∀ row values, content (deliver row values) =
      if key (content row) ≤ key (content values) then content values else content row)
    (first : ρ) (vs : List ρ) :
    (∃ v ∈ first :: vs, content (vs.foldl deliver first) = content v) ∧
      ∀ v ∈ first :: vs, key (content v) ≤ key (content (vs.foldl deliver first)) := by
  induction vs generalizing first with
  | nil => simp
  | cons v vs ih =>
    obtain ⟨⟨u, hu, hmem⟩, hmax⟩ := ih (deliver first v)
    have hhead := hmax _ List.mem_cons_self
    rw [List.foldl_cons]
    rw [hd] at hhead
    refine ⟨?_, fun u hu => ?_⟩
    · rcases List.mem_cons.mp hu with rfl | hu
      · rw [hmem, hd]
        split_ifs
        · exact ⟨v, by simp, rfl⟩
        · exact ⟨first, by simp, rfl⟩
      · exact ⟨u, by simp [hu], hmem⟩
    · rcases List.mem_cons.mp hu with rfl | hu
      · split_ifs at hhead with hle
        · exact hle.trans hhead
        · exact hhead
      · rcases List.mem_cons.mp hu with rfl | hu
        · split_ifs at hhead with hle
          · exact hhead
          · exact (le_of_not_ge hle).trans hhead
        · exact hmax u (List.mem_cons_of_mem _ hu)

/-- A column that only rises stands at the highest value delivered. -/
theorem foldl_highest [LinearOrder κ] (column : ρ → κ)
    (hd : ∀ row values, column (deliver row values) = max (column row) (column values))
    (first : ρ) (vs : List ρ) :
    (∃ v ∈ first :: vs, column (vs.foldl deliver first) = column v) ∧
      ∀ v ∈ first :: vs, column v ≤ column (vs.foldl deliver first) := by
  refine foldl_newest column id (fun row values => ?_) first vs
  rw [hd]
  split_ifs with hle
  · exact max_eq_right hle
  · exact max_eq_left (le_of_not_ge hle)

/-- A column that keeps its first value holds a value delivered, and holds one as soon as one was
    delivered. -/
theorem foldl_first (column : ρ → Option α)
    (hd : ∀ row values, column (deliver row values) = (column row).or (column values))
    (first : ρ) (vs : List ρ) :
    (∀ x, column (vs.foldl deliver first) = some x → ∃ v ∈ first :: vs, column v = some x) ∧
      ∀ v ∈ first :: vs, column v ≠ none → column (vs.foldl deliver first) ≠ none := by
  induction vs generalizing first with
  | nil => simp
  | cons v vs ih =>
    obtain ⟨hmem, hsome⟩ := ih (deliver first v)
    rw [List.foldl_cons]
    refine ⟨fun x hx => ?_, fun u hu hne => ?_⟩
    · obtain ⟨u, hu, hcol⟩ := hmem x hx
      rcases List.mem_cons.mp hu with rfl | hu
      · rw [hd] at hcol
        rcases Option.or_eq_some_iff.mp hcol with h | ⟨-, h⟩
        · exact ⟨first, by simp, h⟩
        · exact ⟨v, by simp, h⟩
      · exact ⟨u, by simp [hu], hcol⟩
    · have hhead : column (deliver first v) ≠ none → column (vs.foldl deliver (deliver first v)) ≠ none :=
        hsome _ List.mem_cons_self
      rw [hd, Ne, Option.or_eq_none_iff] at hhead
      rcases List.mem_cons.mp hu with rfl | hu
      · exact hhead fun h => hne h.1
      rcases List.mem_cons.mp hu with rfl | hu
      · exact hhead fun h => hne h.2
      · exact hsome u (List.mem_cons_of_mem _ hu) hne

/-! ### Deliveries and fenced deletions -/

/-- What reaches a key: a version to write, or a deletion that takes the rows it dooms. -/
inductive Delivery (ρ : Type*) where
  | put (values : ρ)
  | delete (doomed : ρ → Bool)

def Delivery.step (deliver : ρ → ρ → ρ) (row : Option ρ) : Delivery ρ → Option ρ
  | put values => some (row.elim values fun row => deliver row values)
  | delete doomed => row.filter fun row => !doomed row

section fence
variable [LinearOrder κ] {stamp : ρ → κ} {content : ρ → γ}

/-- A row that is no newer than `g`, and has its content where it is as new. -/
def Behind (stamp : ρ → κ) (content : ρ → γ) (g row : ρ) : Prop :=
  stamp row ≤ stamp g ∧ (stamp row = stamp g → content row = content g)

/-- A row as new as `g` that has its content stands at the key. -/
def Holds (stamp : ρ → κ) (content : ρ → γ) (g : ρ) (row : Option ρ) : Prop :=
  ∃ r, row = some r ∧ stamp r = stamp g ∧ content r = content g

/-- Over a row that stands, the stamp rises to the delivered one and the content is that of the newer
    of the two. -/
structure Follows (stamp : ρ → κ) (content : ρ → γ) (deliver : ρ → ρ → ρ) (values : ρ) : Prop where
  stamp_eq : ∀ row, stamp (deliver row values) = max (stamp row) (stamp values)
  newer : ∀ row, stamp row < stamp values → content (deliver row values) = content values
  older : ∀ row, stamp values < stamp row → content (deliver row values) = content row
  level : ∀ row, stamp values = stamp row →
    content (deliver row values) = content values ∨ content (deliver row values) = content row

/-- What is written is behind `g`, and what is deleted is older. -/
def Delivery.Within (stamp : ρ → κ) (content : ρ → γ) (deliver : ρ → ρ → ρ) (g : ρ) :
    Delivery ρ → Prop
  | put values => Behind stamp content g values ∧ Follows stamp content deliver values
  | delete doomed => ∀ row, doomed row = true → stamp row < stamp g

theorem Follows.behind {g values row : ρ} (hf : Follows stamp content deliver values)
    (hv : Behind stamp content g values) (hr : Behind stamp content g row) :
    Behind stamp content g (deliver row values) := by
  refine ⟨(hf.stamp_eq row).trans_le (max_le hr.1 hv.1), fun heq => ?_⟩
  rw [hf.stamp_eq] at heq
  rcases lt_trichotomy (stamp row) (stamp values) with hlt | hlevel | hlt
  · rw [max_eq_right hlt.le] at heq
    exact (hf.newer row hlt).trans (hv.2 heq)
  · rw [hlevel, max_self] at heq
    rcases hf.level row hlevel.symm with h | h
    · exact h.trans (hv.2 heq)
    · exact h.trans (hr.2 (hlevel.trans heq))
  · rw [max_eq_left hlt.le] at heq
    exact (hf.older row hlt).trans (hr.2 heq)

variable {g : ρ} {row : Option ρ} {d : Delivery ρ}

theorem Delivery.step_behind (hd : d.Within stamp content deliver g)
    (hrow : ∀ r ∈ row, Behind stamp content g r) : ∀ r ∈ d.step deliver row, Behind stamp content g r := by
  intro r hr
  cases d with
  | put values =>
    cases row with
    | none =>
      obtain rfl : values = r := by simpa [step] using hr
      exact hd.1
    | some local_ =>
      obtain rfl : deliver local_ values = r := by simpa [step] using hr
      exact hd.2.behind hd.1 (hrow local_ rfl)
  | delete doomed => exact hrow r (Option.filter_eq_some_iff.mp hr).1

/-- A row behind `g` that is as new holds it. -/
theorem Delivery.step_holds (hd : d.Within stamp content deliver g)
    (hrow : Holds stamp content g row) : Holds stamp content g (d.step deliver row) := by
  obtain ⟨r, rfl, hstamp, hcontent⟩ := hrow
  have hr : Behind stamp content g r := ⟨hstamp.le, fun _ => hcontent⟩
  cases d with
  | put values =>
    have hbehind := hd.2.behind hd.1 hr
    have hlevel : stamp (deliver r values) = stamp g := by
      rw [hd.2.stamp_eq, hstamp, max_eq_left hd.1.1]
    exact ⟨deliver r values, rfl, hlevel, hbehind.2 hlevel⟩
  | delete doomed =>
    have hkept : doomed r = false := by
      by_contra hne
      exact (hd r (by simpa using hne)).ne hstamp
    exact ⟨r, by simp [step, Option.filter, hkept], hstamp, hcontent⟩

theorem Delivery.step_put_holds (hd : (put g).Within stamp content deliver g)
    (hrow : ∀ r ∈ row, Behind stamp content g r) :
    Holds stamp content g ((put g).step deliver row) := by
  cases row with
  | none => exact ⟨g, rfl, rfl, rfl⟩
  | some r =>
    have hr := hrow r rfl
    have hlevel : stamp (deliver r g) = stamp g := by
      rw [hd.2.stamp_eq, max_eq_right hr.1]
    exact ⟨deliver r g, rfl, hlevel, (hd.2.behind hd.1 hr).2 hlevel⟩

theorem foldl_behind {ds : List (Delivery ρ)} (hds : ∀ d ∈ ds, d.Within stamp content deliver g)
    (hrow : ∀ r ∈ row, Behind stamp content g r) :
    ∀ r ∈ ds.foldl (Delivery.step deliver) row, Behind stamp content g r := by
  induction ds generalizing row with
  | nil => exact hrow
  | cons d ds ih =>
    exact ih (fun e he => hds e (List.mem_cons_of_mem _ he))
      (Delivery.step_behind (hds d List.mem_cons_self) hrow)

theorem foldl_holds {ds : List (Delivery ρ)} (hds : ∀ d ∈ ds, d.Within stamp content deliver g)
    (hrow : Holds stamp content g row) :
    Holds stamp content g (ds.foldl (Delivery.step deliver) row) := by
  induction ds generalizing row with
  | nil => exact hrow
  | cons d ds ih =>
    exact ih (fun e he => hds e (List.mem_cons_of_mem _ he))
      (Delivery.step_holds (hds d List.mem_cons_self) hrow)

/-- The newest version stands after every order of deliveries it is among. -/
theorem foldl_put_holds {ds : List (Delivery ρ)}
    (hds : ∀ d ∈ ds, d.Within stamp content deliver g)
    (hrow : ∀ r ∈ row, Behind stamp content g r) (hg : .put g ∈ ds) :
    Holds stamp content g (ds.foldl (Delivery.step deliver) row) := by
  obtain ⟨before, after, rfl⟩ := List.append_of_mem hg
  rw [List.foldl_append, List.foldl_cons]
  have hbefore : ∀ d ∈ before, d.Within stamp content deliver g :=
    fun d hd => hds d (List.mem_append_left _ hd)
  have hafter : ∀ d ∈ after, d.Within stamp content deliver g :=
    fun d hd => hds d (List.mem_append_right _ (List.mem_cons_of_mem _ hd))
  exact foldl_holds hafter (Delivery.step_put_holds (hds _ hg) (foldl_behind hbefore hrow))

end fence

end OnDuplicate
