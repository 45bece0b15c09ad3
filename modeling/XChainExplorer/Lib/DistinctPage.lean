import XChainExplorer.Lib.Grouping

/-! # Pages of distinct rows, read in two legs

    A listing names some keys one after the other, and for each of them its rows, all of them perhaps
    more than once. A page of the distinct rows can be read in two legs: the keys on a page of the
    listing as it stands, and then the rows of these keys. Where the keys on that page are different the
    two agree just when nothing stands twice in front of the page, the page begins at a key, and each of
    its keys has one row. -/

namespace DistinctPage

variable {τ α : Type*} {key : τ → α} {rowsOf listed : α → List τ} {ids : List α} {offset limit : ℕ} {t x : τ} {a : α}

/-- `LIMIT limit OFFSET offset`. -/
def page (offset limit : ℕ) (l : List τ) : List τ := (l.drop offset).take limit

/-- The rows of a key, and what the listing holds of them: all of them, some times over. -/
structure Lists (key : τ → α) (rowsOf listed : α → List τ) (ids : List α) : Prop where
  nodup : ids.Nodup
  key_eq : ∀ a ∈ ids, ∀ t ∈ rowsOf a, key t = a
  ne_nil : ∀ a ∈ ids, rowsOf a ≠ []
  times : ∀ a ∈ ids, ∃ n, listed a = (List.replicate (n + 1) (rowsOf a)).flatten

theorem Lists.tail (h : Lists key rowsOf listed (a :: ids)) : Lists key rowsOf listed ids where
  nodup := (List.nodup_cons.mp h.nodup).2
  key_eq b hb := h.key_eq b (List.mem_cons_of_mem _ hb)
  ne_nil b hb := h.ne_nil b (List.mem_cons_of_mem _ hb)
  times b hb := h.times b (List.mem_cons_of_mem _ hb)

theorem Lists.mem_listed (h : Lists key rowsOf listed ids) (ha : a ∈ ids) : t ∈ listed a ↔ t ∈ rowsOf a := by
  obtain ⟨n, hn⟩ := h.times a ha
  rw [hn, List.mem_flatten]
  constructor
  · rintro ⟨l, hl, ht⟩
    exact List.eq_of_mem_replicate hl ▸ ht
  · exact fun ht => ⟨_, List.mem_replicate.mpr ⟨n.succ_ne_zero, rfl⟩, ht⟩

theorem Lists.key_of_listed (h : Lists key rowsOf listed ids) (ha : a ∈ ids) (ht : t ∈ listed a) : key t = a :=
  h.key_eq a ha t ((h.mem_listed ha).mp ht)

theorem Lists.key_mem (h : Lists key rowsOf listed ids) (ht : t ∈ ids.flatMap listed) : key t ∈ ids := by
  obtain ⟨a, ha, hta⟩ := List.mem_flatMap.mp ht
  exact (h.key_of_listed ha hta).symm ▸ ha

/-- A key is listed from the first of its rows on. -/
theorem Lists.head (h : Lists key rowsOf listed ids) (ha : a ∈ ids) :
    ∃ t rest rest', rowsOf a = t :: rest ∧ listed a = t :: rest' := by
  obtain ⟨t, rest, hrows⟩ := List.exists_cons_of_ne_nil (h.ne_nil a ha)
  obtain ⟨n, hn⟩ := h.times a ha
  refine ⟨t, rest, rest ++ (List.replicate n (rowsOf a)).flatten, hrows, ?_⟩
  rw [hn, List.replicate_succ, List.flatten_cons, hrows, List.cons_append]

theorem Lists.length_le (h : Lists key rowsOf listed ids) (ha : a ∈ ids) :
    (rowsOf a).length ≤ (listed a).length := by
  obtain ⟨n, hn⟩ := h.times a ha
  rw [hn, List.replicate_succ, List.flatten_cons, List.length_append]
  exact Nat.le_add_right _ _

/-- Rows of the first key are not rows of the others. -/
theorem Lists.disjoint (h : Lists key rowsOf listed (a :: ids)) (ht : t ∈ listed a) : t ∉ ids.flatMap listed := by
  intro hmem
  have hkey := h.tail.key_mem hmem
  rw [h.key_of_listed List.mem_cons_self ht] at hkey
  exact (List.nodup_cons.mp h.nodup).1 hkey

/-- A page of different keys, each with its one row or with more, is no longer than its rows. -/
theorem length_le_flatMap {l : List τ} (hne : ∀ y ∈ l, rowsOf (key y) ≠ []) :
    l.length ≤ (l.flatMap fun y => rowsOf (key y)).length := by
  induction l with
  | nil => simp
  | cons y l ih =>
    have hy := List.length_pos_iff.mpr (hne y List.mem_cons_self)
    have hl := ih fun z hz => hne z (List.mem_cons_of_mem _ hz)
    rw [List.flatMap_cons, List.length_append, List.length_cons]
    omega

theorem one_of_length_flatMap {l : List τ} (hne : ∀ y ∈ l, rowsOf (key y) ≠ [])
    (hle : (l.flatMap fun y => rowsOf (key y)).length ≤ l.length) : ∀ y ∈ l, (rowsOf (key y)).length = 1 := by
  induction l with
  | nil => simp
  | cons y l ih =>
    have hy := List.length_pos_iff.mpr (hne y List.mem_cons_self)
    have hne' : ∀ z ∈ l, rowsOf (key z) ≠ [] := fun z hz => hne z (List.mem_cons_of_mem _ hz)
    have hl := length_le_flatMap hne'
    rw [List.flatMap_cons, List.length_append, List.length_cons] at hle
    intro z hz
    rcases List.mem_cons.mp hz with rfl | hz
    · omega
    · exact ih hne' (by omega) z hz

theorem Lists.rows_ne_nil (h : Lists key rowsOf listed ids) (ht : t ∈ ids.flatMap listed) : rowsOf (key t) ≠ [] :=
  h.ne_nil _ (h.key_mem ht)

/-- Two legs that begin with a row that the distinct rows passed before do not agree. -/
theorem legs_ne {l rows : List τ} {m : ℕ} (hnd : rows.Nodup) (hle : m ≤ offset) (hx : l.head? = some x)
    (ht : (rowsOf (key x)).head? = some t) (hpassed : t ∈ rows.take m) :
    l.flatMap (fun y => rowsOf (key y)) ≠ page offset limit rows := by
  intro heq
  have hmem : t ∈ l.flatMap fun y => rowsOf (key y) :=
    List.mem_flatMap.mpr ⟨x, List.mem_of_head? hx, List.mem_of_head? ht⟩
  rw [heq] at hmem
  exact List.disjoint_take_drop hnd hle hpassed (List.mem_of_mem_take hmem)

/-! ### The distinct rows -/

section distinct

variable [DecidableEq τ]

theorem length_eraseDups_le (l : List τ) : l.eraseDups.length ≤ l.length :=
  ((Grouping.nodup_eraseDups l).subperm fun _ ht => List.mem_eraseDups.mp ht).length_le

theorem eraseDups_of_nodup {l : List τ} (h : l.Nodup) : l.eraseDups = l := by
  induction l with
  | nil => rfl
  | cons t l ih =>
    obtain ⟨ht, hl⟩ := List.nodup_cons.mp h
    have hkeep : l.filter (fun b => !b == t) = l :=
      List.filter_eq_self.mpr fun b hb => by
        have hne : b ≠ t := fun heq => ht (heq ▸ hb)
        simpa using hne
    rw [List.eraseDups_cons, hkeep, ih hl]

theorem length_eraseDups_lt {l : List τ} (h : ¬ l.Nodup) : l.eraseDups.length < l.length := by
  have hsub := (Grouping.nodup_eraseDups l).subperm fun _ ht => List.mem_eraseDups.mp ht
  refine Nat.lt_of_le_of_ne hsub.length_le fun hlen => h ?_
  exact (hsub.perm_of_length_le (Nat.le_of_eq hlen.symm)).nodup_iff.mp (Grouping.nodup_eraseDups l)

/-- A key with one row has it listed and nothing else. -/
theorem Lists.eraseDups_listed (h : Lists key rowsOf listed ids) (ha : a ∈ ids) (hrows : rowsOf a = [t]) :
    (listed a).eraseDups = [t] := by
  obtain ⟨t', rest, rest', hrows', hlisted⟩ := h.head ha
  rw [hrows] at hrows'
  obtain ⟨rfl, -⟩ := List.cons.inj hrows'
  have hnone : rest'.filter (fun b => !b == t) = [] := by
    refine List.filter_eq_nil_iff.mpr fun b hb => ?_
    have hb : b ∈ rowsOf a := (h.mem_listed ha).mp (hlisted ▸ List.mem_cons_of_mem _ hb)
    rw [hrows, List.mem_singleton] at hb
    simp [hb]
  rw [hlisted, List.eraseDups_cons, hnone, List.eraseDups_nil]

/-- The distinct rows are the distinct rows of one key after the other. -/
theorem Lists.eraseDups_cons (h : Lists key rowsOf listed (a :: ids)) :
    ((a :: ids).flatMap listed).eraseDups = (listed a).eraseDups ++ (ids.flatMap listed).eraseDups := by
  rw [List.flatMap_cons, List.eraseDups_append, List.removeAll, List.filter_eq_self.mpr]
  intro t ht
  simpa using fun hta => h.disjoint hta ht

/-- Where the listing stands at a row, the distinct rows have come at least to the first row of its key. -/
theorem Lists.head_mem_take (h : Lists key rowsOf listed ids) (hx : (ids.flatMap listed)[offset]? = some x) :
    ∃ t, (rowsOf (key x)).head? = some t ∧ t ∈ (ids.flatMap listed).eraseDups.take (offset + 1) := by
  induction ids generalizing offset with
  | nil => simp at hx
  | cons a ids ih =>
    rw [h.eraseDups_cons]
    rw [List.flatMap_cons] at hx
    have ha : a ∈ a :: ids := List.mem_cons_self
    by_cases hin : offset < (listed a).length
    · rw [List.getElem?_append_left hin] at hx
      obtain ⟨t, rest, rest', hrows, hlisted⟩ := h.head ha
      refine ⟨t, ?_, ?_⟩
      · rw [h.key_of_listed ha (List.mem_of_getElem? hx), hrows, List.head?_cons]
      · rw [hlisted, List.eraseDups_cons, List.cons_append, List.take_succ_cons]
        exact List.mem_cons_self
    · rw [List.getElem?_append_right (by omega)] at hx
      obtain ⟨t, hhead, ht⟩ := ih h.tail hx
      refine ⟨t, hhead, ?_⟩
      have hlen := length_eraseDups_le (listed a)
      rw [List.take_append]
      refine List.mem_append_right _ (List.take_subset_take_left _ ?_ ht)
      omega

/-! ### A page from the start of the listing -/

/-- The page's rows and the distinct rows begin alike as long as each key has one row. -/
theorem Lists.flatMap_take (h : Lists key rowsOf listed ids)
    (hkeys : (((ids.flatMap listed).take limit).map key).Nodup)
    (hone : ∀ y ∈ (ids.flatMap listed).take limit, (rowsOf (key y)).length = 1) :
    ((ids.flatMap listed).take limit).flatMap (fun y => rowsOf (key y)) = (ids.flatMap listed).eraseDups.take limit := by
  induction ids generalizing limit with
  | nil => simp
  | cons a ids ih =>
    cases limit with
    | zero => simp
    | succ limit =>
      have ha : a ∈ a :: ids := List.mem_cons_self
      obtain ⟨t, rest, rest', hrows, hlisted⟩ := h.head ha
      have hkey : key t = a := h.key_of_listed ha (hlisted ▸ List.mem_cons_self)
      rw [h.eraseDups_cons]
      rw [List.flatMap_cons, hlisted, List.cons_append, List.take_succ_cons] at hkeys hone ⊢
      have hsingle : rowsOf a = [t] := by
        have := hone t List.mem_cons_self
        rw [hkey, hrows, List.length_cons, Nat.add_eq_right, List.length_eq_zero_iff] at this
        rw [hrows, this]
      have hnone : limit = 0 ∨ rest' = [] := by
        rcases limit with _ | limit
        · exact Or.inl rfl
        · refine Or.inr ?_
          rcases rest' with _ | ⟨t', rest'⟩
          · rfl
          · -- a second copy would stand on the page with the same key
            have ht' : key t' = a := h.key_of_listed ha (by rw [hlisted]; simp)
            rw [List.cons_append, List.take_succ_cons, List.map_cons, List.map_cons, hkey, ht'] at hkeys
            exact absurd List.mem_cons_self (List.nodup_cons.mp hkeys).1
      rw [List.flatMap_cons, hkey, hsingle, ← hlisted, h.eraseDups_listed ha hsingle, List.singleton_append,
        List.singleton_append, List.take_succ_cons]
      rcases hnone with rfl | rfl
      · simp
      · rw [List.nil_append] at hkeys hone ⊢
        refine congrArg (t :: ·) (ih h.tail ?_ fun y hy => hone y (List.mem_cons_of_mem _ hy))
        rw [List.map_cons] at hkeys
        exact (List.nodup_cons.mp hkeys).2

theorem Lists.first_page_iff (h : Lists key rowsOf listed ids)
    (hkeys : (((ids.flatMap listed).take limit).map key).Nodup) :
    ((ids.flatMap listed).take limit).flatMap (fun y => rowsOf (key y)) = (ids.flatMap listed).eraseDups.take limit ↔
      ∀ y ∈ (ids.flatMap listed).take limit, (rowsOf (key y)).length = 1 := by
  refine ⟨fun heq => ?_, h.flatMap_take hkeys⟩
  by_cases hall : (ids.flatMap listed).length ≤ limit
  · -- the page is the whole listing, so no key is listed twice
    rw [List.take_of_length_le hall] at hkeys ⊢
    intro y hy
    have ha := h.key_mem hy
    have hsub : ((listed (key y)).map key).Sublist ((ids.flatMap listed).map key) :=
      (List.sublist_flatten_of_mem (List.mem_map_of_mem ha)).map key
    obtain ⟨t, rest, rest', hrows, hlisted⟩ := h.head ha
    have hnodup := hkeys.sublist hsub
    have hlen := h.length_le ha
    rcases rest' with _ | ⟨t', rest'⟩
    · rw [hlisted, hrows, List.length_singleton, List.length_cons] at hlen
      rw [hrows, List.length_cons]
      omega
    · have ht : key t = key y := h.key_of_listed ha (by simp [hlisted])
      have ht' : key t' = key y := h.key_of_listed ha (by simp [hlisted])
      rw [hlisted, List.map_cons, List.map_cons, ht, ht'] at hnodup
      exact absurd List.mem_cons_self (List.nodup_cons.mp hnodup).1
  · have hne : ∀ y ∈ (ids.flatMap listed).take limit, rowsOf (key y) ≠ [] :=
      fun y hy => h.rows_ne_nil (List.mem_of_mem_take hy)
    refine one_of_length_flatMap hne ?_
    rw [heq, List.length_take, List.length_take]
    omega

/-! ### Any page -/

/-- The two legs agree on a page of different keys just when the listing in front of it holds nothing
    twice and nothing of a key of the page, and each key of the page has one row. -/
theorem Lists.two_legs_iff (h : Lists key rowsOf listed ids) (hne : page offset limit (ids.flatMap listed) ≠ [])
    (hkeys : ((page offset limit (ids.flatMap listed)).map key).Nodup) :
    (page offset limit (ids.flatMap listed)).flatMap (fun y => rowsOf (key y)) =
        page offset limit (ids.flatMap listed).eraseDups ↔
      ((ids.flatMap listed).take offset).Nodup ∧
      (∀ x ∈ (ids.flatMap listed).take offset, ∀ y ∈ page offset limit (ids.flatMap listed), key x ≠ key y) ∧
      ∀ y ∈ page offset limit (ids.flatMap listed), (rowsOf (key y)).length = 1 := by
  induction ids generalizing offset with
  | nil => exact absurd (by simp [page]) hne
  | cons a ids ih =>
    have ha : a ∈ a :: ids := List.mem_cons_self
    have hnd := Grouping.nodup_eraseDups ((a :: ids).flatMap listed)
    obtain ⟨x, hx⟩ : ∃ x, (page offset limit ((a :: ids).flatMap listed)).head? = some x :=
      Option.isSome_iff_exists.mp (List.isSome_head?.mpr hne)
    have hpage : x ∈ page offset limit ((a :: ids).flatMap listed) := List.mem_of_head? hx
    have hget : ((a :: ids).flatMap listed)[offset]? = some x := by
      cases limit with
      | zero => simp [page] at hx
      | succ limit => rwa [page, List.head?_take, if_neg (Nat.succ_ne_zero _), List.head?_drop] at hx
    rcases Nat.lt_or_ge offset (listed a).length with hin | hout
    · have hkey : key x = a := by
        rw [List.flatMap_cons, List.getElem?_append_left hin] at hget
        exact h.key_of_listed ha (List.mem_of_getElem? hget)
      rcases Nat.eq_zero_or_pos offset with rfl | hpos
      · -- the page begins the listing
        have hkeys' : ((((a :: ids).flatMap listed).take limit).map key).Nodup := by simpa [page] using hkeys
        simpa [page] using h.first_page_iff hkeys'
      · -- the page begins inside its first key
        obtain ⟨t, rest, rest', hrows, hlisted⟩ := h.head ha
        refine iff_of_false (legs_ne hnd hpos hx (by rw [hkey, hrows, List.head?_cons]) (t := t) ?_) ?_
        · rw [h.eraseDups_cons, hlisted, List.eraseDups_cons, List.cons_append, List.take_succ_cons]
          exact List.mem_cons_self
        · rintro ⟨-, hfront, -⟩
          refine hfront t ?_ x hpage ((h.key_of_listed ha (by simp [hlisted])).trans hkey.symm)
          obtain ⟨o, rfl⟩ := Nat.exists_eq_add_of_lt hpos
          rw [List.flatMap_cons, hlisted, List.cons_append, Nat.zero_add, List.take_succ_cons]
          exact List.mem_cons_self
    · -- the page begins behind the first key
      have hsame : page offset limit ((a :: ids).flatMap listed) =
          page (offset - (listed a).length) limit (ids.flatMap listed) := by
        rw [page, List.flatMap_cons, List.drop_append, List.drop_eq_nil_of_le hout, List.nil_append, page]
      have hrest : page offset limit ((a :: ids).flatMap listed).eraseDups =
          page (offset - (listed a).eraseDups.length) limit (ids.flatMap listed).eraseDups := by
        have hle := length_eraseDups_le (listed a)
        rw [page, h.eraseDups_cons, List.drop_append, List.drop_eq_nil_of_le (by omega), List.nil_append, page]
      have hfront : ((a :: ids).flatMap listed).take offset =
          listed a ++ (ids.flatMap listed).take (offset - (listed a).length) := by
        rw [List.flatMap_cons, List.take_append, List.take_of_length_le hout]
      by_cases hdup : (listed a).Nodup
      · rw [eraseDups_of_nodup hdup] at hrest
        rw [hrest, hfront, hsame, ih h.tail (hsame ▸ hne) (hsame ▸ hkeys)]
        have hout' : ∀ x ∈ listed a, ∀ y ∈ page (offset - (listed a).length) limit (ids.flatMap listed),
            key x ≠ key y := by
          intro x hx y hy heq
          have hy' := h.tail.key_mem (List.mem_of_mem_drop (List.mem_of_mem_take hy))
          rw [← heq, h.key_of_listed ha hx] at hy'
          exact (List.nodup_cons.mp h.nodup).1 hy'
        constructor
        · rintro ⟨hnodup, hkeysOut, hone⟩
          refine ⟨List.nodup_append.mpr ⟨hdup, hnodup, ?_⟩, fun x hx => ?_, hone⟩
          · rintro x hx y hy rfl
            exact h.disjoint hx (List.mem_of_mem_take hy)
          · rcases List.mem_append.mp hx with hx | hx
            · exact hout' x hx
            · exact hkeysOut x hx
        · rintro ⟨hnodup, hkeysOut, hone⟩
          exact ⟨(List.nodup_append.mp hnodup).2.1, fun x hx => hkeysOut x (List.mem_append_right _ hx), hone⟩
      · -- a row of the first key stands twice, so the distinct rows are ahead of the listing
        have hlt := length_eraseDups_lt hdup
        rw [List.flatMap_cons, List.getElem?_append_right hout] at hget
        obtain ⟨t, hhead, ht⟩ := h.tail.head_mem_take hget
        refine iff_of_false ?_ fun hright => ?_
        · rw [hrest]
          exact legs_ne (Grouping.nodup_eraseDups _) (by omega) hx hhead ht
        · rw [hfront] at hright
          exact hdup (List.nodup_append.mp hright.1).1

end distinct

end DistinctPage
