import XChainExplorer.Explorer.ListHeads
import XChainExplorer.Lib.Grouping
import XChainExplorer.Lib.JsNumber
import XChainExplorer.Lib.Lru

/-! # Project rosters

    A project is a ticker, its roster the list of tickers that the newest valid link of the project
    pins. The roster page resolves every item of the list to a ticker id. The banner of a token asks
    for the rosters that list it, by up to three spellings of the token. -/

namespace ProjectRosters

open JsNumber ListMembership

/-! ### The tables -/

/-- A text, character by character. -/
abbrev Text := List Char

/-- A row of `index_tickers`. -/
structure Ticker where
  id : ℕ
  tick : Text
  block_index : Option ℕ
  deriving DecidableEq

/-- `index_tickers` in the order of its index on the tick. -/
structure Tickers where
  rows : List Ticker
  unique_id : (rows.map (·.id)).Nodup
  unique_tick : (rows.map (·.tick)).Nodup

/-- The row of an id. -/
def Tickers.byId (t : Tickers) (id : ℕ) : Option Ticker := t.rows.find? fun row => row.id = id

/-- A row of `links`, with its status and coins by name. -/
structure Link where
  action_index : ℕ
  status : String := "valid"
  coin1 : Text
  coin1_action_index : ℕ
  coin2 : Text
  coin2_action_index : ℕ
  deriving DecidableEq

/-- A row of `issues`. -/
structure Issue where
  tick_id : ℕ
  status : String := "valid"

/-- A row of `list_items`. -/
structure ListItem where
  action_index : ℕ
  item_id : ℕ

/-- What the two readers read of a chain. Links, issues and lists hold one row for an action. -/
structure Db where
  tickers : Tickers
  links : List Link
  ordered : (links.map (·.action_index)).Pairwise (· < ·)
  issues : ℕ → Option Issue
  lists : Lists
  listType : ℕ → Option String
  list_items : List ListItem
  tokens : List ℕ

/-- A coin of the explorer: its chain, how JavaScript and the database fold a text to lower case, and
    the keys of its caches. -/
structure Reader where
  db : Db
  chain : Text
  toLowerCase : Text → Text
  LOWER : Text → Text
  cacheKey : Text → Text

/-! ### Tickers by name -/

/-- The two caches of the reader: canonical names and ids, by the text that was asked for. -/
structure Caches where
  tickName : List (Text × Text) := []
  tickId : List (Text × ℕ) := []

/-- The integer of a reference `^<id>`. -/
def referencedId : Text → Option ℕ
  | '^' :: digits => (decimalDigits digits).filter (· < 2 ^ 53)
  | _ => none

/-- The exact spelling, or else one that is equal up to case. -/
def Reader.findTicker (r : Reader) (input : Text) : Option Ticker :=
  (r.db.tickers.rows.find? fun row => row.tick = input).or
    (r.db.tickers.rows.find? fun row => r.LOWER row.tick = r.toLowerCase input)

/-- The name of a tick as it was first written, from the cache where it is there. -/
def Reader.getCanonicalTick (r : Reader) (tick : Text) (caches : Caches) : Option Text × Caches :=
  if tick = [] then (none, caches)
  else if r.chain ≠ [] ∧ r.toLowerCase tick = r.toLowerCase r.chain then (some r.chain, caches)
  else
    let key := r.cacheKey (r.toLowerCase tick)
    match Lru.get caches.tickName key with
    | (some cached, tickName) => (some cached, { caches with tickName })
    | (none, _) =>
      match r.findTicker tick with
      | none => (none, caches)
      | some row =>
        (some row.tick,
          { tickName := Lru.set caches.tickName key row.tick 1000, tickId := Lru.set caches.tickId key row.id 1000 })

/-- The id of a tick, from the cache where it is there. `^digits` names an id outright. -/
def Reader.getTickId (r : Reader) (tick : Text) (caches : Caches) : Option ℕ × Caches :=
  match referencedId tick with
  | some id => (some id, caches)
  | none =>
    let key := r.cacheKey (r.toLowerCase tick)
    match Lru.get caches.tickId key with
    | (some cached, tickId) => (some cached, { caches with tickId })
    | (none, _) =>
      let caches := (r.getCanonicalTick tick caches).2
      let (cached, tickId) := Lru.get caches.tickId key
      (cached, { caches with tickId })

/-! ### The items of a roster -/

/-- What stands between the coin and the tick of a list item. -/
def LIST_TICK_COIN_SEPARATOR : Char := ':'

/-- The name behind the prefix of the reader's own chain. -/
def Reader.ownChain (r : Reader) (text : Text) : Option Text :=
  match text.dropWhile (· ≠ LIST_TICK_COIN_SEPARATOR) with
  | [] => none
  | _ :: tick =>
    if r.toLowerCase (text.takeWhile (· ≠ LIST_TICK_COIN_SEPARATOR)) = r.toLowerCase r.chain then some tick else none

/-- How a list item names its ticker. -/
inductive Item where
  | id (id : ℕ)
  | referenced_id (id : ℕ)
  | tick (tick : Text)

/-- The reading of a list item: of another chain, by a reference or by its name. -/
def Reader.item (r : Reader) (row : Ticker) : Item :=
  match r.ownChain row.tick with
  | none => .id row.id
  | some tick =>
    match referencedId tick with
    | some id => .referenced_id id
    | none => .tick tick

/-- The items of a list, each with its text. -/
def Db.itemRows (db : Db) (membershipIndex : ℕ) : List Ticker :=
  (db.list_items.filter fun li => li.action_index = membershipIndex).filterMap fun li => db.tickers.byId li.item_id

/-- The ids that belong to a minted ticker. -/
def Db.existingTickIds (db : Db) (ids : List ℕ) : List ℕ :=
  (db.tickers.rows.filter fun row => row.id ∈ ids ∧ row.block_index.isSome).map (·.id)

/-- The id that an item resolves to. -/
def Reader.resolve (r : Reader) (existing : List ℕ) (item : Item) (caches : Caches) : Option ℕ × Caches :=
  match item with
  | .id id => (some id, caches)
  | .referenced_id id => (if id ∈ existing then some id else none, caches)
  | .tick tick => r.getTickId tick caches

/-- The items one after the other, with the caches threaded through. -/
def Reader.resolveAll (r : Reader) (existing : List ℕ) : List Item → Caches → List ℕ × Caches
  | [], caches => ([], caches)
  | item :: items, caches =>
    let (id, caches) := r.resolve existing item caches
    let (resolved, caches) := r.resolveAll existing items caches
    (id.toList ++ resolved, caches)

/-- The resolved ids of a list and the number of its items. -/
structure TickIds where
  ids : List ℕ
  item_count : ℕ

/-- The ids of a list's items. -/
def Reader.rosterTickIds (r : Reader) (membershipIndex : ℕ) (caches : Caches) : TickIds × Caches :=
  let rows := r.db.itemRows membershipIndex
  let items := rows.map r.item
  let referenced := items.filterMap fun item =>
    match item with
    | .referenced_id id => some id
    | _ => none
  let (resolved, caches) := r.resolveAll (r.db.existingTickIds referenced) items caches
  (⟨resolved.eraseDups, rows.length⟩, caches)

/-! ### The roster of a project -/

/-- The tick id a link is for: both sides on this chain, a valid list of tickers linked to a valid
    issue. -/
def Reader.rosterTick (r : Reader) (l : Link) : Option ℕ :=
  if l.status = "valid" ∧ l.coin1 = r.chain ∧ l.coin2 = r.chain ∧ r.db.listType l.coin1_action_index = some "1" ∧
      (rowAt r.db.lists.rows l.coin1_action_index).any fun row => row.status = some "valid" then
    ((r.db.issues l.coin2_action_index).filter fun i => i.status = "valid").map (·.tick_id)
  else none

/-- The links that set a roster, each with the ticker of its project. -/
def Reader.rosterLinks (r : Reader) : List (ℕ × Link) :=
  r.db.links.filterMap fun l => (r.rosterTick l).map fun tick_id => (tick_id, l)

/-- The ticker of a tick id, by name. -/
def Reader.project (r : Reader) (tick_id : ℕ) : Option Text := (r.db.tickers.byId tick_id).map (·.tick)

/-- The roster of a project as it is served. -/
structure RosterInfo where
  roster_action_index : ℕ
  membership_action_index : ℕ
  link_action_index : ℕ
  total : ℕ
  tick_ids : Option (List ℕ)
  deriving DecidableEq

/-- The list that is read for a roster: the head of its edits from the flag day on. -/
def Reader.membership (r : Reader) (active : Bool) (roster_action_index : ℕ) : ℕ :=
  if active then getListHeadIndex r.db.lists roster_action_index else roster_action_index

/-- The roster of a project, by its newest link. -/
def Reader.getProjectRosterInfo (r : Reader) (active : Bool) (tick : Text) (caches : Caches) :
    Option RosterInfo × Caches :=
  match (r.rosterLinks.filter fun p => r.project p.1 = some tick).getLast? with
  | none => (none, caches)
  | some (_, l) =>
    let membership := r.membership active l.coin1_action_index
    let legacyTotal := (r.db.list_items.filter fun li => li.action_index = membership).length
    let (tickIds, caches) := r.rosterTickIds membership caches
    let info := fun total tick_ids => some ⟨l.coin1_action_index, membership, l.action_index, total, tick_ids⟩
    if tickIds.item_count = 0 ∧ 0 < legacyTotal then (info legacyTotal none, caches)
    else (info (r.db.tokens.filter fun tick_id => tick_id ∈ tickIds.ids).length (some tickIds.ids), caches)

/-! ### The projects of a token -/

/-- One row of a project: the newest of its links. -/
structure Latest where
  project : Text
  link_action_index : ℕ
  roster_action_index : ℕ
  deriving DecidableEq

/-- `LATEST_ROSTER_LINKS`, newest first. -/
def Reader.latest (r : Reader) : List Latest :=
  (r.rosterLinks.filter fun p => ∀ q ∈ r.rosterLinks, q.1 = p.1 → q.2.action_index ≤ p.2.action_index).reverse.filterMap
    fun p => (r.project p.1).map fun project => ⟨project, p.2.action_index, p.2.coin1_action_index⟩

/-- A spelling that is asked for, exactly or up to case. -/
structure Match where
  text : Text
  caseFolded : Bool

/-- The comparison of a list item with one of the forms. -/
def Reader.isMatch (r : Reader) (m : Match) (tick : Text) : Bool :=
  if m.caseFolded then r.LOWER tick = r.LOWER m.text else tick = m.text

/-- The form `COIN:TICK`, compared without case. -/
def Reader.byName (r : Reader) (tick : Text) : Match := ⟨r.chain ++ LIST_TICK_COIN_SEPARATOR :: tick, true⟩

/-- The form `COIN:^id`. -/
def Reader.byReference (r : Reader) (id : ℕ) : Match :=
  ⟨r.chain ++ LIST_TICK_COIN_SEPARATOR :: '^' :: Nat.toDigits 10 id, false⟩

/-- The forms in which a roster may name a tick. -/
def Reader.rosterTickMatches (r : Reader) (tick : Text) (caches : Caches) : List Match × Caches :=
  let (tickId, caches) := r.getTickId tick caches
  ([⟨tick, false⟩, r.byName tick] ++ (tickId.map r.byReference).toList, caches)

/-- The most rosters a query returns. -/
def LIMIT : ℕ := 1000

/-- The items of a project's pinned list that match. -/
def Reader.hits (r : Reader) (m : Match) (c : Latest) : List Ticker :=
  (r.db.itemRows c.roster_action_index).filter fun row => r.isMatch m row.tick

/-- The newest rosters whose own items match a form. -/
def Reader.directMembershipRows (r : Reader) (m : Match) : List Latest :=
  (r.latest.flatMap fun c => (r.hits m c).map fun _ => c).take LIMIT

/-- A project that a token belongs to, as it is served. -/
structure Roster where
  project : Text
  link_action_index : ℕ
  roster_action_index : ℕ
  membership_action_index : ℕ
  deriving DecidableEq

/-- The rosters whose own items name the token, newest link first. -/
def Reader.rostersByDirectMembership (r : Reader) (tick : Text) (caches : Caches) : List Roster × Caches :=
  let (found, caches) := r.rosterTickMatches tick caches
  let unique := (found.flatMap r.directMembershipRows).eraseDups
  (((unique.mergeSort fun a b => b.link_action_index ≤ a.link_action_index).take LIMIT).map fun c =>
    ⟨c.project, c.link_action_index, c.roster_action_index, c.roster_action_index⟩, caches)

/-- The lists among `indexes` with an item that matches. -/
def Reader.readMembers (r : Reader) (indexes : List ℕ) (m : Match) : List ℕ :=
  ((r.db.list_items.filter fun li => li.action_index ∈ indexes ∧
    (r.db.tickers.byId li.item_id).any fun row => r.isMatch m row.tick).map (·.action_index)).eraseDups

/-- Every index that was asked for has a head. -/
def withHead (heads : List (ℕ × ℕ)) (c : Latest) : Roster where
  project := c.project
  link_action_index := c.link_action_index
  roster_action_index := c.roster_action_index
  membership_action_index := (heads.lookup c.roster_action_index).getD c.roster_action_index

/-- The rosters whose head list resolves to the token's id. -/
def Reader.rostersByResolvedListHead (r : Reader) (tick : Text) (caches : Caches) : List Roster × Caches :=
  let candidates := r.latest.take LIMIT
  if candidates = [] then ([], caches)
  else
    let heads := getListHeadIndexes r.db.lists (candidates.map (·.roster_action_index))
    let rosters := candidates.map (withHead heads)
    let indexes := (rosters.map (·.membership_action_index)).eraseDups
    let (found, caches) := r.rosterTickMatches tick caches
    let listing := found.flatMap (r.readMembers indexes)
    (rosters.filter fun c => c.membership_action_index ∈ listing, caches)

/-- The projects of a token, by the head lists from the flag day on. -/
def Reader.getTokenProjects (r : Reader) (active : Bool) (tick : Text) (caches : Caches) : List Roster × Caches :=
  if active then r.rostersByResolvedListHead tick caches else r.rostersByDirectMembership tick caches

/-! ### Rows of a join behind a limit -/

section Join

variable {α β : Type*}

/-- A row of the outer table is among the first of the join where it has a partner, and the partners of
    the rows in front of it leave room. -/
theorem mem_take_join [DecidableEq α] (f : α → List β) {c : α} {l : List α} (hl : l.Nodup) (hc : c ∈ l) (n : ℕ) :
    c ∈ (l.flatMap fun a => (f a).map fun _ => a).take n ↔
      f c ≠ [] ∧ ((l.takeWhile (· ≠ c)).flatMap f).length < n := by
  induction l generalizing n with
  | nil => simp at hc
  | cons a l ih =>
    obtain ⟨ha, hl⟩ := List.nodup_cons.mp hl
    rw [List.flatMap_cons, List.take_append, List.mem_append, List.length_map]
    by_cases hac : a = c
    · subst hac
      have hrest : a ∉ (l.flatMap fun a => (f a).map fun _ => a).take (n - (f a).length) := by
        intro h
        obtain ⟨b, hb, h⟩ := List.mem_flatMap.mp (List.mem_of_mem_take h)
        obtain ⟨-, -, rfl⟩ := List.mem_map.mp h
        exact ha hb
      rw [or_iff_left hrest, List.map_const', List.take_replicate, List.mem_replicate]
      simp [List.length_eq_zero_iff, and_comm, Nat.pos_iff_ne_zero]
    · have hfirst : c ∉ ((f a).map fun _ => a).take n := by
        intro h
        obtain ⟨-, -, h⟩ := List.mem_map.mp (List.mem_of_mem_take h)
        exact hac h
      rw [or_iff_right hfirst, ih hl ((List.mem_cons.mp hc).resolve_left (Ne.symm hac)),
        List.takeWhile_cons_of_pos (by simpa using hac), List.flatMap_cons, List.length_append]
      exact and_congr_right fun _ => by omega

end Join

/-! ### What is meant -/

/-- The items of a list in order, each with the caches that it is resolved from. -/
def Reader.visits (r : Reader) : List Ticker → Caches → List (Ticker × Caches)
  | [], _ => []
  | row :: rows, caches => (row, caches) :: r.visits rows (r.resolve [] (r.item row) caches).2

/-- The roster page takes an item for the ticker `t`: it stands under the ticker's own id, or behind the
    prefix of this chain as a reference in any digits, or as a name that is found under it. -/
inductive Reader.Resolves (r : Reader) (t : ℕ) (visit : Ticker × Caches) : Prop
  | bare (h : r.ownChain visit.1.tick = none) (hid : visit.1.id = t)
  | reference {tick : Text} (h : r.ownChain visit.1.tick = some tick) (hid : referencedId tick = some t)
  | name {tick : Text} (h : r.ownChain visit.1.tick = some tick) (hname : referencedId tick = none)
      (hid : (r.getTickId tick visit.2).1 = some t)

/-- The items that match of the projects in front. -/
def Reader.front (r : Reader) (m : Match) (c : Latest) : ℕ := ((r.latest.takeWhile (· ≠ c)).flatMap (r.hits m)).length

/-- Where the pinned lists are asked, fewer than a thousand items that match stand in front. -/
def Reader.Room (r : Reader) (active : Bool) (m : Match) (c : Latest) : Prop := active ∨ r.front m c < LIMIT

/-- The banner takes an item for the ticker `tick`: it is the tick itself, or in any case the tick behind the
    chain, or it is exactly the chain, a caret and the plain digits of the id the tick is found under. -/
inductive Reader.Asked (r : Reader) (active : Bool) (tick : Text) (caches : Caches) (c : Latest) (item : Text) : Prop
  | bare (h : item = tick) (room : r.Room active ⟨tick, false⟩ c)
  | name (h : r.LOWER item = r.LOWER (r.byName tick).text) (room : r.Room active (r.byName tick) c)
  | reference {id : ℕ} (hid : (r.getTickId tick caches).1 = some id) (h : item = (r.byReference id).text)
      (room : r.Room active (r.byReference id) c)

variable {r : Reader} {active : Bool} {tick : Text} {caches : Caches} {c d : Latest} {t : ℕ} {row : Ticker}

/-! ### Tickers -/

theorem byId_eq_some {T : Tickers} {id : ℕ} : T.byId id = some row ↔ row ∈ T.rows ∧ row.id = id := by
  constructor
  · intro h
    exact ⟨List.mem_of_find?_eq_some h, by simpa using List.find?_some h⟩
  · rintro ⟨hrow, rfl⟩
    obtain ⟨found, hfound⟩ := Option.isSome_iff_exists.mp
      (List.find?_isSome.mpr ⟨row, hrow, by simp⟩ : (T.byId row.id).isSome)
    have hid : found.id = row.id := by simpa using List.find?_some hfound
    rw [Tickers.byId, hfound, List.inj_on_of_nodup_map T.unique_id (List.mem_of_find?_eq_some hfound) hrow hid]

theorem project_inj {k k' : ℕ} {P : Text} (hk : r.project k = some P) (hk' : r.project k' = some P) : k = k' := by
  obtain ⟨row, hrow, rfl⟩ := Option.map_eq_some_iff.mp hk
  obtain ⟨row', hrow', hP⟩ := Option.map_eq_some_iff.mp hk'
  obtain ⟨hmem, rfl⟩ := byId_eq_some.mp hrow
  obtain ⟨hmem', rfl⟩ := byId_eq_some.mp hrow'
  rw [List.inj_on_of_nodup_map r.db.tickers.unique_tick hmem' hmem hP]

/-! ### The newest link of a project -/

theorem rosterLinks_ordered : r.rosterLinks.Pairwise fun p q => p.2.action_index < q.2.action_index := by
  refine (List.pairwise_map.mp r.db.ordered).filterMap _ fun l l' hl p hp q hq => ?_
  obtain ⟨-, -, rfl⟩ := Option.map_eq_some_iff.mp hp
  obtain ⟨-, -, rfl⟩ := Option.map_eq_some_iff.mp hq
  exact hl

theorem mem_latest : c ∈ r.latest ↔ ∃ p ∈ r.rosterLinks,
    (∀ q ∈ r.rosterLinks, q.1 = p.1 → q.2.action_index ≤ p.2.action_index) ∧ r.project p.1 = some c.project ∧
      p.2.action_index = c.link_action_index ∧ p.2.coin1_action_index = c.roster_action_index := by
  simp only [Reader.latest, List.mem_filterMap, List.mem_reverse, List.mem_filter, decide_eq_true_eq,
    Option.map_eq_some_iff, and_assoc]
  constructor
  · rintro ⟨p, hp, hmax, P, hP, rfl⟩
    exact ⟨p, hp, hmax, hP, rfl, rfl⟩
  · rintro ⟨p, hp, hmax, hP, hlink, hroster⟩
    exact ⟨p, hp, hmax, c.project, hP, by rw [hlink, hroster]⟩

theorem latest_nodup : r.latest.Nodup := by
  have hdesc : r.latest.Pairwise fun a b => b.link_action_index < a.link_action_index := by
    refine List.Pairwise.filterMap _ (fun p q hpq a ha b hb => ?_)
      (List.pairwise_reverse.mpr (rosterLinks_ordered.filter _))
    obtain ⟨-, -, rfl⟩ := Option.map_eq_some_iff.mp ha
    obtain ⟨-, -, rfl⟩ := Option.map_eq_some_iff.mp hb
    exact hpq
  exact hdesc.imp fun h heq => by simp [heq] at h

/-- The newest link of all that are for a name is the one its row of `latest` holds. -/
theorem getLast_project (hc : c ∈ r.latest) :
    ∃ p : ℕ × Link, (r.rosterLinks.filter fun p => r.project p.1 = some c.project).getLast? = some p ∧
      p.2.action_index = c.link_action_index ∧ p.2.coin1_action_index = c.roster_action_index := by
  obtain ⟨p, hp, hmax, hP, hlink, hroster⟩ := mem_latest.mp hc
  have hmem : p ∈ r.rosterLinks.filter fun p => r.project p.1 = some c.project := by simp [hp, hP]
  obtain ⟨last, hlast⟩ := Option.isSome_iff_exists.mp (List.getLast?_isSome.mpr (List.ne_nil_of_mem hmem))
  obtain ⟨front, hfront⟩ := List.getLast?_eq_some_iff.mp hlast
  have hordered := (rosterLinks_ordered (r := r)).filter fun p => r.project p.1 = some c.project
  rw [hfront] at hmem hordered
  rcases List.mem_append.mp hmem with hbefore | hat
  · have hlt : p.2.action_index < last.2.action_index :=
      (List.pairwise_append.mp hordered).2.2 p hbefore last List.mem_cons_self
    have hlast : last ∈ r.rosterLinks ∧ r.project last.1 = some c.project := by
      simpa using List.mem_filter.mp (List.mem_of_getLast? hlast)
    exact absurd (hmax last hlast.1 (project_inj hlast.2 hP)) (Nat.not_le.mpr hlt)
  · rw [List.mem_singleton.mp hat] at hlink hroster
    exact ⟨last, hlast, hlink, hroster⟩

theorem latest_inj (hc : c ∈ r.latest) (hd : d ∈ r.latest) (h : c.project = d.project) : c = d := by
  obtain ⟨p, hp, hlink, hroster⟩ := getLast_project hc
  obtain ⟨q, hq, hlink', hroster'⟩ := getLast_project hd
  rw [h, hq] at hp
  cases hp
  cases c
  cases d
  simp_all

/-! ### The roster page -/

theorem resolve_caches (existing : List ℕ) (item : Item) :
    (r.resolve existing item caches).2 = (r.resolve [] item caches).2 := by
  cases item <;> rfl

theorem mem_resolveAll {existing : List ℕ} (rows : List Ticker) :
    t ∈ (r.resolveAll existing (rows.map r.item) caches).1 ↔
      ∃ visit ∈ r.visits rows caches, (r.resolve existing (r.item visit.1) visit.2).1 = some t := by
  induction rows generalizing caches with
  | nil => simp [Reader.resolveAll, Reader.visits]
  | cons row rows ih =>
    rw [List.map_cons, Reader.resolveAll, Reader.visits, List.exists_mem_cons_iff, ← ih, ← resolve_caches existing]
    exact List.mem_append.trans (or_congr_left Option.mem_toList)

theorem map_visits (rows : List Ticker) (caches : Caches) : (r.visits rows caches).map (·.1) = rows := by
  induction rows generalizing caches with
  | nil => rfl
  | cons row rows ih => rw [Reader.visits, List.map_cons, ih]

theorem resolve_iff {existing : List ℕ} {visit : Ticker × Caches}
    (h : ∀ tick, r.ownChain visit.1.tick = some tick → referencedId tick = some t → t ∈ existing) :
    (r.resolve existing (r.item visit.1) visit.2).1 = some t ↔ r.Resolves t visit := by
  constructor
  · intro hid
    unfold Reader.item at hid
    cases hown : r.ownChain visit.1.tick with
    | none =>
      rw [hown] at hid
      exact .bare hown (Option.some.inj hid)
    | some tick =>
      cases href : referencedId tick with
      | none =>
        simp only [hown, href] at hid
        exact .name hown href hid
      | some id =>
        simp only [hown, href, Reader.resolve] at hid
        split_ifs at hid
        exact .reference hown (href.trans hid)
  · intro hv
    cases hv with
    | bare hown hid => simp [Reader.item, Reader.resolve, hown, hid]
    | reference hown hid => simp [Reader.item, Reader.resolve, hown, hid, h _ hown hid]
    | name hown hname hid => simp [Reader.item, Reader.resolve, hown, hname, hid]

theorem mem_existingTickIds {ids : List ℕ} {block : ℕ} (ht : ⟨t, tick, some block⟩ ∈ r.db.tickers.rows)
    (hids : t ∈ ids) :
    t ∈ r.db.existingTickIds ids :=
  List.mem_map.mpr ⟨_, List.mem_filter.mpr ⟨ht, by simpa using hids⟩, rfl⟩

/-- The tick ids of a list are what its items stand for, one by one. -/
theorem mem_rosterTickIds {membership block : ℕ} (ht : ⟨t, tick, some block⟩ ∈ r.db.tickers.rows) :
    t ∈ (r.rosterTickIds membership caches).1.ids ↔
      ∃ visit ∈ r.visits (r.db.itemRows membership) caches, r.Resolves t visit := by
  rw [Reader.rosterTickIds, List.mem_eraseDups, mem_resolveAll]
  refine exists_congr fun visit => and_congr_right fun hvisit => resolve_iff fun name hown href => ?_
  have hrow : visit.1 ∈ r.db.itemRows membership :=
    map_visits (r := r) (r.db.itemRows membership) caches ▸ List.mem_map_of_mem hvisit
  refine mem_existingTickIds ht (List.mem_filterMap.mpr ⟨.referenced_id t, ?_, rfl⟩)
  exact List.mem_map.mpr ⟨visit.1, hrow, by simp [Reader.item, hown, href]⟩

theorem mem_tick_ids {block : ℕ} (hc : c ∈ r.latest) (ht : ⟨t, tick, some block⟩ ∈ r.db.tickers.rows) :
    (∃ info ids, (r.getProjectRosterInfo active c.project caches).1 = some info ∧ info.tick_ids = some ids ∧ t ∈ ids) ↔
      ∃ visit ∈ r.visits (r.db.itemRows (r.membership active c.roster_action_index)) caches, r.Resolves t visit := by
  obtain ⟨p, hlast, -, hroster⟩ := getLast_project hc
  rw [← mem_rosterTickIds ht, Reader.getProjectRosterInfo, hlast]
  simp only [hroster]
  split_ifs with hlegacy
  · refine iff_of_false (fun ⟨info, ids, hinfo, hids, _⟩ => ?_) fun hmem => ?_
    · cases hinfo
      cases hids
    · rw [mem_rosterTickIds ht] at hmem
      obtain ⟨visit, hvisit, -⟩ := hmem
      have hempty : r.db.itemRows (r.membership active c.roster_action_index) = [] :=
        List.length_eq_zero_iff.mp hlegacy.1
      rw [hempty] at hvisit
      cases hvisit
  · constructor
    · rintro ⟨info, ids, hinfo, hids, hmem⟩
      cases hinfo
      cases hids
      exact hmem
    · exact fun hmem => ⟨_, _, rfl, rfl, hmem⟩

/-! ### The banner -/

theorem mem_directMembershipRows {m : Match} (hc : c ∈ r.latest) : c ∈ r.directMembershipRows m ↔
    (∃ row ∈ r.db.itemRows c.roster_action_index, r.isMatch m row.tick) ∧ r.front m c < LIMIT := by
  rw [Reader.directMembershipRows, mem_take_join _ latest_nodup hc, Reader.front, Reader.hits, Ne,
    List.filter_eq_nil_iff]
  simp

theorem mem_readMembers {m : Match} {indexes : List ℕ} {index : ℕ} (h : index ∈ indexes) :
    index ∈ r.readMembers indexes m ↔ ∃ row ∈ r.db.itemRows index, r.isMatch m row.tick := by
  simp only [Reader.readMembers, List.mem_eraseDups, List.mem_map, List.mem_filter, Db.itemRows, List.mem_filterMap,
    decide_eq_true_eq, Option.any_eq_true]
  constructor
  · rintro ⟨li, ⟨hli, -, row, hrow, hm⟩, rfl⟩
    exact ⟨row, ⟨li, ⟨hli, rfl⟩, hrow⟩, hm⟩
  · rintro ⟨row, ⟨li, ⟨hli, rfl⟩, hrow⟩, hm⟩
    exact ⟨li, ⟨hli, h, row, hrow, hm⟩, rfl⟩

/-- Below the height no project of at most a thousand is cut from the answers put together. -/
theorem mem_rostersByDirectMembership (hprojects : r.latest.length ≤ LIMIT) (hc : c ∈ r.latest) :
    c.project ∈ (r.rostersByDirectMembership tick caches).1.map (·.project) ↔
      ∃ m ∈ (r.rosterTickMatches tick caches).1, c ∈ r.directMembershipRows m := by
  let unique := ((r.rosterTickMatches tick caches).1.flatMap r.directMembershipRows).eraseDups
  have hsub : unique ⊆ r.latest := by
    intro d hd
    obtain ⟨m, -, hd⟩ := List.mem_flatMap.mp (List.mem_eraseDups.mp hd)
    obtain ⟨e, he, hd⟩ := List.mem_flatMap.mp (List.mem_of_mem_take hd)
    obtain ⟨-, -, rfl⟩ := List.mem_map.mp hd
    exact he
  have hlength : (unique.mergeSort fun a b => b.link_action_index ≤ a.link_action_index).length ≤ LIMIT := by
    rw [List.length_mergeSort]
    exact ((Grouping.nodup_eraseDups _).subperm hsub).length_le.trans hprojects
  rw [Reader.rostersByDirectMembership, List.map_map, List.take_of_length_le hlength, List.mem_map]
  simp only [List.mem_mergeSort, Function.comp_apply]
  constructor
  · rintro ⟨d, hd, hproject⟩
    rw [latest_inj (hsub hd) hc hproject] at hd
    exact List.mem_flatMap.mp (List.mem_eraseDups.mp hd)
  · exact fun h => ⟨c, List.mem_eraseDups.mpr (List.mem_flatMap.mpr h), rfl⟩

theorem mem_rostersByResolvedListHead (hprojects : r.latest.length ≤ LIMIT) (hc : c ∈ r.latest) :
    c.project ∈ (r.rostersByResolvedListHead tick caches).1.map (·.project) ↔
      ∃ m ∈ (r.rosterTickMatches tick caches).1,
        ∃ row ∈ r.db.itemRows (getListHeadIndex r.db.lists c.roster_action_index), r.isMatch m row.tick := by
  let heads := getListHeadIndexes r.db.lists (r.latest.map (·.roster_action_index))
  let head := getListHeadIndex r.db.lists c.roster_action_index
  let indexes := ((r.latest.map (withHead heads)).map (·.membership_action_index)).eraseDups
  have hhead : (withHead heads c).membership_action_index = head := by
    simp only [withHead, heads, head]
    rw [getListHeadIndexes_eq, lookup_map_self (List.mem_dedup.mpr (List.mem_map_of_mem hc)), Option.getD_some,
      getListHeadIndex_eq, getListRootIndex_eq]
  have hindex : head ∈ indexes :=
    List.mem_eraseDups.mpr (List.mem_map.mpr ⟨_, List.mem_map_of_mem hc, hhead⟩)
  have hlisted : head ∈ (r.rosterTickMatches tick caches).1.flatMap (r.readMembers indexes) ↔
      ∃ m ∈ (r.rosterTickMatches tick caches).1, ∃ row ∈ r.db.itemRows head, r.isMatch m row.tick := by
    rw [List.mem_flatMap]
    exact exists_congr fun m => and_congr_right fun _ => mem_readMembers hindex
  rw [Reader.rostersByResolvedListHead, List.take_of_length_le hprojects, if_neg (List.ne_nil_of_mem hc), ← hlisted]
  simp only [List.mem_map, List.mem_filter, decide_eq_true_eq]
  constructor
  · rintro ⟨-, ⟨⟨d, hd, rfl⟩, hmem⟩, hproject⟩
    rw [latest_inj hd hc hproject, hhead] at hmem
    exact hmem
  · intro hmem
    exact ⟨_, ⟨⟨c, hc, rfl⟩, hhead ▸ hmem⟩, rfl⟩

theorem asked_iff {item : Text} : r.Asked active tick caches c item ↔
    ∃ m ∈ (r.rosterTickMatches tick caches).1, r.isMatch m item ∧ r.Room active m c := by
  constructor
  · intro h
    cases h with
    | bare h room => exact ⟨_, by simp [Reader.rosterTickMatches], by simp [Reader.isMatch, h], room⟩
    | name h room => exact ⟨_, by simp [Reader.rosterTickMatches], by simp [Reader.isMatch, Reader.byName, h], room⟩
    | reference hid h room =>
      exact ⟨_, by simp [Reader.rosterTickMatches, hid], by simp [Reader.isMatch, Reader.byReference, h], room⟩
  · rintro ⟨m, hm, hmatch, room⟩
    simp only [Reader.rosterTickMatches, List.mem_append, List.mem_cons, List.not_mem_nil, or_false, Option.mem_toList,
      Option.map_eq_some_iff] at hm
    rcases hm with (rfl | rfl) | ⟨id, hid, rfl⟩
    · exact .bare (by simpa [Reader.isMatch] using hmatch) room
    · exact .name (of_decide_eq_true hmatch) room
    · exact .reference hid (of_decide_eq_true hmatch) room

theorem mem_getTokenProjects (hprojects : r.latest.length ≤ LIMIT) (hc : c ∈ r.latest) :
    c.project ∈ (r.getTokenProjects active tick caches).1.map (·.project) ↔
      ∃ row ∈ r.db.itemRows (r.membership active c.roster_action_index), r.Asked active tick caches c row.tick := by
  cases active with
  | false =>
    rw [Reader.getTokenProjects, if_neg Bool.false_ne_true, mem_rostersByDirectMembership hprojects hc]
    simp only [mem_directMembershipRows hc, asked_iff, Reader.Room, Reader.membership, Bool.false_eq_true, false_or,
      if_false]
    constructor
    · rintro ⟨m, hm, ⟨row, hrow, hmatch⟩, hfront⟩
      exact ⟨row, hrow, m, hm, hmatch, hfront⟩
    · rintro ⟨row, hrow, m, hm, hmatch, hfront⟩
      exact ⟨m, hm, ⟨row, hrow, hmatch⟩, hfront⟩
  | true =>
    rw [Reader.getTokenProjects, if_pos rfl, mem_rostersByResolvedListHead hprojects hc]
    simp only [asked_iff, Reader.Room, Reader.membership, true_or, and_true, if_true]
    constructor
    · rintro ⟨m, hm, row, hrow, hmatch⟩
      exact ⟨row, hrow, m, hm, hmatch⟩
    · rintro ⟨row, hrow, m, hm, hmatch⟩
      exact ⟨m, hm, row, hrow, hmatch⟩

/-! ### The two readers -/

/-- Two properties hold somewhere in a list or neither does, exactly if they hold together somewhere, or each of
    them holds without the other somewhere, or neither does. -/
theorem agree_iff {α : Type*} {l : List α} {p q : α → Prop} : ((∃ x ∈ l, p x) ↔ ∃ x ∈ l, q x) ↔
    (∃ x ∈ l, p x ∧ q x) ∨ ((∃ x ∈ l, p x ∧ ¬q x) ↔ ∃ x ∈ l, ¬p x ∧ q x) := by
  constructor
  · intro h
    by_cases hboth : ∃ x ∈ l, p x ∧ q x
    · exact .inl hboth
    · refine .inr ⟨fun ⟨x, hx, hp, _⟩ => ?_, fun ⟨x, hx, _, hq⟩ => ?_⟩
      · obtain ⟨y, hy, hqy⟩ := h.mp ⟨x, hx, hp⟩
        exact ⟨y, hy, fun hpy => hboth ⟨y, hy, hpy, hqy⟩, hqy⟩
      · obtain ⟨y, hy, hpy⟩ := h.mpr ⟨x, hx, hq⟩
        exact ⟨y, hy, hpy, fun hqy => hboth ⟨y, hy, hpy, hqy⟩⟩
  · rintro (⟨x, hx, hp, hq⟩ | hsides)
    · exact ⟨fun _ => ⟨x, hx, hq⟩, fun _ => ⟨x, hx, hp⟩⟩
    · constructor
      · rintro ⟨x, hx, hp⟩
        by_cases hq : q x
        · exact ⟨x, hx, hq⟩
        · obtain ⟨y, hy, -, hqy⟩ := hsides.mp ⟨x, hx, hp, hq⟩
          exact ⟨y, hy, hqy⟩
      · rintro ⟨x, hx, hq⟩
        by_cases hp : p x
        · exact ⟨x, hx, hp⟩
        · obtain ⟨y, hy, hpy, -⟩ := hsides.mpr ⟨x, hx, hp, hq⟩
          exact ⟨y, hy, hpy⟩

/-- The roster page lists a token of this chain where and only where the banner names the project, exactly if
    some item is taken for the token by both, or items are taken by each of them alone, or by neither alone. -/
theorem inverse_iff (block : ℕ) (forward reverse : Caches) (hprojects : r.latest.length ≤ LIMIT) (hc : c ∈ r.latest)
    (ht : ⟨t, tick, some block⟩ ∈ r.db.tickers.rows) :
    ((∃ info ids, (r.getProjectRosterInfo active c.project forward).1 = some info ∧
        info.tick_ids = some ids ∧ t ∈ ids) ↔
      c.project ∈ (r.getTokenProjects active tick reverse).1.map (·.project)) ↔
    (∃ v ∈ r.visits (r.db.itemRows (r.membership active c.roster_action_index)) forward,
      r.Resolves t v ∧ r.Asked active tick reverse c v.1.tick) ∨
    ((∃ v ∈ r.visits (r.db.itemRows (r.membership active c.roster_action_index)) forward,
      r.Resolves t v ∧ ¬r.Asked active tick reverse c v.1.tick) ↔
     (∃ v ∈ r.visits (r.db.itemRows (r.membership active c.roster_action_index)) forward,
      ¬r.Resolves t v ∧ r.Asked active tick reverse c v.1.tick)) := by
  rw [mem_tick_ids hc ht, mem_getTokenProjects hprojects hc]
  generalize hrows : r.db.itemRows (r.membership active c.roster_action_index) = rows
  have hvisits : (∃ row ∈ rows, r.Asked active tick reverse c row.tick) ↔
      ∃ v ∈ r.visits rows forward, r.Asked active tick reverse c v.1.tick := by
    conv_lhs => rw [← map_visits (r := r) rows forward]
    simp
  rw [hvisits, agree_iff]

/-- Four tickers: two of them spell a reference or another chain's form. -/
def fooTickers : Tickers where
  rows := [⟨1, "PROJECTX".toList, some 1⟩, ⟨5, "FOO".toList, some 2⟩, ⟨6, "BTC:^05".toList, some 3⟩,
    ⟨7, "btc:Foo".toList, some 4⟩]
  unique_id := by decide
  unique_tick := by decide

/-- A project with one link to a list, whose items are given by id. -/
def roster (items : List ℕ) : Reader where
  db :=
    { tickers := fooTickers
      links := [⟨12, "valid", "BTC".toList, 10, "BTC".toList, 11⟩]
      ordered := List.pairwise_singleton _ _
      issues := fun action_index => if action_index = 11 then some ⟨1, "valid"⟩ else none
      lists := ⟨[⟨10, none, some "valid"⟩], by decide⟩
      listType := fun action_index => if action_index = 10 then some "1" else none
      list_items := items.map fun item_id => ⟨10, item_id⟩
      tokens := [1, 5] }
  chain := "BTC".toList
  toLowerCase := List.map Char.toLower
  LOWER := List.map Char.toLower
  cacheKey := id

/-- The newest roster of the project. -/
def projectX : Latest := ⟨"PROJECTX".toList, 12, 10⟩

/-- A reference in other digits than the plain ones, next to the name: both readers take the name. -/
theorem roster_both :
    (∃ info ids, ((roster [6, 7]).getProjectRosterInfo true "PROJECTX".toList {}).1 = some info ∧
      info.tick_ids = some ids ∧ 5 ∈ ids) ↔
    "PROJECTX".toList ∈ ((roster [6, 7]).getTokenProjects true "FOO".toList {}).1.map (·.project) := by
  refine (inverse_iff (c := projectX) 2 {} {} (by decide) (by decide) (by decide)).mpr (.inl ?_)
  have hown : (roster [6, 7]).ownChain "btc:Foo".toList = some "Foo".toList := by decide
  exact ⟨(⟨7, "btc:Foo".toList, some 4⟩, {}), List.mem_cons_of_mem _ List.mem_cons_self,
    .name hown (by decide) (by decide), .name (by decide) (.inl rfl)⟩

/-- Alone, that reference is on the roster page and not in the banner. -/
theorem reference_not_asked :
    (roster [6]).latest = [projectX] ∧ ⟨5, "FOO".toList, some 2⟩ ∈ (roster [6]).db.tickers.rows ∧
      ((roster [6]).getProjectRosterInfo false "PROJECTX".toList {}).1 = some ⟨10, 10, 12, 1, some [5]⟩ ∧
      ((roster [6]).getTokenProjects false "FOO".toList {}).1 = [] ∧
      ((roster [6]).getProjectRosterInfo true "PROJECTX".toList {}).1 = some ⟨10, 10, 12, 1, some [5]⟩ ∧
      ((roster [6]).getTokenProjects true "FOO".toList {}).1 = [] := by
  refine ⟨by decide, by decide, by decide, ?_, by decide, by decide⟩
  have hrows : ((roster [6]).rosterTickMatches "FOO".toList {}).1.flatMap (roster [6]).directMembershipRows = [] := by
    decide
  simp only [Reader.getTokenProjects, Reader.rostersByDirectMembership, hrows, List.eraseDups_nil, List.mergeSort_nil,
    List.take_nil, List.map_nil, Bool.false_eq_true, if_false]

end ProjectRosters
