import ShortQ.AccountRows
import ShortQ.Chunks
import ShortQ.DistinctOn
import ShortQ.LinkScopes

/-! # Loading in chunks

The loops of `LinksByIDs`, `hydrateLinks` and `hydrateLinkCreators`: one query for five hundred
keys, whose rows are scattered over the links by maps of positions. -/
namespace ChunkedLoads

open AccountRows (UserRow userClash)
open Chunks
open DistinctOn
open GoText
open LinkStore
open LinkScopes (firstFailure_healthy map_mapM)
open Models
open RowTable
open Schema
open Transaction

/-- The order in which a query without `ORDER BY` returns its rows, query by query. -/
structure RowOrder (ρ : Type) where
  order : ℕ → List ρ → List ρ
  perm : ∀ n rows, (order n rows).Perm rows

def chunkSize : ℕ := 500

def placeholders (count : ℕ) : Str :=
  if count < 1 then lit "NULL" else ((List.replicate count (lit "?,")).flatten).dropLast

/-- `IN (..)`: none where the statement has not as many parameters as it is given. -/
def inList (holders : Str) (args : List ℤ) : Option (List ℤ) :=
  if holders.count 63 = args.length then some args else none

/-- The loop over the chunks of the keys; `first` is the slot of its first query. -/
def eachChunk {σ : Type} (io : Script) (keys : List ℤ) (body : σ → ℕ → List ℤ → σ) :
    ℕ → List (ℕ × ℕ) → σ → Except Err σ
  | _, [], s => .ok s
  | n, bound :: rest, s =>
    match inList (placeholders (bound.2 - bound.1)) (slice keys bound) with
    | none => .error .schema
    | some args =>
      match io.exec n with
      | some text => .error (.database text)
      | none => eachChunk io keys body (n + 1) rest (body s n args)

def forChunks {σ : Type} (io : Script) (first : ℕ) (keys : List ℤ) (body : σ → ℕ → List ℤ → σ)
    (s : σ) : Except Err σ :=
  eachChunk io keys body first (bounds chunkSize keys.length keys.length 0) s

/-! ## The three loops -/

/-- The rows of one query of `hydrateLinks`, `ORDER BY link_id,country_code`. -/
def byLink (a b : GeoRow) : Bool :=
  a.linkId < b.linkId || (a.linkId = b.linkId && decide (a.countryCode ≤ b.countryCode))

def geoQuery (db : Database) (args : List ℤ) : List GeoRow :=
  (db.geoTargets.rows.filter fun g => args.contains g.linkId).mergeSort byLink

/-- The map from ids to positions; of two links with one id it keeps the later. -/
def positionsOf (links : List Link) : ℤ → Option ℕ :=
  collect (fun p : Link × ℕ => p.1.id) Prod.snd links.zipIdx

def addGeo (positions : ℤ → Option ℕ) (links : List Link) (g : GeoRow) : List Link :=
  match positions g.linkId with
  | some index => links.modify index fun l =>
      { l with geoTargets := l.geoTargets ++ [⟨g.countryCode, g.targetUrl⟩] }
  | none => links

def hydrateLinks (io : Script) (first : ℕ) (db : Database) (links : List Link) :
    Except Err (List Link) :=
  if links = [] then .ok links
  else
    let positions := positionsOf links
    forChunks io first (links.map Link.id)
      (fun links _ args => (geoQuery db args).foldl (addGeo positions) links)
      (links.map fun l => { l with geoTargets := [] })

/-- The rows of one query of `LinksByIDs`. -/
def linkQuery (order : RowOrder LinkRow) (db : Database) (scope : LinkRow → Bool) (n : ℕ)
    (args : List ℤ) : List LinkRow :=
  order.order n (db.links.rows.filter fun r =>
    r.deletedAt.isNone && args.contains r.id && scope r)

def addLink (byID : ℤ → Option Link) (r : LinkRow) : ℤ → Option Link :=
  Function.update byID r.id (some (scanLink r))

/-- `LinksByIDs`. -/
def linksByIDs (io : Script) (order : RowOrder LinkRow) (db : Database) (u : User)
    (ids : List ℤ) : Except Err (List Link) :=
  if ids = [] then .ok []
  else
    match addLinkViewScope u false with
    | .error e => .error e
    | .ok scope =>
      match forChunks io 0 ids
          (fun byID n args => (linkQuery order db scope n args).foldl addLink byID)
          fun _ => none with
      | .error e => .error e
      | .ok byID =>
        match ids.mapM byID with
        | none => .error .noRows
        | some ordered => hydrateLinks io (bounds chunkSize ids.length ids.length 0).length db
            ordered

/-- A link with the fields `creator_name` and `creator_email`. -/
structure Listed where
  link : Link
  creatorName : Str := []
  creatorEmail : Str := []
  deriving DecidableEq, Repr

def Listed.name (l : Listed) (u : UserRow) : Listed :=
  { l with
    creatorName := u.name
    creatorEmail := u.email }

/-- The map from user ids to the positions of their links. -/
def positionsByUser (links : List Listed) : ℤ → List ℕ :=
  links.zipIdx.foldl (fun positions (p : Listed × ℕ) =>
    Function.update positions p.1.link.userId (positions p.1.link.userId ++ [p.2])) fun _ => []

/-- The keys of that map, sorted. -/
def userIDs (links : List Listed) : List ℤ :=
  ((links.map (·.link.userId)).dedup).mergeSort fun a b => decide (a ≤ b)

def nameAll (positions : ℤ → List ℕ) (links : List Listed) (u : UserRow) : List Listed :=
  modifyAll (·.name u) (positions u.id) links

def hydrateLinkCreators (io : Script) (first : ℕ) (order : RowOrder UserRow)
    (users : Table UserRow userClash) (links : List Listed) : Except Err (List Listed) :=
  if links = [] then .ok links
  else
    let positions := positionsByUser links
    forChunks io first (userIDs links)
      (fun links n args =>
        (order.order n (users.rows.filter fun u => args.contains u.id)).foldl
          (nameAll positions) links)
      links

/-! ## The chunks -/

theorem count_placeholders (count : ℕ) : (placeholders count).count 63 = count := by
  unfold placeholders
  by_cases hcount : count < 1
  · rw [if_pos hcount]
    have hzero : count = 0 := by omega
    rw [hzero]
    decide
  · rw [if_neg hcount]
    obtain ⟨n, rfl⟩ : ∃ n, count = n + 1 := ⟨count - 1, by omega⟩
    rw [List.replicate_succ', List.flatten_append, List.flatten_singleton,
      show lit "?," = [63] ++ [44] from rfl, ← List.append_assoc, List.dropLast_concat,
      List.count_append]
    have hrepeat : ((List.replicate n ([63] ++ [44] : Str)).flatten).count 63 = n := by
      induction n with
      | zero => rfl
      | succ n ih =>
        rw [List.replicate_succ, List.flatten_cons, List.count_append, ih (by omega)]
        exact Nat.add_comm 1 n
    rw [hrepeat]
    rfl

theorem firstFailure_succ (io : Script) (n count : ℕ) : firstFailure io n (count + 1) =
    match io.exec n with
    | some text => some text
    | none => firstFailure io (n + 1) count := by
  have hshift : (List.range count).findSome? ((fun i => io.exec (n + i)) ∘ Nat.succ)
      = (List.range count).findSome? fun i => io.exec (n + 1 + i) := by
    congr 1
    funext i
    simp only [Function.comp_apply]
    congr 1
    omega
  unfold firstFailure
  rw [List.range_succ_eq_map, List.findSome?_cons, List.findSome?_map, hshift, Nat.add_zero]
  cases io.exec n <;> rfl

theorem eachChunk_eq {σ : Type} (io : Script) (keys : List ℤ) (body : σ → ℕ → List ℤ → σ)
    {bounds : List (ℕ × ℕ)} (hbounds : ∀ b ∈ bounds, (slice keys b).length = b.2 - b.1) (n : ℕ)
    (s : σ) :
    eachChunk io keys body n bounds s =
      match firstFailure io n bounds.length with
      | some text => .error (.database text)
      | none => .ok (((bounds.map (slice keys)).zipIdx n).foldl (fun s p => body s p.2 p.1) s) := by
  induction bounds generalizing n s with
  | nil => rfl
  | cons bound rest ih =>
    have hlength := hbounds bound List.mem_cons_self
    have hlist : inList (placeholders (bound.2 - bound.1)) (slice keys bound)
        = some (slice keys bound) := by
      rw [inList, count_placeholders, if_pos hlength.symm]
    rw [eachChunk, hlist, List.length_cons, firstFailure_succ]
    cases io.exec n with
    | some text => rfl
    | none =>
      dsimp only
      rw [ih fun b hb => hbounds b (List.mem_cons_of_mem bound hb)]
      rfl

/-- A loop over chunks visits the slices, unless one of its queries fails. -/
theorem forChunks_eq {σ : Type} (io : Script) (first : ℕ) (keys : List ℤ)
    (body : σ → ℕ → List ℤ → σ) (s : σ) :
    forChunks io first keys body s =
      match firstFailure io first (chunks keys.length) with
      | some text => .error (.database text)
      | none =>
        .ok (((slices chunkSize keys).zipIdx first).foldl (fun s p => body s p.2 p.1) s) := by
  have hcount : (bounds chunkSize keys.length keys.length 0).length = chunks keys.length :=
    length_bounds (by decide) keys.length keys.length 0 (by omega)
  rw [forChunks, eachChunk_eq io keys body (length_slice keys keys.length 0), hcount]
  rfl

/-- The rows of all queries, in the order they come in. -/
theorem foldl_chunks {σ ρ : Type} (rows : ℕ → List ℤ → List ρ) (step : σ → ρ → σ)
    (slices : List (List ℤ)) (n : ℕ) (s : σ) :
    (slices.zipIdx n).foldl (fun s p => (rows p.2 p.1).foldl step s) s
      = ((slices.zipIdx n).flatMap fun p => rows p.2 p.1).foldl step s := by
  rw [List.foldl_flatMap]

theorem flatMap_zipIdx {ρ : Type} (f : List ℤ → List ρ) (slices : List (List ℤ)) (n : ℕ) :
    (slices.zipIdx n).flatMap (fun p => f p.1) = slices.flatMap f := by
  conv_rhs => rw [← List.zipIdx_map_fst n slices, List.flatMap_map]

theorem exists_slice {keys : List ℤ} {k : ℤ} (hk : k ∈ keys) (n : ℕ) :
    ∃ p ∈ (slices chunkSize keys).zipIdx n, k ∈ p.1 := by
  have hmem : k ∈ (slices chunkSize keys).flatten := by
    rw [flatten_slices (by decide)]
    exact hk
  obtain ⟨chunk, hchunk, hin⟩ := List.mem_flatten.mp hmem
  obtain ⟨i, hi, rfl⟩ := List.mem_iff_getElem.mp hchunk
  exact ⟨((slices chunkSize keys)[i], n + i),
    List.mem_zipIdx_iff_le_and_getElem?_sub.mpr ⟨Nat.le_add_right n i, by simp [hi]⟩, hin⟩

/-! ## Geo targets -/

def push (g : GeoRow) (l : Link) : Link :=
  { l with geoTargets := l.geoTargets ++ [⟨g.countryCode, g.targetUrl⟩] }

/-- Of distinct ids each stands in one place. -/
theorem index_unique {links : List Link} (hdistinct : (links.map Link.id).Nodup) {i j : ℕ}
    {k : ℤ} (hi : (links.map Link.id)[i]? = some k) (hj : (links.map Link.id)[j]? = some k) :
    i = j :=
  (List.getElem?_inj (List.getElem?_eq_some_iff.mp hi).1 hdistinct).mp (hi.trans hj.symm)

theorem positionsOf_some {links : List Link} (hdistinct : (links.map Link.id).Nodup) {i : ℕ}
    {k : ℤ} (hi : (links.map Link.id)[i]? = some k) : positionsOf links k = some i := by
  have hvalue : ∀ p ∈ links.zipIdx, p.1.id = k → p.2 = i := by
    intro p hp hk
    rw [List.mem_zipIdx_iff_getElem?] at hp
    apply index_unique hdistinct _ hi
    rw [List.getElem?_map, hp, Option.map_some, hk]
  obtain ⟨l, hl, hk⟩ := List.getElem?_map ▸ hi |> Option.map_eq_some_iff.mp
  rw [positionsOf, collect, foldl_update_of_forall _ _ hvalue, if_pos]
  exact ⟨(l, i), List.mem_zipIdx_iff_getElem?.mpr hl, hk⟩

theorem positionsOf_none {links : List Link} {k : ℤ} (h : ∀ l ∈ links, l.id ≠ k) :
    positionsOf links k = none := by
  have hnone (p : Link × ℕ) (hp : p ∈ links.zipIdx) : p.1.id ≠ k := by
    apply h
    rw [List.mem_zipIdx_iff_getElem?] at hp
    exact List.mem_of_getElem? hp
  have hvalue : ∀ p ∈ links.zipIdx, p.1.id = k → p.2 = 0 := fun p hp hk => absurd hk (hnone p hp)
  rw [positionsOf, collect, foldl_update_of_forall _ _ hvalue, if_neg]
  rintro ⟨p, hp, hk⟩
  exact hnone p hp hk

/-- A row goes to the link with its id. -/
theorem addGeo_eq {links ls : List Link} (hdistinct : (links.map Link.id).Nodup)
    (hsame : ls.map Link.id = links.map Link.id) (g : GeoRow) :
    addGeo (positionsOf links) ls g = ls.map fun l => if l.id = g.linkId then push g l else l := by
  by_cases hany : ∃ i : ℕ, (links.map Link.id)[i]? = some g.linkId
  · obtain ⟨i, hi⟩ := hany
    rw [addGeo, positionsOf_some hdistinct hi]
    change modifyAll (push g) [i] ls = _
    apply modifyAll_key _ _ (List.nodup_singleton i)
    intro j x hx
    have hj : (links.map Link.id)[j]? = some x.id := by
      rw [← hsame, List.getElem?_map, hx, Option.map_some]
    rw [List.mem_singleton]
    constructor
    · rintro rfl
      exact Option.some.inj (hj.symm.trans hi)
    · intro hk
      exact index_unique hdistinct (hk ▸ hj) hi
  · have habsent : ∀ k ∈ links.map Link.id, k ≠ g.linkId := by
      intro k hk heq
      obtain ⟨i, hi⟩ := List.mem_iff_getElem?.mp hk
      exact hany ⟨i, heq ▸ hi⟩
    rw [addGeo, positionsOf_none fun l hl => habsent _ (List.mem_map_of_mem hl)]
    symm
    apply (List.map_congr_left _).trans (List.map_id ls)
    intro l hl
    exact if_neg (habsent _ (hsame ▸ List.mem_map_of_mem hl))

theorem foldl_addGeo {links ls : List Link} (hdistinct : (links.map Link.id).Nodup)
    (hsame : ls.map Link.id = links.map Link.id) (rows : List GeoRow) :
    rows.foldl (addGeo (positionsOf links)) ls = ls.map fun l =>
      { l with geoTargets := l.geoTargets ++
        (rows.filter (·.linkId = l.id)).map fun g => ⟨g.countryCode, g.targetUrl⟩ } := by
  induction rows generalizing ls with
  | nil =>
    symm
    apply (List.map_congr_left _).trans (List.map_id ls)
    intro l _
    simp
  | cons g rest ih =>
    have hids : (ls.map fun l => if l.id = g.linkId then push g l else l).map Link.id
        = links.map Link.id := by
      rw [List.map_map, ← hsame]
      apply List.map_congr_left
      intro l _
      rw [Function.comp_apply]
      split <;> rfl
    rw [List.foldl_cons, addGeo_eq hdistinct hsame, ih hids, List.map_map]
    apply List.map_congr_left
    intro l _
    rw [Function.comp_apply]
    by_cases hl : l.id = g.linkId
    · rw [if_pos hl, List.filter_cons_of_pos (by simpa using hl.symm), List.map_cons,
        List.append_cons l.geoTargets]
      rfl
    · rw [if_neg hl, List.filter_cons_of_neg (by simpa using Ne.symm hl)]

theorem byLink_iff {a b : GeoRow} : byLink a b = true ↔
    a.linkId < b.linkId ∨ a.linkId = b.linkId ∧ a.countryCode ≤ b.countryCode := by
  simp [byLink]

theorem byLink_trans (a b c : GeoRow) (hab : byLink a b = true) (hbc : byLink b c = true) :
    byLink a c = true := by
  rw [byLink_iff] at hab hbc ⊢
  rcases hab with hab | ⟨hab, hab'⟩
  · rcases hbc with hbc | ⟨hbc, _⟩
    · exact Or.inl (by omega)
    · exact Or.inl (by omega)
  · rcases hbc with hbc | ⟨hbc, hbc'⟩
    · exact Or.inl (by omega)
    · exact Or.inr ⟨hab.trans hbc, List.le_trans hab' hbc'⟩

theorem byLink_total (a b : GeoRow) : (byLink a b || byLink b a) = true := by
  rw [Bool.or_eq_true, byLink_iff, byLink_iff]
  rcases lt_trichotomy a.linkId b.linkId with h | h | h
  · exact Or.inl (Or.inl h)
  · rcases List.le_total a.countryCode b.countryCode with hle | hle
    · exact Or.inl (Or.inr ⟨h, hle⟩)
    · exact Or.inr (Or.inr ⟨h.symm, hle⟩)
  · exact Or.inr (Or.inl h)

/-- A query holds the rows of a link in the order of their countries, if it asks for the link. -/
theorem geoQuery_filter (db : Database) (args : List ℤ) (id : ℤ) :
    (geoQuery db args).filter (·.linkId = id) = if id ∈ args then
      (db.geoTargets.rows.filter fun g => g.linkId = id).mergeSort
        fun a b => decide (a.countryCode ≤ b.countryCode)
    else [] := by
  rw [geoQuery, @filter_mergeSort _ byLink (fun a b => decide (a.countryCode ≤ b.countryCode)) _ _
    byLink_trans byLink_total, List.filter_filter]
  · by_cases hid : id ∈ args
    · rw [if_pos hid]
      congr 1
      apply List.filter_congr
      intro g _
      by_cases hg : g.linkId = id
      · simp [hg, hid]
      · simp [hg]
    · rw [if_neg hid, List.filter_eq_nil_iff.mpr, List.mergeSort_nil]
      intro g _ hg
      rw [Bool.and_eq_true, decide_eq_true_eq] at hg
      exact hid (hg.1 ▸ List.contains_iff_mem.mp hg.2)
  · intro a b c hab hbc
    rw [decide_eq_true_eq] at hab hbc ⊢
    exact List.le_trans hab hbc
  · intro a b
    rw [Bool.or_eq_true, decide_eq_true_eq, decide_eq_true_eq]
    exact List.le_total _ _
  · intro a b ha hb hab
    rw [decide_eq_true_eq] at ha hb ⊢
    rcases byLink_iff.mp hab with h | ⟨_, h⟩
    · omega
    · exact h
  · intro a ha b hb hab hba
    rw [decide_eq_true_eq] at hab hba
    obtain ⟨hrow, hid⟩ := List.mem_filter.mp ha
    obtain ⟨hrow', hid'⟩ := List.mem_filter.mp hb
    apply db.geoTargets.eq_of_clash (fun _ _ h => ⟨h.1.symm, h.2.symm⟩)
      (List.mem_of_mem_filter hrow) (List.mem_of_mem_filter hrow')
    exact ⟨(of_decide_eq_true hid).trans (of_decide_eq_true hid').symm, List.le_antisymm hab hba⟩

/-- Each link is given its own geo targets, unless a query fails. -/
theorem hydrateLinks_eq (io : Script) (first : ℕ) (db : Database) {links : List Link}
    (hdistinct : (links.map Link.id).Nodup) :
    hydrateLinks io first db links =
      match firstFailure io first (chunks links.length) with
      | some text => .error (.database text)
      | none => .ok (links.map (hydrateLink db)) := by
  unfold hydrateLinks
  by_cases hempty : links = []
  · rw [if_pos hempty, hempty]
    rfl
  · rw [if_neg hempty, forChunks_eq, List.length_map]
    cases firstFailure io first (chunks links.length) with
    | some text => rfl
    | none =>
      have hblank : (links.map fun l => { l with geoTargets := [] }).map Link.id
          = links.map Link.id := by
        rw [List.map_map]
        rfl
      rw [foldl_chunks fun _ args => geoQuery db args, foldl_addGeo hdistinct hblank, List.map_map]
      apply congrArg Except.ok
      apply List.map_congr_left
      intro l hl
      have hmem : l.id ∈ links.map Link.id := List.mem_map_of_mem hl
      have hrows : (((slices chunkSize (links.map Link.id)).zipIdx first).flatMap fun p =>
          geoQuery db p.1).filter (·.linkId = l.id)
          = (db.geoTargets.rows.filter fun g => g.linkId = l.id).mergeSort
              fun a b => decide (a.countryCode ≤ b.countryCode) := by
        have hflat := @flatten_slices _ chunkSize (by decide) (links.map Link.id)
        rw [List.filter_flatMap]
        simp only [geoQuery_filter]
        rw [flatMap_zipIdx fun chunk => if l.id ∈ chunk then
          (db.geoTargets.rows.filter fun g => g.linkId = l.id).mergeSort
            fun a b => decide (a.countryCode ≤ b.countryCode) else [], flatMap_once]
        · rw [hflat]
          exact hdistinct
        · rw [hflat]
          exact hmem
      rw [Function.comp_apply, hrows]
      rfl

/-! ## The links of a list of ids -/

theorem mem_linkQuery {order : RowOrder LinkRow} {db : Database} {scope : LinkRow → Bool} {n : ℕ}
    {args : List ℤ} {r : LinkRow} : r ∈ linkQuery order db scope n args ↔
      r ∈ db.links.rows ∧ r.id ∈ args ∧ (r.deletedAt.isNone && scope r) = true := by
  rw [linkQuery, (order.perm n _).mem_iff, List.mem_filter, Bool.and_eq_true, Bool.and_eq_true,
    List.contains_iff_mem, Bool.and_eq_true]
  constructor
  · rintro ⟨hr, ⟨hlive, hid⟩, hscope⟩
    exact ⟨hr, hid, hlive, hscope⟩
  · rintro ⟨hr, hid, hlive, hscope⟩
    exact ⟨hr, ⟨hlive, hid⟩, hscope⟩

/-- The map holds of every id the row that a query for this id alone finds. -/
theorem byID_eq (order : RowOrder LinkRow) (db : Database) (scope : LinkRow → Bool)
    {ids : List ℤ} {id : ℤ} (hid : id ∈ ids) :
    ((slices chunkSize ids).zipIdx 0).foldl
        (fun byID p => (linkQuery order db scope p.2 p.1).foldl addLink byID) (fun _ => none) id
      = (db.links.find fun r => r.id = id && (r.deletedAt.isNone && scope r)).map scanLink := by
  rw [foldl_chunks (linkQuery order db scope) addLink]
  unfold addLink
  cases hfind : db.links.find fun r => r.id = id && (r.deletedAt.isNone && scope r) with
  | none =>
    have habsent : ∀ r ∈ ((slices chunkSize ids).zipIdx 0).flatMap
        fun p => linkQuery order db scope p.2 p.1, r.id ≠ id := by
      intro r hr hk
      obtain ⟨p, -, hquery⟩ := List.mem_flatMap.mp hr
      obtain ⟨hrow, -, hscope⟩ := mem_linkQuery.mp hquery
      have hnot := List.find?_eq_none.mp hfind r hrow
      rw [Bool.and_eq_true, decide_eq_true_eq] at hnot
      exact hnot ⟨hk, hscope⟩
    rw [foldl_update_of_forall LinkRow.id scanLink (v := scanLink Schema.sampleLink)
      fun r hr hk => absurd hk (habsent r hr), if_neg]
    · rfl
    · rintro ⟨r, hr, hk⟩
      exact habsent r hr hk
  | some row =>
    have hrow := List.mem_of_find?_eq_some hfind
    have hchosen := List.find?_some hfind
    rw [Bool.and_eq_true, decide_eq_true_eq] at hchosen
    have hsame : ∀ r ∈ ((slices chunkSize ids).zipIdx 0).flatMap
        fun p => linkQuery order db scope p.2 p.1, r.id = id → scanLink r = scanLink row := by
      intro r hr hk
      obtain ⟨p, -, hquery⟩ := List.mem_flatMap.mp hr
      rw [db.links.eq_of_clash linkClash_symm (mem_linkQuery.mp hquery).1 hrow
        (Or.inl (hk.trans hchosen.1.symm))]
    rw [foldl_update_of_forall LinkRow.id scanLink hsame, if_pos]
    · rfl
    · obtain ⟨p, hp, hin⟩ := exists_slice hid 0
      refine ⟨row, List.mem_flatMap.mpr ⟨p, hp, ?_⟩, hchosen.1⟩
      exact mem_linkQuery.mpr ⟨hrow, hchosen.1.symm ▸ hin, hchosen.2⟩

theorem mapM_map {α β γ : Type} {f : α → Option γ} {g : α → Option β} {h : β → γ} {l : List α}
    (hf : ∀ a ∈ l, f a = (g a).map h) : l.mapM f = (l.mapM g).map (List.map h) := by
  induction l with
  | nil => rfl
  | cons a l ih =>
    obtain ⟨ha, hl⟩ := List.forall_mem_cons.mp hf
    rw [List.mapM_cons, List.mapM_cons, ha, ih hl]
    cases g a <;> cases l.mapM g <;> rfl

/-- The loops do what one query for all ids would do. -/
theorem linksByIDs_eq (io : Script) (order : RowOrder LinkRow) (db : Database) (u : User)
    {ids : List ℤ} (hdistinct : ids.Nodup) :
    linksByIDs io order db u ids = LinkStore.linksByIDs io db u ids := by
  unfold linksByIDs LinkStore.linksByIDs
  by_cases hempty : ids = []
  · rw [if_pos hempty, if_pos hempty]
  rw [if_neg hempty, if_neg hempty]
  cases addLinkViewScope u false with
  | error e => rfl
  | ok scope =>
    have hcount : (bounds chunkSize ids.length ids.length 0).length = chunks ids.length :=
      length_bounds (by decide) ids.length ids.length 0 (by omega)
    dsimp only
    rw [forChunks_eq, hcount]
    cases firstFailure io 0 (chunks ids.length) with
    | some text => rfl
    | none =>
      dsimp only
      rw [mapM_map fun id hid => byID_eq order db scope hid]
      cases hrows : ids.mapM fun id =>
          db.links.find fun r => r.id = id && (r.deletedAt.isNone && scope r) with
      | none => rfl
      | some rows =>
        have hids : (rows.map scanLink).map Link.id = ids := by
          rw [List.map_map]
          refine map_mapM (fun id r hfind => ?_) hrows
          have hchosen := List.find?_some hfind
          rw [Bool.and_eq_true, decide_eq_true_eq] at hchosen
          exact hchosen.1
        have hlength : (rows.map scanLink).length = ids.length := by
          have hsame := congrArg List.length hids
          rwa [List.length_map] at hsame
        rw [Option.map_some]
        dsimp only
        rw [hydrateLinks_eq io _ db (hids.symm ▸ hdistinct), hlength, List.map_map]
        rfl

/-- A loop that stops at the first key without a row. -/
theorem mapM_read {α β γ ε : Type} (f : α → Option β) (e : ε) (h : β → γ) (l : List α) :
    (l.mapM fun a => (f a).elim (Except.error e) fun b => Except.ok (h b))
      = (l.mapM f).elim (.error e) fun bs => .ok (bs.map h) := by
  induction l with
  | nil => rfl
  | cons a l ih =>
    rw [List.mapM_cons, List.mapM_cons, ih]
    cases f a with
    | none => rfl
    | some b => cases l.mapM f <;> rfl

/-- The query of `LinkByID`. -/
theorem readLink_healthy {io : Script} (hio : io.Healthy) (db : Database) (p : LinkRow → Bool) :
    readLink io db p = (db.links.find p).elim (.error .noRows)
      fun r => .ok (hydrateLink db (scanLink r)) := by
  rw [readLink, Script.call, hio.2.1 0]
  cases db.links.find p with
  | none => rfl
  | some r =>
    dsimp only [Option.elim]
    rw [Script.call, hio.2.1 1]

/-- One query for all ids reads what a query for each reads. -/
theorem linksByIDs_mapM {io : Script} (hio : io.Healthy) (db : Database) (u : User)
    (ids : List ℤ) : LinkStore.linksByIDs io db u ids = ids.mapM (linkByID io db u) := by
  unfold LinkStore.linksByIDs linkByID
  by_cases hempty : ids = []
  · rw [if_pos hempty, hempty]
    rfl
  rw [if_neg hempty]
  cases addLinkViewScope u false with
  | error e =>
    obtain ⟨id, rest, rfl⟩ := List.exists_cons_of_ne_nil hempty
    rfl
  | ok scope =>
    simp only [readLink_healthy hio, firstFailure_healthy hio]
    rw [mapM_read]
    cases ids.mapM fun id =>
      db.links.find fun r => r.id = id && (r.deletedAt.isNone && scope r) <;> rfl

/-! ## The creators -/

/-- A link under the name of its own user. -/
def creatorOf (users : Table UserRow userClash) (l : Listed) : Listed :=
  match users.find fun u => u.id = l.link.userId with
  | some u => l.name u
  | none => l

theorem foldl_positions (links : List (Listed × ℕ)) (positions : ℤ → List ℕ) (k : ℤ) :
    links.foldl (fun positions (p : Listed × ℕ) =>
        Function.update positions p.1.link.userId (positions p.1.link.userId ++ [p.2]))
      positions k
      = positions k ++ (links.filter (·.1.link.userId = k)).map Prod.snd := by
  induction links generalizing positions with
  | nil => exact (List.append_nil _).symm
  | cons p rest ih =>
    rw [List.foldl_cons, ih]
    by_cases hk : p.1.link.userId = k
    · rw [List.filter_cons_of_pos (by simpa using hk), List.map_cons, ← hk,
        Function.update_self, List.append_assoc]
      rfl
    · rw [List.filter_cons_of_neg (by simpa using hk), Function.update_of_ne (Ne.symm hk)]

theorem positionsByUser_eq (links : List Listed) (k : ℤ) :
    positionsByUser links k = (links.zipIdx.filter (·.1.link.userId = k)).map Prod.snd :=
  foldl_positions links.zipIdx (fun _ => []) k

theorem positionsByUser_nodup (links : List Listed) (k : ℤ) :
    (positionsByUser links k).Nodup := by
  rw [positionsByUser_eq]
  apply List.Nodup.sublist (List.filter_sublist.map Prod.snd)
  rw [List.zipIdx_map_snd]
  exact List.nodup_range'

/-- The positions of a user are those of the user's links. -/
theorem mem_positionsByUser {links : List Listed} {k : ℤ} {i : ℕ} :
    i ∈ positionsByUser links k ↔ ∃ l, links[i]? = some l ∧ l.link.userId = k := by
  rw [positionsByUser_eq, List.mem_map]
  constructor
  · rintro ⟨p, hp, rfl⟩
    obtain ⟨hmem, hk⟩ := List.mem_filter.mp hp
    exact ⟨p.1, List.mem_zipIdx_iff_getElem?.mp hmem, of_decide_eq_true hk⟩
  · rintro ⟨l, hl, hk⟩
    exact ⟨(l, i), List.mem_filter.mpr
      ⟨List.mem_zipIdx_iff_getElem?.mpr hl, decide_eq_true hk⟩, rfl⟩

/-- A row names the links of its user. -/
theorem nameAll_eq {links ls : List Listed}
    (hsame : ls.map (·.link.userId) = links.map (·.link.userId)) (u : UserRow) :
    nameAll (positionsByUser links) ls u
      = ls.map fun l => if l.link.userId = u.id then l.name u else l := by
  apply modifyAll_key (fun l : Listed => l.name u) (fun l => l.link.userId)
    (positionsByUser_nodup links u.id)
  intro i x hx
  have hi : (links.map (·.link.userId))[i]? = some x.link.userId := by
    rw [← hsame, List.getElem?_map, hx, Option.map_some]
  rw [mem_positionsByUser]
  rw [List.getElem?_map, Option.map_eq_some_iff] at hi
  obtain ⟨l, hl, huser⟩ := hi
  constructor
  · rintro ⟨l', hl', hk⟩
    obtain rfl : l' = l := Option.some.inj (hl'.symm.trans hl)
    exact huser.symm.trans hk
  · intro hk
    exact ⟨l, hl, huser.trans hk⟩

/-- What the rows leave of one link. -/
def nameFrom (rows : List UserRow) (l : Listed) : Listed :=
  rows.foldl (fun l u => if l.link.userId = u.id then l.name u else l) l

theorem foldl_nameAll {links ls : List Listed}
    (hsame : ls.map (·.link.userId) = links.map (·.link.userId)) (rows : List UserRow) :
    rows.foldl (nameAll (positionsByUser links)) ls = ls.map (nameFrom rows) := by
  induction rows generalizing ls with
  | nil => exact (List.map_id ls).symm
  | cons u rest ih =>
    have husers : (ls.map fun l => if l.link.userId = u.id then l.name u else l).map
        (·.link.userId) = links.map (·.link.userId) := by
      rw [List.map_map, ← hsame]
      apply List.map_congr_left
      intro l _
      rw [Function.comp_apply]
      split <;> rfl
    rw [List.foldl_cons, nameAll_eq hsame, ih husers, List.map_map]
    rfl

theorem nameFrom_absent {rows : List UserRow} {l : Listed}
    (h : ∀ u ∈ rows, l.link.userId ≠ u.id) : nameFrom rows l = l := by
  induction rows with
  | nil => rfl
  | cons u rest ih =>
    obtain ⟨hu, hrest⟩ := List.forall_mem_cons.mp h
    rw [nameFrom, List.foldl_cons, ← nameFrom, if_neg hu, ih hrest]

/-- Where all rows of a user are one row, the link is named after it. -/
theorem nameFrom_eq {rows : List UserRow} {l : Listed} {v : UserRow}
    (hunique : ∀ u ∈ rows, l.link.userId = u.id → u = v)
    (hany : ∃ u ∈ rows, l.link.userId = u.id) : nameFrom rows l = l.name v := by
  induction rows generalizing l with
  | nil =>
    obtain ⟨u, hu, -⟩ := hany
    cases hu
  | cons u rest ih =>
    obtain ⟨hu, hrest⟩ := List.forall_mem_cons.mp hunique
    rw [nameFrom, List.foldl_cons, ← nameFrom]
    by_cases hk : l.link.userId = u.id
    · obtain rfl := hu hk
      rw [if_pos hk]
      by_cases hmore : ∃ w ∈ rest, l.link.userId = w.id
      · exact ih (l := l.name u) hrest hmore
      · apply nameFrom_absent
        intro w hw heq
        exact hmore ⟨w, hw, heq⟩
    · rw [if_neg hk]
      apply ih hrest
      obtain ⟨w, hw, heq⟩ := hany
      rcases List.mem_cons.mp hw with rfl | hw
      · exact absurd heq hk
      · exact ⟨w, hw, heq⟩

/-- Every link is given its own creator, whoever else it shares the user with. -/
theorem hydrateLinkCreators_eq {io : Script} (hio : io.Healthy) (first : ℕ)
    (order : RowOrder UserRow) (users : Table UserRow userClash) (links : List Listed) :
    hydrateLinkCreators io first order users links = .ok (links.map (creatorOf users)) := by
  unfold hydrateLinkCreators
  by_cases hempty : links = []
  · rw [if_pos hempty, hempty]
    rfl
  · rw [if_neg hempty, forChunks_eq, firstFailure_healthy hio]
    dsimp only
    rw [foldl_chunks fun n args => order.order n (users.rows.filter fun u => args.contains u.id),
      foldl_nameAll rfl]
    apply congrArg Except.ok
    apply List.map_congr_left
    intro l hl
    have hrow {u : UserRow} {n : ℕ} {args : List ℤ} :
        u ∈ order.order n (users.rows.filter fun u => args.contains u.id) ↔
          u ∈ users.rows ∧ u.id ∈ args := by
      rw [(order.perm n _).mem_iff, List.mem_filter, List.contains_iff_mem]
    unfold creatorOf
    cases hfind : users.find fun u => u.id = l.link.userId with
    | none =>
      apply nameFrom_absent
      intro u hu heq
      obtain ⟨p, -, hquery⟩ := List.mem_flatMap.mp hu
      exact List.find?_eq_none.mp hfind u (hrow.mp hquery).1 (decide_eq_true heq.symm)
    | some v =>
      have hv := List.mem_of_find?_eq_some hfind
      have hid : v.id = l.link.userId := of_decide_eq_true (List.find?_some hfind :)
      apply nameFrom_eq
      · intro u hu heq
        obtain ⟨p, -, hquery⟩ := List.mem_flatMap.mp hu
        apply users.eq_of_clash (fun a b h => h.imp Eq.symm Eq.symm) (hrow.mp hquery).1 hv
        exact Or.inl (heq.symm.trans hid.symm)
      · have hkey : v.id ∈ userIDs links := by
          rw [userIDs, List.mem_mergeSort, List.mem_dedup, hid]
          exact List.mem_map_of_mem hl
        obtain ⟨p, hp, hin⟩ := exists_slice hkey first
        exact ⟨v, List.mem_flatMap.mpr ⟨p, hp, hrow.mpr ⟨hv, hin⟩⟩, hid.symm⟩

/-- An error of the whole list is that of one of its elements. -/
theorem exists_of_mapM_error {α β ε : Type} {f : α → Except ε β} {e : ε} {l : List α}
    (h : l.mapM f = .error e) : ∃ a ∈ l, f a = .error e := by
  induction l with
  | nil => cases h
  | cons a rest ih =>
    rw [List.mapM_cons] at h
    cases hf : f a with
    | error e' =>
      rw [hf] at h
      cases h
      exact ⟨a, List.mem_cons_self, hf⟩
    | ok b =>
      rw [hf] at h
      cases hrest : rest.mapM f with
      | error e' =>
        rw [hrest] at h
        cases h
        obtain ⟨x, hx, hfx⟩ := ih hrest
        exact ⟨x, List.mem_cons_of_mem a hx, hfx⟩
      | ok bs =>
        rw [hrest] at h
        cases h

/-- The first key that is not visible ends the loop. -/
theorem noRows_iff {io : Script} (hio : io.Healthy) {db : Database} {u : User} {ids : List ℤ} :
    ids.mapM (linkByID io db u) = .error .noRows ↔
      ∃ id ∈ ids, linkByID io db u id = .error .noRows := by
  refine ⟨exists_of_mapM_error, ?_⟩
  rintro ⟨id, hid, hnone⟩
  unfold linkByID at hnone ⊢
  cases hscope : addLinkViewScope u false with
  | error e =>
    rw [hscope] at hnone
    obtain ⟨id', rest, rfl⟩ := List.exists_cons_of_ne_nil (List.ne_nil_of_mem hid)
    cases hnone
    rfl
  | ok scope =>
    rw [hscope] at hnone
    simp only [readLink_healthy hio] at hnone ⊢
    rw [mapM_read]
    cases hrows : ids.mapM fun id =>
        db.links.find fun r => r.id = id && (r.deletedAt.isNone && scope r) with
    | none => rfl
    | some rows =>
      obtain ⟨r, hr⟩ := LinkScopes.mapM_ok_iff.mp ⟨rows, hrows⟩ id hid
      rw [hr] at hnone
      cases hnone

/-- A list of links is loaded as its links are one by one: by ids each with the value that reading
it alone gives, and `ErrNoRows` where one is not visible; with its own geo targets in the order of
their countries; and under the name of its own user. -/
theorem chunked_loading {io : Script} (hio : io.Healthy) (db : Database)
    (users : Table UserRow userClash) (u : User) (order : RowOrder LinkRow)
    (userOrder : RowOrder UserRow) (first : ℕ) :
    (∀ ids : List ℤ, ids.Nodup →
      linksByIDs io order db u ids = ids.mapM (linkByID io db u) ∧
      (linksByIDs io order db u ids = .error .noRows ↔
        ∃ id ∈ ids, linkByID io db u id = .error .noRows)) ∧
    (∀ links : List Link, (links.map Link.id).Nodup →
      hydrateLinks io first db links = .ok (links.map (hydrateLink db))) ∧
    ∀ links : List Listed,
      hydrateLinkCreators io first userOrder users links = .ok (links.map (creatorOf users)) := by
  refine ⟨fun ids hdistinct => ?_, fun links hdistinct => ?_, fun links => ?_⟩
  · have hloads : linksByIDs io order db u ids = ids.mapM (linkByID io db u) := by
      rw [linksByIDs_eq io order db u hdistinct, linksByIDs_mapM hio]
    refine ⟨hloads, ?_⟩
    rw [hloads, noRows_iff hio]
  · rw [hydrateLinks_eq io first db hdistinct, firstFailure_healthy hio]
  · exact hydrateLinkCreators_eq hio first userOrder users links

def asStored {ρ : Type} : RowOrder ρ := ⟨fun _ rows => rows, fun _ _ => List.Perm.refl _⟩

/-! Two links of a customer, each with a geo target, and a link of another department. -/

def mailRow : LinkRow := { sampleLink with id := 2, slug := lit "mail" }

def foreignRow : LinkRow :=
  { sampleLink with id := 3, userId := 9, tenantId := some 2, slug := lit "else" }

def targeted : Database :=
  { Database.single sampleLink with
    links := ⟨[sampleLink, mailRow, foreignRow], by decide⟩
    geoTargets := ⟨[⟨2, lit "FR", lit "https://example.com/fr"⟩,
      ⟨1, lit "DE", lit "https://example.com/de"⟩], by decide⟩
    nextLinkId := 4 }

def docsLink : Link :=
  { scanLink sampleLink with geoTargets := [⟨lit "DE", lit "https://example.com/de"⟩] }

def mailLink : Link :=
  { scanLink mailRow with geoTargets := [⟨lit "FR", lit "https://example.com/fr"⟩] }

def named (link : Link) : Listed := ⟨link, lit "Owner", lit "owner@example.com"⟩

def ownerRow : UserRow :=
  ⟨1, some 1, lit "owner@example.com", lit "Owner", .customer, false, true, []⟩

/-- The two links in the order of the ids, with their own targets and their user's name; and nothing
for a list that names the third one. -/
theorem chunked_loading_targeted :
    linksByIDs {} asStored targeted ⟨1, some 1, .customer⟩ [2, 1] = .ok [mailLink, docsLink] ∧
      linksByIDs {} asStored targeted ⟨1, some 1, .customer⟩ [2, 3] = .error .noRows ∧
      hydrateLinks {} 0 targeted [scanLink mailRow, scanLink sampleLink] =
        .ok [mailLink, docsLink] ∧
      hydrateLinkCreators {} 0 asStored ⟨[ownerRow], List.pairwise_singleton _ _⟩
        [{ link := mailLink }, { link := docsLink }] = .ok [named mailLink, named docsLink] := by
  obtain ⟨hids, hlinks, hcreators⟩ := @chunked_loading {} ⟨rfl, fun _ => rfl, rfl, rfl⟩ targeted
    ⟨[ownerRow], List.pairwise_singleton _ _⟩ ⟨1, some 1, .customer⟩ asStored asStored 0
  refine ⟨(hids [2, 1] (by decide)).1.trans ?_, (hids [2, 3] (by decide)).2.mpr ?_,
    (hlinks _ (by decide)).trans ?_, (hcreators _).trans rfl⟩
  · decide +kernel
  · exact ⟨3, by decide, by decide⟩
  · decide +kernel

end ChunkedLoads
