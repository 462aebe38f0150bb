import Mathlib.Data.List.Permutation
import ShortQ.LinkEdits

/-! # Two overlapping partial updates

A request writes every setting of the link it has read, so of two overlapping updates the
later commit decides all settings but the password. -/
namespace LostUpdates

open GoText (Str lit)
open LabelledRuns
open LinkCalls
open LinkEdits
open LinkPayload
open LinkStore
open LinkWrites
open Models
open Schema
open Transaction

/-- The row carries the settings of the last commit and every password that was set. -/
structure LastWins (id : ℤ) (s : Config) : Prop where
  done : ∀ r, r ∈ s.commits ↔ (s.phase r).done = true
  nodup : s.commits.Nodup
  last : ∀ y links updates update, s.commits.getLast? = some y →
    (s.phase y).parts = some (links, updates) → update ∈ updates → update.id = id →
      ∃ row, s.db.link id = some row ∧ ∀ f, f ≠ .password →
        stored id f (value update.link f) = some (value (readBack s.db row) f)
  secret : ∀ x links updates update, x ∈ s.commits →
    (s.phase x).parts = some (links, updates) → update ∈ updates → update.id = id →
      update.passwordChanged = true →
        ∃ row, s.db.link id = some row ∧ row.passwordHash = update.passwordHash

theorem lastWins_initial (id : ℤ) (db : Database) : LastWins id (initial db) := by
  constructor
  · simp [initial, Phase.done]
  · exact List.nodup_nil
  · intro y links updates update hy
    cases hy
  · intro x links updates update hx
    cases hx

/-- A request that moves without writing. -/
theorem LastWins.move {id : ℤ} {s : Config} (h : LastWins id s) {r : ℕ} {x : Phase}
    (hdone : x.done = (s.phase r).done)
    (hparts : x.done = true → x.parts = (s.phase r).parts) : LastWins id (s.move r x) := by
  have hsame (q : ℕ) (hq : q ∈ s.commits) {links : List Link} {updates : List LinkUpdate}
      (hx : ((s.move r x).phase q).parts = some (links, updates)) :
      (s.phase q).parts = some (links, updates) := by
    by_cases hqr : q = r
    · subst hqr
      simp only [Config.move, Function.update_self] at hx
      rw [← hparts (hdone.trans ((h.done q).mp hq)), hx]
    · simpa only [Config.move, Function.update_of_ne hqr] using hx
  constructor
  · intro q
    by_cases hqr : q = r
    · subst hqr
      simp only [Config.move, Function.update_self]
      rw [hdone, h.done]
    · simp only [Config.move, Function.update_of_ne hqr]
      exact h.done q
  · exact h.nodup
  · intro y links updates update hy hp
    exact h.last y links updates update hy (hsame y (List.mem_of_getLast? hy) hp)
  · intro y links updates update hy hp
    exact h.secret y links updates update hy (hsame y hy hp)

section
variable {patches : ℕ → Option Patch} {a b : ℕ} {id : ℤ}

/-- The commit of a request whose password change, if any, no other committed request shares. -/
theorem LastWins.commit {s : Config} (h : LastWins id s) (hwf : Wellformed patches s) {r : ℕ}
    {p : Patch} (hp : patches r = some p) {links : List Link} {updates : List LinkUpdate}
    (hphase : s.phase r = .merged links updates) (hid : id ∈ p.route.ids) {io : Script}
    (hwrite : (p.write io s.db updates).1 = none)
    (halone : ∀ x links' updates' update', x ∈ s.commits →
      (s.phase x).parts = some (links', updates') → update' ∈ updates' →
      update'.passwordChanged = true → p.set.passwordChanged = false) :
    LastWins id { s.move r (.committed links updates) with
      db := (p.write io s.db updates).2, commits := s.commits ++ [r] } := by
  obtain ⟨-, hids, hmerged⟩ := hwf.merged r p links updates hp (by rw [hphase]; rfl)
  have hlanded := write_ok hids hwrite
  have hfresh : r ∉ s.commits := by
    rw [h.done, hphase]
    simp [Phase.done]
  have hother (q : ℕ) (hq : q ∈ s.commits) : q ≠ r := fun heq => hfresh (heq ▸ hq)
  constructor
  · intro q
    by_cases hqr : q = r
    · subst hqr
      simp [Config.move, Phase.done]
    · simp [Config.move, hqr, h.done]
  · rw [List.nodup_append]
    exact ⟨h.nodup, List.nodup_singleton r, fun q hq q' hq' heq =>
      hfresh ((heq.trans (List.mem_singleton.mp hq')) ▸ hq)⟩
  · intro y links' updates' update hy hparts hu hupdate
    rw [List.getLast?_append, List.getLast?_singleton, Option.some_or] at hy
    cases hy
    simp only [Config.move, Function.update_self, Phase.parts] at hparts
    cases hparts
    obtain ⟨-, row, -, hrow, hstored, -⟩ := hlanded update hu
    rw [hupdate] at hrow hstored
    exact ⟨row, hrow, hstored⟩
  · intro x links' updates' update hx hparts hu hupdate hchanged
    rcases List.mem_append.mp hx with hx | hx
    · have hxr := hother x hx
      simp only [Config.move, Function.update_of_ne hxr] at hparts
      obtain ⟨row, hrow, hhash⟩ := h.secret x links' updates' update hx hparts hu hupdate hchanged
      obtain ⟨own, hown, hownid⟩ := List.mem_map.mp (hids ▸ hid)
      obtain ⟨before, after, hbefore, hafter, -, hpassword⟩ := hlanded own hown
      rw [hownid] at hbefore hafter
      obtain rfl : before = row := Option.some.inj (hbefore.symm.trans hrow)
      have hsame : own.passwordChanged = false :=
        (hmerged own hown).changed.trans (halone x links' updates' update hx hparts hu hchanged)
      rw [hsame] at hpassword
      exact ⟨after, hafter, hpassword.trans hhash⟩
    · obtain rfl := List.mem_singleton.mp hx
      simp only [Config.move, Function.update_self, Phase.parts] at hparts
      cases hparts
      obtain ⟨before, row, -, hrow, -, hpassword⟩ := hlanded update hu
      rw [hupdate] at hrow
      rw [hchanged] at hpassword
      exact ⟨row, hrow, hpassword⟩

/-- A refused request stays refused. -/
theorem refused_moves {s t : Config} {q : ℕ} {p : Patch} (hmoves : Moves s q p t)
    (hq : ¬ Refused s q) {r : ℕ} (h : Refused s r) : Refused t r := by
  have hne : r ≠ q := by
    rintro rfl
    exact hq h
  obtain ⟨reason, hr⟩ := h
  refine ⟨reason, ?_⟩
  cases hmoves <;> simpa only [Config.move, Function.update_of_ne hne] using hr

/-- Two updates of one link that name different settings. -/
structure Disjoint (pa pb : Patch) (id : ℤ) : Prop where
  left : id ∈ pa.route.ids
  right : id ∈ pb.route.ids
  settings : ∀ f, pa.set.names f = true → pb.set.names f = false

theorem Disjoint.symm {pa pb : Patch} (h : Disjoint pa pb id) : Disjoint pb pa id := by
  refine ⟨h.right, h.left, fun f hb => ?_⟩
  cases ha : pa.set.names f with
  | false => rfl
  | true =>
    rw [h.settings f ha] at hb
    cases hb

/-- What the two requests keep until one of them is refused. -/
structure Rivals (patches : ℕ → Option Patch) (a b : ℕ) (id : ℤ) (s : Config) : Prop where
  wellformed : Wellformed patches s
  among : ∀ r ∈ s.commits, r = a ∨ r = b
  last : Refused s a ∨ Refused s b ∨ LastWins id s

variable {pa pb : Patch}

/-- A password change of one request is none of the other's. -/
theorem password_alone (ha : patches a = some pa) (hb : patches b = some pb)
    (hd : Disjoint pa pb id) {x r : ℕ} (hx : x = a ∨ x = b) (hr : r = a ∨ r = b) (hne : x ≠ r)
    {p q : Patch} (hp : patches r = some p) (hq : patches x = some q)
    (h : q.set.passwordChanged = true) : p.set.passwordChanged = false := by
  rcases hx with rfl | rfl
  · obtain rfl : pa = q := Option.some.inj (ha.symm.trans hq)
    obtain rfl := hr.resolve_left (Ne.symm hne)
    obtain rfl : pb = p := Option.some.inj (hb.symm.trans hp)
    exact hd.settings .password h
  · obtain rfl : pb = q := Option.some.inj (hb.symm.trans hq)
    obtain rfl := hr.resolve_right (Ne.symm hne)
    obtain rfl : pa = p := Option.some.inj (ha.symm.trans hp)
    exact hd.symm.settings .password h

theorem rivals_step (ha : patches a = some pa) (hb : patches b = some pb)
    (hd : Disjoint pa pb id) {s t : Config} {l : Label}
    (hl : l.request = some a ∨ l.request = some b) (h : Rivals patches a b id s)
    (hstep : next patches s l = some t) : Rivals patches a b id t := by
  have hwf := wellformed_step h.wellformed hstep
  rcases next_cases hstep with ⟨r, p, hr, hp, hlive, hmoves⟩ | ⟨u, c, io, rfl, -⟩
  · have hrab : r = a ∨ r = b := by
      rw [hr] at hl
      exact hl.imp Option.some.inj Option.some.inj
    have hid : id ∈ p.route.ids := by
      rcases hrab with rfl | rfl
      · obtain rfl : pa = p := Option.some.inj (ha.symm.trans hp)
        exact hd.left
      · obtain rfl : pb = p := Option.some.inj (hb.symm.trans hp)
        exact hd.right
    have hrefused (hr : Refused t r) : Refused t a ∨ Refused t b ∨ LastWins id t := by
      rcases hrab with rfl | rfl
      · exact Or.inl hr
      · exact Or.inr (Or.inl hr)
    refine ⟨hwf, ?_, ?_⟩
    · cases hmoves with
      | commit links updates io merged write =>
        intro q hq
        rcases List.mem_append.mp hq with hq | hq
        · exact h.among q hq
        · rw [List.mem_singleton.mp hq]
          exact hrab
      | _ => exact h.among
    · rcases h.last with hra | hrb | hlast
      · exact Or.inl (refused_moves hmoves hlive hra)
      · exact Or.inr (Or.inl (refused_moves hmoves hlive hrb))
      cases hmoves with
      | refuse reason => exact hrefused ⟨reason, by simp [Config.move]⟩
      | fail links updates io e merged write =>
        exact hrefused ⟨.store e, by simp [Config.move]⟩
      | advance x done parts => exact Or.inr (Or.inr (hlast.move done parts))
      | commit links updates io merged write =>
        refine Or.inr (Or.inr (hlast.commit h.wellformed hp merged hid write ?_))
        intro x links' updates' update' hx hparts hu hchanged
        have hxr : x ≠ r := by
          rintro rfl
          rw [hlast.done, merged] at hx
          cases hx
        have hxab := h.among x hx
        obtain ⟨q, hq⟩ : ∃ q, patches x = some q := by
          rcases hxab with rfl | rfl
          · exact ⟨pa, ha⟩
          · exact ⟨pb, hb⟩
        have hset := (h.wellformed.merged x q links' updates' hq hparts).2.2 update' hu
        exact password_alone ha hb hd hxab hrab hxr hp hq (hset.changed.symm.trans hchanged)
  · cases hl with
    | inl h => cases h
    | inr h => cases h

end

def Succeeded (s : Config) (r : ℕ) : Prop := (s.phase r).succeeded = true

/-- The stored row of a link carries the values that a request gives to its settings. -/
structure Carries (s : Config) (r : ℕ) (p : Patch) (id : ℤ) : Prop where
  settings : ∃ row, s.db.link id = some row ∧ ∀ f, f ≠ .password → p.set.names f = true →
    stored id f (p.set.asked f) = some (value (readBack s.db row) f)
  password : p.set.names .password = true → ∀ links updates update,
    (s.phase r).parts = some (links, updates) → update ∈ updates → update.id = id →
      ∃ row, s.db.link id = some row ∧ row.passwordHash = update.passwordHash

/-- The link as request `r` has read it is stored with the values of a payload. -/
def Shows (s : Config) (r : ℕ) (p : Patch) (id : ℤ) : Prop :=
  ∃ links updates link, (s.phase r).parts = some (links, updates) ∧ link ∈ links ∧
    link.id = id ∧ ∀ f, f ≠ .password → p.set.names f = true →
      stored id f (value (kept link) f) = stored id f (p.set.asked f)

theorem names_asked {p : Patch} {links : List Link} {update : LinkUpdate}
    (h : Merged p.set links update) {f : Setting} (hf : p.set.names f = true) :
    value update.link f = p.set.asked f := by
  obtain ⟨link, -, -, hassign⟩ := h.link
  rw [hassign, value_assign_named hf]

/-- The password that a request has set is the stored one. -/
theorem LastWins.carries_password {id : ℤ} {s : Config} (h : LastWins id s)
    {patches : ℕ → Option Patch} (hwf : Wellformed patches s) {r : ℕ} {p : Patch}
    (hp : patches r = some p) (hr : r ∈ s.commits) (hnames : p.set.names .password = true)
    {links : List Link} {updates : List LinkUpdate} {update : LinkUpdate}
    (hparts : (s.phase r).parts = some (links, updates)) (hu : update ∈ updates)
    (hid : update.id = id) :
    ∃ row, s.db.link id = some row ∧ row.passwordHash = update.passwordHash :=
  h.secret r links updates update hr hparts hu hid
    (((hwf.merged r p links updates hp hparts).2.2 update hu).changed.trans hnames)

/-- When request `y` commits last, both updates are stored exactly if `y` has read the
values of `x`. -/
theorem LastWins.carries_iff {id : ℤ} {s : Config} (h : LastWins id s)
    {patches : ℕ → Option Patch} (hwf : Wellformed patches s) {x y : ℕ} {px py : Patch}
    (hpx : patches x = some px) (hpy : patches y = some py) (hd : Disjoint px py id)
    (hcommits : s.commits = [x, y]) :
    Carries s x px id ∧ Carries s y py id ↔ Shows s y px id := by
  have hx : x ∈ s.commits := by simp [hcommits]
  have hy : y ∈ s.commits := by simp [hcommits]
  obtain ⟨links, updates, hparts⟩ : ∃ links updates,
      (s.phase y).parts = some (links, updates) := by
    have hdone := (h.done y).mp hy
    cases hphase : s.phase y with
    | committed links updates => exact ⟨links, updates, rfl⟩
    | answered links updates result => exact ⟨links, updates, rfl⟩
    | _ => simp [hphase, Phase.done] at hdone
  obtain ⟨⟨hlinks, hnodup⟩, hids, hmerged⟩ := hwf.merged y py links updates hpy hparts
  obtain ⟨update, hu, hid⟩ := List.mem_map.mp (hids ▸ hd.right)
  obtain ⟨link, hlink, hlinkid, hassign⟩ := (hmerged update hu).link
  obtain ⟨row, hrow, hstored⟩ := h.last y links updates update (by rw [hcommits]; rfl) hparts hu hid
  have hkept (f : Setting) (hf : f ≠ .password) (hnames : px.set.names f = true) :
      stored id f (value (kept link) f) = some (value (readBack s.db row) f) := by
    rw [← hstored f hf, hassign, value_assign_unnamed (by simp [hd.settings f hnames])]
  constructor
  · rintro ⟨⟨⟨row', hrow', hcarried⟩, -⟩, -⟩
    obtain rfl : row = row' := Option.some.inj (hrow.symm.trans hrow')
    refine ⟨links, updates, link, hparts, hlink, hlinkid.trans hid, fun f hf hnames => ?_⟩
    rw [hkept f hf hnames, hcarried f hf hnames]
  · rintro ⟨links', updates', link', hparts', hlink', hid', hshows⟩
    obtain ⟨rfl, rfl⟩ : links = links' ∧ updates = updates' := by
      simpa using hparts.symm.trans hparts'
    have hinj := List.inj_on_of_nodup_map (f := Link.id) (by rw [hlinks]; exact hnodup)
    obtain rfl := hinj hlink' hlink (hid'.trans (hlinkid.trans hid).symm)
    refine ⟨⟨⟨row, hrow, fun f hf hnames => ?_⟩, fun hnames links updates update hp hu hid => ?_⟩,
      ⟨⟨row, hrow, fun f hf hnames => ?_⟩, fun hnames links updates update hp hu hid => ?_⟩⟩
    · rw [← hshows f hf hnames, hkept f hf hnames]
    · exact h.carries_password hwf hpx hx hnames hp hu hid
    · rw [← names_asked (hmerged update hu) hnames, hstored f hf]
    · exact h.carries_password hwf hpy hy hnames hp hu hid

theorem Succeeded.not_refused {s : Config} {r : ℕ} (h : Succeeded s r) : ¬ Refused s r := by
  rintro ⟨reason, hr⟩
  simp [Succeeded, hr, Phase.succeeded] at h

theorem Succeeded.done {s : Config} {r : ℕ} (h : Succeeded s r) :
    (s.phase r).done = true := by
  cases hphase : s.phase r with
  | answered => rfl
  | _ => simp [Succeeded, hphase, Phase.succeeded] at h

/-- Both requests have committed, one after the other. -/
theorem commits_pair {s : Config} {a b : ℕ} (hne : a ≠ b) (hnodup : s.commits.Nodup)
    (hsub : ∀ r ∈ s.commits, r = a ∨ r = b) (ha : a ∈ s.commits) (hb : b ∈ s.commits) :
    s.commits = [a, b] ∨ s.commits = [b, a] := by
  have hperm : s.commits.Perm [a, b] := by
    rw [List.perm_ext_iff_of_nodup hnodup (by simpa using hne)]
    intro r
    constructor
    · intro hr
      simpa using hsub r hr
    · intro hr
      rcases List.mem_pair.mp hr with rfl | rfl
      · exact ha
      · exact hb
  exact List.perm_pair.mp hperm

/-- Two overlapping updates of one link that name different settings and both succeed are both
stored if and only if the one that commits last had read the other's values. -/
theorem overlapping_updates {patches : ℕ → Option Patch} {a b : ℕ} {pa pb : Patch} {id : ℤ}
    (hne : a ≠ b) (ha : patches a = some pa) (hb : patches b = some pb)
    (hd : Disjoint pa pb id) {db : Database} {ls : List Label} {t : Config}
    (hrun : Execution (next patches) (initial db) ls t)
    (hours : ∀ l ∈ ls, l.request = some a ∨ l.request = some b) (hsa : Succeeded t a)
    (hsb : Succeeded t b) :
    Carries t a pa id ∧ Carries t b pb id ↔
      t.commits = [a, b] ∧ Shows t b pa id ∨ t.commits = [b, a] ∧ Shows t a pb id := by
  have hrivals : Rivals patches a b id t := by
    refine hrun.invariant_of (P := fun _ l => l.request = some a ∨ l.request = some b)
      ⟨wellformed_initial patches db, by simp [initial],
        Or.inr (Or.inr (lastWins_initial id db))⟩ ?_ ?_
    · intro s l u hs hl hstep
      exact rivals_step ha hb hd hl hs hstep
    · intro xs l ys u heq _
      exact hours l (by simp [heq])
  have hlast : LastWins id t :=
    (hrivals.last.resolve_left hsa.not_refused).resolve_left hsb.not_refused
  have hca := (hlast.done a).mpr hsa.done
  have hcb := (hlast.done b).mpr hsb.done
  have hba : [a, b] ≠ [b, a] := by simp [hne]
  rcases commits_pair hne hlast.nodup hrivals.among hca hcb with hcommits | hcommits
  · rw [hlast.carries_iff hrivals.wellformed ha hb hd hcommits, hcommits]
    simp [hba]
  · rw [and_comm, hlast.carries_iff hrivals.wellformed hb ha hd.symm hcommits, hcommits]
    simp [Ne.symm hba]

/-! Two updates of one link. -/

def owner : User := ⟨1, some 1, .customer⟩

def creation : Call :=
  .createLink [] { slug := lit "docs", targetUrl := lit "https://example.com/" } []

/-- A store with the link 1. -/
def stocked : Database := (creation.write {} Database.empty owner).2

def unused : SecretHash := ⟨fun _ => .error [], fun _ _ h => by cases h⟩

def retitle : Patch := ⟨owner, .one 1, { title := some (lit "Docs") }⟩

def retarget : Patch := ⟨owner, .many [1], { targetUrl := some (lit "https://example.org/") }⟩

def pair : ℕ → Option Patch
  | 0 => some retitle
  | 1 => some retarget
  | _ => none

def steps (r : ℕ) : List Label :=
  [.read r {}, .merge r fun _ => unused, .write r {}, .respond r {}]

theorem retitle_retarget : Disjoint retitle retarget 1 := by
  constructor
  · decide
  · decide
  · intro f
    cases f <;> decide

/-- What the runs below are asked for. -/
structure Outcome where
  commits : List ℕ
  first : Bool
  second : Bool
  seen : Option (List (ℤ × Str))
  title : Option Str
  deriving DecidableEq

def outcome (t : Config) : Outcome where
  commits := t.commits
  first := (t.phase 0).succeeded
  second := (t.phase 1).succeeded
  seen := (t.phase 1).parts.map fun parts => parts.1.map fun link => (link.id, link.title)
  title := (t.db.link 1).map LinkRow.title

/-- One after the other, both values are stored. -/
theorem overlapping_updates_sequential :
    ∃ t, Execution (next pair) (initial stocked) (steps 0 ++ steps 1) t ∧
      Carries t 0 retitle 1 ∧ Carries t 1 retarget 1 := by
  have hrun : (replay (next pair) (initial stocked) (steps 0 ++ steps 1)).map outcome =
      some ⟨[0, 1], true, true, some [(1, lit "Docs")], some (lit "Docs")⟩ := by decide +kernel
  obtain ⟨t, ht, houtcome⟩ := Option.map_eq_some_iff.mp hrun
  have hexec := execution_of_replay ht
  simp only [outcome, Outcome.mk.injEq] at houtcome
  obtain ⟨hcommits, ha, hb, hparts, -⟩ := houtcome
  obtain ⟨⟨links, updates⟩, hparts, hlinks⟩ := Option.map_eq_some_iff.mp hparts
  obtain ⟨link, hmem, hlink⟩ := List.map_eq_singleton_iff.mp hlinks
  obtain ⟨hid, htitle⟩ := Prod.mk.injEq _ _ _ _ ▸ hlink
  refine ⟨t, hexec, (overlapping_updates (by decide) rfl rfl retitle_retarget hexec (by decide)
    ha hb).mpr (Or.inl ⟨hcommits, links, updates, link, hparts, ?_, hid, ?_⟩)⟩
  · rw [show links = [link] from hmem]
    exact List.mem_singleton_self link
  · intro f hf hnames
    cases f with
    | title =>
      simp only [kept, value, htitle]
      rfl
    | _ => cases hnames

/-- The second commit writes the title that its request had read before the first. -/
theorem updates_lost : ∃ t, Execution (next pair) (initial stocked)
      ([.read 0 {}, .read 1 {}] ++ (steps 0).tail ++ (steps 1).tail) t ∧
    Disjoint retitle retarget 1 ∧ Succeeded t 0 ∧ Succeeded t 1 ∧
      ¬ (Carries t 0 retitle 1 ∧ Carries t 1 retarget 1) := by
  have hrun : (replay (next pair) (initial stocked)
      ([.read 0 {}, .read 1 {}] ++ (steps 0).tail ++ (steps 1).tail)).map outcome =
      some ⟨[0, 1], true, true, some [(1, [])], some []⟩ := by decide +kernel
  obtain ⟨t, ht, houtcome⟩ := Option.map_eq_some_iff.mp hrun
  simp only [outcome, Outcome.mk.injEq] at houtcome
  obtain ⟨-, ha, hb, -, htitle⟩ := houtcome
  refine ⟨t, execution_of_replay ht, retitle_retarget, ha, hb, ?_⟩
  rintro ⟨⟨⟨row, hrow, hcarried⟩, -⟩, -⟩
  have hstored := hcarried .title (by decide) rfl
  rw [hrow, Option.map_some, Option.some.injEq] at htitle
  simp only [value, readBack, hydrateLink, scanLink, htitle] at hstored
  revert hstored
  decide

end LostUpdates
