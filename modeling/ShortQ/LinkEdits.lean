import ShortQ.LabelledRuns
import ShortQ.LinkWrites

/-! # Requests that edit links

A PATCH reads its links, merges the payload into what it has read and writes the result in a
transaction of its own. Requests interleave; the other calls that write links are one step. -/
namespace LinkEdits

open GoText (Str lit)
open LabelledRuns
open LinkCalls
open LinkPayload
open LinkScopes
open LinkStore
open LinkValidation
open LinkWrites
open Models
open Schema
open Transaction

/-- `linkByID` and `bulkLinks`. -/
inductive Route where
  | one (id : ℤ)
  | many (ids : List ℤ)
  deriving DecidableEq, Repr

def Route.ids : Route → List ℤ
  | .one id => [id]
  | .many ids => ids

structure Patch where
  user : User
  route : Route
  set : Payload

inductive Refusal where
  | rejected (text : Str)
  | notFound
  | store (e : Err)
  deriving DecidableEq, Repr

/-- The checks before anything is read. -/
def Patch.malformed (p : Patch) : Option Str :=
  match p.route with
  | .one _ => if p.set.slug.isSome then some (lit "slug is immutable") else none
  | .many ids =>
    if ids.length < 1 || 500 < ids.length then some (lit "ids must contain 1 to 500 links")
    else if p.set.slug.isSome then some (lit "slug is immutable")
    else if ids.any (· < 1) || !decide ids.Nodup then
      some (lit "ids must be unique positive link ids")
    else none

def Patch.read (io : Script) (db : Database) (p : Patch) : Except Err (List Link) :=
  match p.route with
  | .one id => (linkByID io db p.user id).map fun link => [link]
  | .many ids => linksByIDs io db p.user ids

/-- Each link of a bulk update has its password hashed anew. -/
def mergeEach (hash : ℕ → SecretHash) (set : Payload) (label : ℤ → Str) :
    ℕ → List ℤ → List Link → Except Str (List LinkUpdate)
  | n, id :: ids, current :: rest =>
    match applyLinkPayload (hash n) current set false with
    | .error text => .error (label id ++ text)
    | .ok (link, passwordHash, changed) =>
      match mergeEach hash set label (n + 1) ids rest with
      | .error text => .error text
      | .ok updates => .ok (⟨id, link, passwordHash, changed⟩ :: updates)
  | _, _, _ => .ok []

def Patch.merge (hash : ℕ → SecretHash) (p : Patch) (links : List Link) :
    Except Str (List LinkUpdate) :=
  match p.route with
  | .one id => mergeEach hash p.set (fun _ => []) 0 [id] links
  | .many ids =>
    mergeEach hash p.set (fun id => lit "link " ++ lit (toString id) ++ lit ": ") 0 ids links

def Patch.write (io : Script) (db : Database) (p : Patch) (updates : List LinkUpdate) :
    Option Err × Database :=
  match p.route, updates with
  | .one id, [update] =>
    updateLinkWrite io db p.user id update.link update.passwordHash update.passwordChanged
  | .one _, _ => (some .noRows, db)
  | .many _, updates => updateLinksBulkWrite io db p.user updates

inductive Phase where
  | idle
  | seen (links : List Link)
  | merged (links : List Link) (updates : List LinkUpdate)
  | refused (reason : Refusal)
  | committed (links : List Link) (updates : List LinkUpdate)
  | answered (links : List Link) (updates : List LinkUpdate) (result : Except Err (List Link))

/-- `commits` lists the requests in the order of their commits. -/
structure Config where
  db : Database
  phase : ℕ → Phase
  commits : List ℕ

def initial (db : Database) : Config := ⟨db, fun _ => .idle, []⟩

inductive Label where
  | read (r : ℕ) (io : Script)
  | merge (r : ℕ) (hash : ℕ → SecretHash)
  | write (r : ℕ) (io : Script)
  | respond (r : ℕ) (io : Script)
  | call (u : User) (c : Call) (io : Script)

def Config.move (s : Config) (r : ℕ) (x : Phase) : Config :=
  { s with phase := Function.update s.phase r x }

/-- The calls that are no step of an update. -/
def Call.other : Call → Bool
  | .updateLink .. => false
  | .updateLinksBulk _ => false
  | _ => true

def next (patches : ℕ → Option Patch) (s : Config) : Label → Option Config
  | .read r io =>
    match patches r, s.phase r with
    | some p, .idle =>
      match p.malformed with
      | some text => some (s.move r (.refused (.rejected text)))
      | none =>
        match p.read io s.db with
        | .error _ => some (s.move r (.refused .notFound))
        | .ok links => some (s.move r (.seen links))
    | _, _ => none
  | .merge r hash =>
    match patches r, s.phase r with
    | some p, .seen links =>
      match p.merge hash links with
      | .error text => some (s.move r (.refused (.rejected text)))
      | .ok updates => some (s.move r (.merged links updates))
    | _, _ => none
  | .write r io =>
    match patches r, s.phase r with
    | some p, .merged links updates =>
      match p.write io s.db updates with
      | (some e, db) => some { s.move r (.refused (.store e)) with db := db }
      | (none, db) =>
        some { s.move r (.committed links updates) with db := db, commits := s.commits ++ [r] }
    | _, _ => none
  | .respond r io =>
    match patches r, s.phase r with
    | some p, .committed links updates =>
      some (s.move r (.answered links updates (p.read io s.db)))
    | _, _ => none
  | .call u c io => if Call.other c then some { s with db := (c.write io s.db u).2 } else none

/-! The parts of a request. -/

/-- One update of a request: the link it saw with the payload merged in. -/
structure Merged (set : Payload) (seen : List Link) (update : LinkUpdate) : Prop where
  link : ∃ link ∈ seen, link.id = update.id ∧ update.link = set.assign false link
  secret : ∃ hash : SecretHash, set.secret hash = .ok update.passwordHash
  changed : update.passwordChanged = set.passwordChanged

theorem mergeEach_ok {hash : ℕ → SecretHash} {set : Payload} {label : ℤ → Str} {n : ℕ}
    {ids : List ℤ} {links : List Link} {updates : List LinkUpdate}
    (h : mergeEach hash set label n ids links = .ok updates) (hids : links.map Link.id = ids) :
    updates.map LinkUpdate.id = ids ∧ ∀ update ∈ updates, Merged set links update := by
  induction links generalizing n ids updates with
  | nil =>
    cases hids
    cases h
    simp
  | cons current rest ih =>
    subst hids
    simp only [List.map_cons, mergeEach] at h
    split at h
    · cases h
    · rename_i link passwordHash changed happly
      split at h
      · cases h
      · rename_i updates' hrest
        cases h
        obtain ⟨hmap, hmerged⟩ := ih hrest rfl
        obtain ⟨hlink, hsecret, hchanged⟩ := applyLinkPayload_ok happly
        refine ⟨by rw [List.map_cons, hmap, List.map_cons], fun update hu => ?_⟩
        rcases List.mem_cons.mp hu with rfl | hu
        · exact ⟨⟨current, List.mem_cons_self, rfl, hlink⟩, ⟨hash n, hsecret⟩, hchanged⟩
        · obtain ⟨⟨l, hl, hid, hassign⟩, hsec, hch⟩ := hmerged update hu
          exact ⟨⟨l, List.mem_cons_of_mem _ hl, hid, hassign⟩, hsec, hch⟩

theorem merge_ok {hash : ℕ → SecretHash} {p : Patch} {links : List Link}
    {updates : List LinkUpdate} (h : p.merge hash links = .ok updates)
    (hids : links.map Link.id = p.route.ids) :
    updates.map LinkUpdate.id = p.route.ids ∧ ∀ update ∈ updates, Merged p.set links update := by
  unfold Patch.merge at h
  split at h
  · rename_i id hroute
    rw [hroute] at hids ⊢
    exact mergeEach_ok h hids
  · rename_i ids hroute
    rw [hroute] at hids ⊢
    exact mergeEach_ok h hids

theorem read_ids {io : Script} {db : Database} {p : Patch} {links : List Link}
    (h : p.read io db = .ok links) : links.map Link.id = p.route.ids := by
  unfold Patch.read at h
  split at h
  · rename_i id hroute
    rw [hroute]
    cases hread : linkByID io db p.user id with
    | error e =>
      rw [hread] at h
      cases h
    | ok link =>
      rw [hread] at h
      cases h
      rw [List.map_singleton, (shown_of_linkByID hread).2]
      rfl
  · rename_i ids hroute
    rw [hroute]
    exact (shown_of_linksByIDs h).2

/-- What a committed update leaves behind: the stored forms of its settings, and its hash if
the password has changed. -/
def Landed (before after : Database) (update : LinkUpdate) : Prop :=
  ∃ r r', before.link update.id = some r ∧ after.link update.id = some r' ∧
    (∀ f, f ≠ .password →
      stored update.id f (value update.link f) = some (value (readBack after r') f)) ∧
    r'.passwordHash = if update.passwordChanged then update.passwordHash else r.passwordHash

theorem landed_of_stores {before after : Database} {update : LinkUpdate} {link : Link}
    (h : Stores before after update.id link
      (if update.passwordChanged then some update.passwordHash else none))
    (hvalid : validateLink link = none)
    (hlink : ∀ f, f ≠ .password →
      stored update.id f (value update.link f) = stored update.id f (value link f)) :
    Landed before after update := by
  obtain ⟨r', hr', hstored⟩ := h.stored (redirectCode_of_valid hvalid)
  obtain ⟨r, q, hr, hq, hpassword⟩ := h.password
  obtain rfl : r' = q := Option.some.inj (hr'.symm.trans hq)
  refine ⟨r, r', hr, hr', fun f hf => (hlink f hf).trans (hstored f hf), ?_⟩
  rw [hpassword]
  split <;> rfl

/-- The single update stores 302 for a code of zero, which is the stored form of zero. -/
theorem stored_updateLinkInput (id : ℤ) (link : Link) (hash : Str) (changed : Bool)
    {f : Setting} (hf : f ≠ .password) :
    stored id f (value link f) = stored id f (value (updateLinkInput link hash changed) f) := by
  cases f with
  | password => exact absurd rfl hf
  | redirectCode =>
    by_cases hcode : link.redirectCode = 0 <;> simp [value, updateLinkInput, stored, hcode]
  | _ => rfl

theorem checkUpdates_none {updates : List LinkUpdate} (h : checkUpdates updates = none) :
    ∀ update ∈ updates, validateLink update.link = none := by
  induction updates with
  | nil => simp
  | cons update rest ih =>
    unfold checkUpdates at h
    split at h
    · cases h
    · rename_i hvalid
      intro next hnext
      rcases List.mem_cons.mp hnext with rfl | hnext
      · exact hvalid
      · exact ih h next hnext

theorem write_ok {io : Script} {db : Database} {p : Patch} {updates : List LinkUpdate}
    (hids : updates.map LinkUpdate.id = p.route.ids)
    (h : (p.write io db updates).1 = none) :
    ∀ update ∈ updates, Landed db (p.write io db updates).2 update := by
  cases hroute : p.route with
  | one id =>
    rw [hroute] at hids
    obtain ⟨update, rfl⟩ : ∃ update, updates = [update] := by
      have hlength := congrArg List.length hids
      rw [List.length_map] at hlength
      exact List.length_eq_one_iff.mp hlength
    have hid : update.id = id := by simpa [Route.ids] using hids
    subst hid
    simp only [Patch.write, hroute, updateLinkWrite] at h ⊢
    split
    · rename_i hinvalid
      rw [hinvalid] at h
      cases h
    · rename_i hvalid
      rw [hvalid] at h
      intro u hu
      obtain rfl := List.mem_singleton.mp hu
      exact landed_of_stores (stores_updateLinkTx (inTx_none h)) hvalid fun f hf =>
        stored_updateLinkInput _ _ _ _ hf
  | many ids =>
    simp only [Patch.write, hroute, updateLinksBulkWrite] at h ⊢
    split
    · rename_i hnil
      simp [hnil]
    rename_i hne
    rw [if_neg hne] at h
    split
    · rename_i hinvalid
      rw [hinvalid] at h
      cases h
    · rename_i hvalid
      rw [hvalid] at h
      intro update hu
      exact landed_of_stores ((stores_updateLinksBulkTx (inTx_none h)).2 update hu)
        (checkUpdates_none hvalid update hu) fun f hf => rfl

/-! What one step changes. -/

def Phase.parts : Phase → Option (List Link × List LinkUpdate)
  | .merged links updates => some (links, updates)
  | .committed links updates => some (links, updates)
  | .answered links updates _ => some (links, updates)
  | _ => none

def Phase.done : Phase → Bool
  | .committed .. => true
  | .answered .. => true
  | _ => false

/-- The request was answered with the links it has written. -/
def Phase.succeeded : Phase → Bool
  | .answered _ _ (.ok _) => true
  | _ => false

def Label.request : Label → Option ℕ
  | .read r _ => some r
  | .merge r _ => some r
  | .write r _ => some r
  | .respond r _ => some r
  | .call .. => none

def Refused (s : Config) (r : ℕ) : Prop := ∃ reason, s.phase r = .refused reason

/-- A step of one request: it is refused, fails to write, goes on without writing or commits. -/
inductive Moves (s : Config) (r : ℕ) (p : Patch) : Config → Prop where
  | refuse (reason : Refusal) : Moves s r p (s.move r (.refused reason))
  | fail (links : List Link) (updates : List LinkUpdate) (io : Script) (e : Err)
      (merged : s.phase r = .merged links updates)
      (write : (p.write io s.db updates).1 = some e) :
      Moves s r p { s.move r (.refused (.store e)) with db := (p.write io s.db updates).2 }
  | advance (x : Phase) (done : x.done = (s.phase r).done)
      (parts : x.done = true → x.parts = (s.phase r).parts) : Moves s r p (s.move r x)
  | commit (links : List Link) (updates : List LinkUpdate) (io : Script)
      (merged : s.phase r = .merged links updates)
      (write : (p.write io s.db updates).1 = none) :
      Moves s r p { s.move r (.committed links updates) with
        db := (p.write io s.db updates).2, commits := s.commits ++ [r] }

/-- Every step is a step of a request that is not refused, or another call. -/
theorem next_cases {patches : ℕ → Option Patch} {s t : Config} {l : Label}
    (h : next patches s l = some t) :
    (∃ r p, l.request = some r ∧ patches r = some p ∧ ¬ Refused s r ∧ Moves s r p t) ∨
      ∃ u c io, l = .call u c io ∧ Call.other c = true ∧
        t = { s with db := (c.write io s.db u).2 } := by
  have hlive {r : ℕ} {x : Phase} (hx : s.phase r = x) (hne : ∀ reason, x ≠ .refused reason) :
      ¬ Refused s r := by
    rintro ⟨reason, hr⟩
    exact hne reason (hx.symm.trans hr)
  cases l with
  | read r io =>
    simp only [next] at h
    split at h
    · rename_i p hp hphase
      refine Or.inl ⟨r, p, rfl, hp, hlive hphase (by simp), ?_⟩
      split at h
      · cases h
        exact .refuse _
      split at h
      · cases h
        exact .refuse _
      · cases h
        exact .advance _ (by rw [hphase]; rfl) (by simp [Phase.done])
    · cases h
  | merge r hash =>
    simp only [next] at h
    split at h
    · rename_i p links hp hphase
      refine Or.inl ⟨r, p, rfl, hp, hlive hphase (by simp), ?_⟩
      split at h
      · cases h
        exact .refuse _
      · cases h
        exact .advance _ (by rw [hphase]; rfl) (by simp [Phase.done])
    · cases h
  | write r io =>
    simp only [next] at h
    split at h
    · rename_i p links updates hp hphase
      refine Or.inl ⟨r, p, rfl, hp, hlive hphase (by simp), ?_⟩
      split at h
      · rename_i e db hwrite
        cases h
        have hdb : db = (p.write io s.db updates).2 := by rw [hwrite]
        rw [hdb]
        exact .fail links updates io e hphase (by rw [hwrite])
      · rename_i db hwrite
        cases h
        have hdb : db = (p.write io s.db updates).2 := by rw [hwrite]
        rw [hdb]
        exact .commit links updates io hphase (by rw [hwrite])
    · cases h
  | respond r io =>
    simp only [next] at h
    split at h
    · rename_i p links updates hp hphase
      refine Or.inl ⟨r, p, rfl, hp, hlive hphase (by simp), ?_⟩
      cases h
      exact .advance _ (by rw [hphase]; rfl) (by rw [hphase]; exact fun _ => rfl)
    · cases h
  | call u c io =>
    simp only [next] at h
    split at h
    · rename_i hother
      cases h
      exact Or.inr ⟨u, c, io, rfl, hother, rfl⟩
    · cases h

/-! What every run keeps. -/

/-- The links a request has read: those of its route, each once. -/
def Patch.Reads (p : Patch) (links : List Link) : Prop :=
  links.map Link.id = p.route.ids ∧ p.route.ids.Nodup

theorem nodup_of_malformed {p : Patch} (h : p.malformed = none) : p.route.ids.Nodup := by
  unfold Patch.malformed at h
  split at h
  · rename_i id hroute
    rw [hroute]
    exact List.nodup_singleton id
  · rename_i ids hroute
    rw [hroute]
    split at h
    · cases h
    split at h
    · cases h
    split at h
    · cases h
    · rename_i hids
      simp only [Bool.or_eq_true, Bool.not_eq_true', decide_eq_false_iff_not, not_or,
        not_not] at hids
      exact hids.2

/-- What a request has at hand is about the links of its route. -/
structure Wellformed (patches : ℕ → Option Patch) (s : Config) : Prop where
  seen : ∀ r p links, patches r = some p → s.phase r = .seen links → p.Reads links
  merged : ∀ r p links updates, patches r = some p → (s.phase r).parts = some (links, updates) →
    p.Reads links ∧ updates.map LinkUpdate.id = p.route.ids ∧
      ∀ update ∈ updates, Merged p.set links update

theorem wellformed_initial (patches : ℕ → Option Patch) (db : Database) :
    Wellformed patches (initial db) := by
  constructor
  · intro r p links _ h
    cases h
  · intro r p links updates _ h
    cases h

/-- A request that moves keeps the others where they are. -/
theorem Wellformed.move {patches : ℕ → Option Patch} {s t : Config} (h : Wellformed patches s)
    {r : ℕ} {x : Phase} (ht : t.phase = Function.update s.phase r x)
    (hseen : ∀ p links, patches r = some p → x = .seen links → p.Reads links)
    (hmerged : ∀ p links updates, patches r = some p → x.parts = some (links, updates) →
      p.Reads links ∧ updates.map LinkUpdate.id = p.route.ids ∧
        ∀ update ∈ updates, Merged p.set links update) : Wellformed patches t := by
  constructor
  · intro q p links hp hq
    rw [ht] at hq
    by_cases hqr : q = r
    · subst hqr
      rw [Function.update_self] at hq
      exact hseen p links hp hq
    · rw [Function.update_of_ne hqr] at hq
      exact h.seen q p links hp hq
  · intro q p links updates hp hq
    rw [ht] at hq
    by_cases hqr : q = r
    · subst hqr
      rw [Function.update_self] at hq
      exact hmerged p links updates hp hq
    · rw [Function.update_of_ne hqr] at hq
      exact h.merged q p links updates hp hq

theorem wellformed_step {patches : ℕ → Option Patch} {s t : Config} {l : Label}
    (h : Wellformed patches s) (hstep : next patches s l = some t) : Wellformed patches t := by
  cases l with
  | read r io =>
    simp only [next] at hstep
    split at hstep
    · rename_i p hp hphase
      split at hstep
      · cases hstep
        exact h.move rfl (by simp) (by simp [Phase.parts])
      rename_i hmalformed
      split at hstep
      · cases hstep
        exact h.move rfl (by simp) (by simp [Phase.parts])
      · rename_i links hread
        cases hstep
        refine h.move rfl (fun q xs hq hxs => ?_) (by simp [Phase.parts])
        cases hxs
        obtain rfl : p = q := Option.some.inj (hp.symm.trans hq)
        exact ⟨read_ids hread, nodup_of_malformed hmalformed⟩
    · cases hstep
  | merge r hash =>
    simp only [next] at hstep
    split at hstep
    · rename_i p links hp hphase
      split at hstep
      · cases hstep
        exact h.move rfl (by simp) (by simp [Phase.parts])
      · rename_i updates hmerge
        cases hstep
        refine h.move rfl (by simp) fun q xs us hq hparts => ?_
        cases hparts
        obtain rfl : p = q := Option.some.inj (hp.symm.trans hq)
        have hreads := h.seen r p links hp hphase
        exact ⟨hreads, merge_ok hmerge hreads.1⟩
    · cases hstep
  | write r io =>
    simp only [next] at hstep
    split at hstep
    · rename_i p links updates hp hphase
      split at hstep
      · cases hstep
        exact h.move rfl (by simp) (by simp [Phase.parts])
      · cases hstep
        refine h.move rfl (by simp) fun q xs us hq hparts => ?_
        exact h.merged r q xs us hq (by rw [hphase]; exact hparts)
    · cases hstep
  | respond r io =>
    simp only [next] at hstep
    split at hstep
    · rename_i p links updates hp hphase
      cases hstep
      refine h.move rfl (by simp) fun q xs us hq hparts => ?_
      exact h.merged r q xs us hq (by rw [hphase]; exact hparts)
    · cases hstep
  | call u c io =>
    simp only [next] at hstep
    split at hstep
    · cases hstep
      exact ⟨h.seen, h.merged⟩
    · cases hstep

end LinkEdits
