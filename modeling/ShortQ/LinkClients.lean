import ShortQ.LabelledRuns
import ShortQ.LinkCalls

/-! # Clients of the link store, interleaved

Each transaction and each later read is one atomic step. A reply carries the error the client
is given and the databases around the call's own transaction. -/
namespace LinkClients

open GoText (Str lit)
open LabelledRuns
open LinkCalls
open LinkScopes
open LinkStore
open Models
open RowTable
open Schema
open Transaction

/-- A client whose transaction has committed and who has not read its result yet. -/
structure Waiting where
  user : User
  readBack : ReadBack
  before : Database
  after : Database

structure Reply where
  client : ℕ
  error : Option Err
  before : Database
  after : Database

structure Config where
  db : Database
  waiting : ℕ → Option Waiting
  replies : List Reply

def initial (db : Database) : Config := ⟨db, fun _ => none, []⟩

inductive Label where
  | call (client : ℕ) (u : User) (c : Call) (io : Script)
  | readBack (client : ℕ) (io : Script)

def errorOf {α : Type} : Except Err α → Option Err
  | .error e => some e
  | .ok _ => none

def next (s : Config) : Label → Option Config
  | .call client u c io =>
    match s.waiting client with
    | some _ => none
    | none =>
      let (error, db) := c.write io s.db u
      match error, c.readBack s.db with
      | none, some readBack =>
        some { s with
          db := db
          waiting := Function.update s.waiting client (some ⟨u, readBack, s.db, db⟩) }
      | error, _ =>
        some { s with db := db, replies := s.replies ++ [⟨client, error, s.db, db⟩] }
  | .readBack client io =>
    match s.waiting client with
    | none => none
    | some w =>
      some { s with
        waiting := Function.update s.waiting client none
        replies := s.replies ++
          [⟨client, errorOf (w.readBack.read io s.db w.user), w.before, w.after⟩] }

/-- An error that the call returns, other than that of its commit. A panic returns nothing. -/
def Returned (e : Err) : Prop := e ≠ .panic ∧ ∀ text, e ≠ .commit text

/-- The reply does not report an error for a call that wrote. -/
def Reply.Truthful (r : Reply) : Prop :=
  ∀ e, r.error = some e → Returned e → SameLinks r.before r.after

/-- The read finds the links it is about, all its queries work, or it panics before them. -/
def Finds (io : Script) (db : Database) (u : User) : ReadBack → Prop
  | .bySlug slug =>
    io.exec 0 = none ∧ io.exec 1 = none ∧
      ∃ r ∈ db.links.rows, r.slug = slug ∧ r.deletedAt = none
  | .byID id =>
    ¬ Placed u ∨ (io.exec 0 = none ∧ io.exec 1 = none ∧
      ∃ r ∈ db.links.rows, r.id = id ∧ r.deletedAt = none ∧ View u r)
  | .byIDs ids =>
    ids = [] ∨ ¬ Placed u ∨ (firstFailure io 0 (chunks ids.length) = none ∧
      firstFailure io (chunks ids.length) (chunks ids.length) = none ∧
      ∀ id ∈ ids, ∃ r ∈ db.links.rows, r.id = id ∧ r.deletedAt = none ∧ View u r)

/-! What a call returns. -/

theorem inTx_error {io : Script} {before : Database} {body : Except Err Database} {e : Err}
    (h : (inTx io before body).1 = some e) (he : Returned e) :
    (inTx io before body).2 = before := by
  unfold inTx at h ⊢
  split
  · rfl
  · rename_i hbegin
    rw [hbegin] at h
    dsimp only at h
    split at h
    · rfl
    · obtain ⟨text, htext⟩ := commitTx_error h
      exact absurd htext (he.2 text)

theorem deleteLink_error {io : Script} {db : Database} {u : User} {id : ℤ} {e : Err}
    (h : (LinkStore.deleteLink io db u id).1 = some e) (he : Returned e) :
    SameLinks db (LinkStore.deleteLink io db u id).2 := by
  unfold LinkStore.deleteLink at h ⊢
  split
  · exact ⟨rfl, rfl⟩
  rename_i scope hscope
  rw [hscope] at h
  dsimp only at h
  split
  · exact ⟨rfl, rfl⟩
  rename_i hexec
  rw [hexec] at h
  dsimp only at h ⊢
  split
  · rename_i e' db' hcommit
    rw [hcommit] at h
    cases h
    obtain ⟨text, htext⟩ := commitTx_error (congrArg Prod.fst hcommit)
    exact absurd htext (he.2 text)
  · rename_i after hcommit
    rw [hcommit] at h
    dsimp only at h ⊢
    split at h
    · rename_i hzero
      have hafter := (commitTx_none (congrArg Prod.fst hcommit)).1
      rw [hcommit] at hafter
      dsimp only at hafter
      rw [hafter]
      exact sameLinks_deleteWhere hzero
    · cases h

/-- A call that fails before its commit has written nothing. -/
theorem write_error {c : Call} {io : Script} {db : Database} {u : User} {e : Err}
    (h : (c.write io db u).1 = some e) (he : Returned e) : SameLinks db (c.write io db u).2 := by
  by_cases hc : ∃ id, c = .deleteLink id
  · obtain ⟨id, rfl⟩ := hc
    exact deleteLink_error h he
  · have hshape := c.shape io db u fun id h => hc ⟨id, h⟩
    generalize c.write io db u = out at h hshape
    cases hshape with
    | refused e => exact ⟨rfl, rfl⟩
    | idle hids => cases h
    | transaction drawn body same writes =>
      rw [inTx_error h he]
      exact same

/-- A result whose errors are all returned is an answer or an error that is returned. -/
theorem not_returned_iff {α : Type} {result : Except Err α}
    (h : ∀ e, result = .error e → Returned e) :
    (∀ e, errorOf result = some e → ¬ Returned e) ↔ ∃ a, result = .ok a := by
  cases result with
  | ok a => simp [errorOf]
  | error e => simp [errorOf, h e rfl]

theorem readLink_error {io : Script} {db : Database} {p : LinkRow → Bool} {e : Err}
    (h : readLink io db p = .error e) : Returned e := by
  unfold readLink Script.call at h
  split at h
  · cases h
    exact ⟨by simp, by simp⟩
  split at h
  · cases h
    exact ⟨by simp, by simp⟩
  split at h
  · cases h
    exact ⟨by simp, by simp⟩
  · cases h

theorem viewScope_error {u : User} {e : Err} (h : addLinkViewScope u false = .error e) :
    e = .panic := by
  unfold addLinkViewScope at h
  split at h <;> cases h
  rfl

/-- Without a tenant the scope of a tenant admin is never built. -/
theorem viewScope_unplaced {u : User} (h : ¬ Placed u) :
    addLinkViewScope u false = .error .panic := by
  cases hscope : addLinkViewScope u false with
  | ok scope => exact absurd (placed_of_viewScope hscope) h
  | error e => rw [viewScope_error hscope]

theorem linkByID_error {io : Script} {db : Database} {u : User} {id : ℤ} {e : Err}
    (hplaced : Placed u) (h : linkByID io db u id = .error e) : Returned e := by
  obtain ⟨scope, hscope, -⟩ := viewScope_eq hplaced
  simp only [linkByID, hscope] at h
  exact readLink_error h

theorem linksByIDs_error {io : Script} {db : Database} {u : User} {ids : List ℤ} {e : Err}
    (hplaced : Placed u) (h : linksByIDs io db u ids = .error e) : Returned e := by
  obtain ⟨scope, hscope, -⟩ := viewScope_eq hplaced
  simp only [linksByIDs, hscope] at h
  split at h
  · cases h
  split at h
  · cases h
    exact ⟨by simp, by simp⟩
  split at h
  · cases h
    exact ⟨by simp, by simp⟩
  split at h
  · cases h
    exact ⟨by simp, by simp⟩
  · cases h

theorem errorOf_map {α β : Type} (f : α → β) (result : Except Err α) :
    errorOf (result.map f) = errorOf result := by
  cases result <;> rfl

/-- A read returns an error exactly when it does not find its links. -/
theorem finds_iff {io : Script} {db : Database} {u : User} {readBack : ReadBack} :
    Finds io db u readBack ↔ ∀ e, errorOf (readBack.read io db u) = some e → ¬ Returned e := by
  cases readBack with
  | bySlug slug =>
    simp only [ReadBack.read, errorOf_map, linkBySlug]
    rw [not_returned_iff fun e => readLink_error, readLink_ok_iff]
    simp only [Finds, Bool.and_eq_true, decide_eq_true_eq, Option.isNone_iff_eq_none]
    tauto
  | byID id =>
    simp only [ReadBack.read, errorOf_map]
    by_cases hplaced : Placed u
    · rw [not_returned_iff fun e => linkByID_error hplaced, linkByID_ok_iff]
      simp [Finds, hplaced]
    · simp [Finds, hplaced, linkByID, viewScope_unplaced hplaced, errorOf, Returned]
  | byIDs ids =>
    simp only [ReadBack.read]
    by_cases hplaced : Placed u
    · rw [not_returned_iff fun e => linksByIDs_error hplaced, linksByIDs_ok_iff]
      simp [Finds, hplaced]
    · by_cases hids : ids = []
      · simp [Finds, hids, linksByIDs, errorOf]
      · simp [Finds, hplaced, linksByIDs, hids, viewScope_unplaced hplaced, errorOf, Returned]

/-! Runs. -/

/-- What a step adds to the replies is true, unless it is a read that misses its links after
a transaction that wrote. -/
def Sound (s : Config) : Label → Prop
  | .call .. => True
  | .readBack client io =>
    ∀ w, s.waiting client = some w → Finds io s.db w.user w.readBack ∨ SameLinks w.before w.after

theorem truthful_readBack {io : Script} {db : Database} {w : Waiting} {client : ℕ} :
    Reply.Truthful ⟨client, errorOf (w.readBack.read io db w.user), w.before, w.after⟩ ↔
      Finds io db w.user w.readBack ∨ SameLinks w.before w.after := by
  rw [finds_iff]
  constructor
  · intro h
    by_cases hsame : SameLinks w.before w.after
    · exact Or.inr hsame
    · exact Or.inl fun e he hreturned => hsame (h e he hreturned)
  · rintro (h | h) e he hreturned
    · exact absurd hreturned (h e he)
    · exact h

/-- One step: the replies stay true exactly when the step is sound. -/
theorem truthful_step {s t : Config} {l : Label} (h : next s l = some t) :
    (∀ r ∈ t.replies, r.Truthful) ↔ (∀ r ∈ s.replies, r.Truthful) ∧ Sound s l := by
  cases l with
  | call client u c io =>
    have hwrite := @write_error c io s.db u
    simp only [next] at h
    split at h
    · cases h
    generalize c.write io s.db u = out at h hwrite
    obtain ⟨error, db⟩ := out
    dsimp only at h
    split at h
    · cases h
      simp [Sound]
    · cases h
      simp only [List.mem_append, List.mem_singleton, or_imp, forall_and, forall_eq, Sound,
        and_true, and_iff_left_iff_imp]
      intro _ e he hreturned
      exact hwrite he hreturned
  | readBack client io =>
    simp only [next] at h
    split at h
    · cases h
    · rename_i w hw
      cases h
      simp only [List.mem_append, List.mem_singleton, or_imp, forall_and, forall_eq, Sound, hw,
        Option.some.injEq, forall_eq', truthful_readBack]

/-- No reply of a run reports an error for a call that wrote if and only if every read of
the run finds its links or follows a transaction that wrote nothing. -/
theorem error_means_nothing_written {db : Database} {es : List Label} {t : Config}
    (h : Execution next (initial db) es t) :
    (∀ r ∈ t.replies, r.Truthful) ↔
      ∀ xs l ys u, es = xs ++ l :: ys → Execution next (initial db) xs u → Sound u l := by
  induction h with
  | refl => simp [initial]
  | @tail es u l v hrun hstep ih =>
    rw [truthful_step hstep, ih]
    constructor
    · rintro ⟨hes, hl⟩ xs m ys w heq hw
      rcases List.eq_nil_or_concat ys with rfl | ⟨zs, z, rfl⟩
      · obtain ⟨rfl, hm⟩ := List.append_inj' heq rfl
        obtain rfl : l = m := by simpa using hm
        have hsame := hrun.replay_eq.symm.trans hw.replay_eq
        cases hsame
        exact hl
      · refine hes xs m zs w ?_ hw
        have heq' : es ++ [l] = (xs ++ m :: zs) ++ [z] := by simpa using heq
        exact (List.append_inj' heq' rfl).1
    · intro hall
      refine ⟨fun xs m ys w heq hw => ?_, hall es l [] u rfl hrun⟩
      exact hall xs m (ys ++ [l]) w (by simp [heq]) hw

def creation : Label :=
  .call 0 ⟨1, some 1, .customer⟩ (.createLink []
    { slug := lit "docs", targetUrl := lit "https://example.com/" } []) {}

/-- The creator reads its link back at once. -/
theorem error_means_nothing_written_quiet :
    ∃ t, Execution next (initial Database.empty) [creation, .readBack 0 {}] t ∧
      ∀ xs l ys u, [creation, .readBack 0 {}] = xs ++ l :: ys →
        Execution next (initial Database.empty) xs u → Sound u l := by
  have hrun : (replay next (initial Database.empty) [creation, .readBack 0 {}]).map
      (fun t => t.replies.map Reply.error) = some [none] := by decide +kernel
  obtain ⟨t, ht, hreplies⟩ := Option.map_eq_some_iff.mp hrun
  have hexec := execution_of_replay ht
  refine ⟨t, hexec, (error_means_nothing_written hexec).mp fun r hr e he => ?_⟩
  have hmem : r.error ∈ t.replies.map Reply.error := List.mem_map_of_mem hr
  rw [hreplies, List.mem_singleton, he] at hmem
  cases hmem

/-- Another client deletes the link before its creator has read it back: the creator is told
that there is no such row, and the row it wrote stays. -/
theorem error_after_commit : ∃ t, Execution next (initial Database.empty)
    [creation, .call 1 ⟨2, some 1, .tenant⟩ (.deleteLink 1) {}, .readBack 0 {}] t ∧
      ¬ ∀ r ∈ t.replies, r.Truthful := by
  have hrun : (replay next (initial Database.empty)
      [creation, .call 1 ⟨2, some 1, .tenant⟩ (.deleteLink 1) {}, .readBack 0 {}]).map (fun t =>
      t.replies.map fun r => (r.error, r.before.links.rows.length, r.after.links.rows.length)) =
      some [(none, 1, 1), (some .noRows, 0, 1)] := by decide +kernel
  obtain ⟨t, ht, hreplies⟩ := Option.map_eq_some_iff.mp hrun
  refine ⟨t, execution_of_replay ht, fun htrue => ?_⟩
  have hmem : ((some .noRows, 0, 1) : Option Err × ℕ × ℕ) ∈ t.replies.map fun r =>
      (r.error, r.before.links.rows.length, r.after.links.rows.length) := by simp [hreplies]
  obtain ⟨r, hr, hr'⟩ := List.mem_map.mp hmem
  simp only [Prod.mk.injEq] at hr'
  obtain ⟨herror, hbefore, hafter⟩ := hr'
  have hsame := (htrue r hr _ herror ⟨by simp, by simp⟩).1
  rw [hsame, hbefore] at hafter
  cases hafter

end LinkClients
