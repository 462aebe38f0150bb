import ShortQ.Hosts
import ShortQ.LinkStore

/-! # Custom domains

The table `tenant_domains` and the store calls on it. -/
namespace TenantDomains

open GoText
open GoTime (Time)
open Hosts
open LinkStore
open LinkValidation
open Models
open RowTable
open Schema
open Transaction

structure DomainRow where
  id : ℤ
  tenantId : ℤ
  domain : Str
  active : Bool
  token : Str
  notFoundUrl : Str
  verifiedAt : Option Time
  deriving DecidableEq, Repr

def domainClash (a b : DomainRow) : Prop := a.id = b.id ∨ a.domain = b.domain

instance : DecidableRel domainClash := fun a b =>
  inferInstanceAs (Decidable (a.id = b.id ∨ a.domain = b.domain))

theorem domainClash_symm (a b : DomainRow) (h : domainClash a b) : domainClash b a :=
  h.imp Eq.symm Eq.symm

/-- `nextId` is the identity sequence; `tenants` are the ids a domain may refer to. -/
structure Domains where
  table : Table DomainRow domainClash
  nextId : ℤ
  tenants : List ℤ

def Domains.rows (s : Domains) : List DomainRow := s.table.rows

/-- `CreateTenantDomain`. A refused insert has drawn its id. -/
def createTenantDomain (unicode : Unicode) (s : Domains) (u : User) (tenantId : ℤ)
    (domain token : Str) : Option Err × Domains :=
  let domain := cleanDomain unicode domain
  let refused := (some .schema, { s with nextId := s.nextId + 1 })
  if !domainRe domain then (some (.rejected (lit "domain invalid")), s)
  else if u.role = .tenant && u.tenantId ≠ some tenantId then
    (some (.rejected (lit "tenant scope invalid")), s)
  else if u.role ≠ .tenant && u.role ≠ .superadmin then
    (some (.rejected (lit "tenant or superadmin only")), s)
  else if s.tenants.contains tenantId then
    match varchar 190 domain, varchar 80 token with
    | some domain, some token =>
      match s.table.insert ⟨s.nextId, tenantId, domain, false, token, [], none⟩ with
      | some table =>
        (none, { s with
          table := table
          nextId := s.nextId + 1 })
      | none => refused
    | _, _ => refused
  else refused

def tenantDomainByDomain (unicode : Unicode) (s : Domains) (domain : Str) : Option DomainRow :=
  s.table.find (·.domain = cleanDomain unicode domain)

/-- The rows an administrator may name: none is a refused call. -/
def domainScope (u : User) : Option (DomainRow → Bool) :=
  match u.role, u.tenantId with
  | .superadmin, _ => some fun _ => true
  | .tenant, some t => some fun d => d.tenantId = t
  | _, _ => none

def tenantDomainByID (s : Domains) (u : User) (id : ℤ) : Option DomainRow :=
  (domainScope u).bind fun scope => s.table.find fun d => d.id = id && scope d

def setVerified (verified : Bool) (now : Time) (d : DomainRow) : DomainRow :=
  if verified then
    { d with
      active := true
      verifiedAt := some ((timestamptz now).getD now) }
  else
    { d with
      active := false
      verifiedAt := none }

theorem keeps_setVerified (verified : Bool) (now : Time) :
    Table.Keeps domainClash (setVerified verified now) := by
  intro a b
  cases verified <;> exact ⟨Iff.rfl, Iff.rfl⟩

/-- `SetTenantDomainVerified`. -/
def setTenantDomainVerified (s : Domains) (id : ℤ) (verified : Bool) (now : Time) : Domains :=
  { s with
    table := s.table.update (·.id = id) (setVerified verified now)
      (keeps_setVerified verified now) }

def deleteTenantDomain (s : Domains) (u : User) (id : ℤ) : Domains :=
  match domainScope u with
  | none => s
  | some scope =>
    { s with
      table := s.table.restrict (s.rows.filter fun d => !(d.id = id && scope d))
        List.filter_sublist }

def setNotFound (url : Str) (d : DomainRow) : DomainRow := { d with notFoundUrl := url }

theorem keeps_setNotFound (url : Str) : Table.Keeps domainClash (setNotFound url) :=
  fun _ _ => ⟨Iff.rfl, Iff.rfl⟩

/-- `UpdateTenantDomain`. -/
def updateTenantDomain (s : Domains) (u : User) (id : ℤ) (url : Str) : Domains :=
  match domainScope u, text url with
  | some scope, some url =>
    if url ≠ [] && (validHTTPURL url).isSome then s
    else
      { s with
        table := s.table.update (fun d => d.id = id && scope d) (setNotFound url)
          (keeps_setNotFound url) }
  | _, _ => s

def activeDomainAliasesForTenant (s : Domains) (tenantId : Option ℤ) : List Str :=
  match tenantId with
  | none => []
  | some t => ((s.rows.filter fun d => d.tenantId = t && d.active).map DomainRow.domain).mergeSort
      fun a b => decide (a ≤ b)

def activeLinkSlugsForTenant (db : Database) (tenantId : ℤ) : List Str :=
  ((db.links.rows.filter fun r => r.tenantId = some tenantId && r.deletedAt.isNone).mergeSort
    fun a b => decide (a.id ≤ b.id)).map LinkRow.slug

/-- `verifyDomain`, given the TXT records of the domain. -/
def verifyDomain (baseHost : Str) (d : DomainRow) (texts : List Str) : Bool :=
  baseHost ≠ [] && texts.contains (lit "shortq-verify=" ++ d.token)

def hours24 : ℤ := 24 * 3600 * GoTime.second

/-- `time.Since(verifiedAt) < 24h`. -/
def fresh (clock : Time) (d : DomainRow) : Bool :=
  d.verifiedAt.any fun v => clock.nanos - v.nanos < hours24

/-! What the calls leave of a row. -/

/-- The fields that no call writes. -/
def SameDomain (a b : DomainRow) : Prop :=
  a.id = b.id ∧ a.tenantId = b.tenantId ∧ a.domain = b.domain ∧ a.token = b.token

theorem SameDomain.refl (d : DomainRow) : SameDomain d d := ⟨rfl, rfl, rfl, rfl⟩

theorem SameDomain.trans {a b c : DomainRow} (h : SameDomain a b) (k : SameDomain b c) :
    SameDomain a c :=
  ⟨h.1.trans k.1, h.2.1.trans k.2.1, h.2.2.1.trans k.2.2.1, h.2.2.2.trans k.2.2.2⟩

theorem sameDomain_setVerified (verified : Bool) (now : Time) (d : DomainRow) :
    SameDomain (setVerified verified now d) d := by
  cases verified <;> exact ⟨rfl, rfl, rfl, rfl⟩

theorem row_unique {s : Domains} {a b : DomainRow} (ha : a ∈ s.rows) (hb : b ∈ s.rows)
    (h : a.id = b.id) : a = b :=
  s.table.eq_of_clash domainClash_symm ha hb (Or.inl h)

/-- Later rows stem from earlier ones or have newer ids. -/
structure Descends (s t : Domains) : Prop where
  nextId : s.nextId ≤ t.nextId
  rows : ∀ d ∈ t.rows, (∃ d' ∈ s.rows, SameDomain d d') ∨ s.nextId ≤ d.id

theorem Descends.refl (s : Domains) : Descends s s :=
  ⟨le_refl _, fun d hd => Or.inl ⟨d, hd, .refl d⟩⟩

/-- What `CreateTenantDomain` leaves: the same rows, or one more that is pending and new. -/
theorem create_rows (unicode : Unicode) (s : Domains) (u : User) (tenantId : ℤ)
    (domain token : Str) :
    s.nextId ≤ (createTenantDomain unicode s u tenantId domain token).2.nextId ∧
      ∀ d ∈ (createTenantDomain unicode s u tenantId domain token).2.rows, d ∈ s.rows ∨
        d.id = s.nextId ∧ d.active = false ∧
          s.nextId < (createTenantDomain unicode s u tenantId domain token).2.nextId := by
  unfold createTenantDomain
  dsimp only
  split
  · exact ⟨le_refl _, fun d hd => Or.inl hd⟩
  split
  · exact ⟨le_refl _, fun d hd => Or.inl hd⟩
  split
  · exact ⟨le_refl _, fun d hd => Or.inl hd⟩
  have hnext : s.nextId < s.nextId + 1 := by omega
  split
  · split
    · split
      · rename_i table hinsert
        refine ⟨hnext.le, fun d hd => ?_⟩
        rw [Domains.rows, (Table.insert_eq_some.mp hinsert).2] at hd
        rcases List.mem_append.mp hd with hd | hd
        · exact Or.inl hd
        · obtain rfl := List.mem_singleton.mp hd
          exact Or.inr ⟨rfl, rfl, hnext⟩
      · exact ⟨hnext.le, fun d hd => Or.inl hd⟩
    · exact ⟨hnext.le, fun d hd => Or.inl hd⟩
  · exact ⟨hnext.le, fun d hd => Or.inl hd⟩

theorem descends_create (unicode : Unicode) (s : Domains) (u : User) (tenantId : ℤ)
    (domain token : Str) :
    Descends s (createTenantDomain unicode s u tenantId domain token).2 := by
  obtain ⟨hnext, hrows⟩ := create_rows unicode s u tenantId domain token
  refine ⟨hnext, fun d hd => ?_⟩
  rcases hrows d hd with hd | ⟨hid, -⟩
  · exact Or.inl ⟨d, hd, .refl d⟩
  · exact Or.inr hid.ge

theorem find_row {s : Domains} {p : DomainRow → Bool} {d : DomainRow}
    (h : s.table.find p = some d) : d ∈ s.rows ∧ p d = true :=
  ⟨List.mem_of_find?_eq_some h, List.find?_some h⟩

theorem rows_setTenantDomainVerified (s : Domains) (id : ℤ) (verified : Bool) (now : Time) :
    (setTenantDomainVerified s id verified now).rows =
      s.rows.map fun d => if d.id = id then setVerified verified now d else d := by
  simp [setTenantDomainVerified, Domains.rows]

theorem rows_deleteTenantDomain {s : Domains} {u : User} {id : ℤ} {d : DomainRow}
    (h : d ∈ (deleteTenantDomain s u id).rows) : d ∈ s.rows := by
  unfold deleteTenantDomain at h
  split at h
  · exact h
  · exact (List.mem_filter.mp h).1

theorem rows_updateTenantDomain {s : Domains} {u : User} {id : ℤ} {url : Str} {d : DomainRow}
    (h : d ∈ (updateTenantDomain s u id url).rows) :
    ∃ d' ∈ s.rows, SameDomain d d' ∧ d.active = d'.active ∧ d.verifiedAt = d'.verifiedAt := by
  unfold updateTenantDomain at h
  split at h
  · split at h
    · exact ⟨d, h, .refl d, rfl, rfl⟩
    · rw [Domains.rows, Table.rows_update] at h
      obtain ⟨d', hd', rfl⟩ := List.mem_map.mp h
      refine ⟨d', hd', ?_⟩
      split <;> exact ⟨⟨rfl, rfl, rfl, rfl⟩, rfl, rfl⟩
  · exact ⟨d, h, .refl d, rfl, rfl⟩

theorem nextId_updateTenantDomain (s : Domains) (u : User) (id : ℤ) (url : Str) :
    (updateTenantDomain s u id url).nextId = s.nextId := by
  unfold updateTenantDomain
  split
  · split <;> rfl
  · rfl

theorem nextId_deleteTenantDomain (s : Domains) (u : User) (id : ℤ) :
    (deleteTenantDomain s u id).nextId = s.nextId := by
  unfold deleteTenantDomain
  split <;> rfl

theorem descends_update (s : Domains) (u : User) (id : ℤ) (url : Str) :
    Descends s (updateTenantDomain s u id url) := by
  refine ⟨(nextId_updateTenantDomain s u id url).ge, fun d hd => ?_⟩
  obtain ⟨d', hd', hsame, -⟩ := rows_updateTenantDomain hd
  exact Or.inl ⟨d', hd', hsame⟩

theorem descends_delete (s : Domains) (u : User) (id : ℤ) :
    Descends s (deleteTenantDomain s u id) :=
  ⟨(nextId_deleteTenantDomain s u id).ge, fun d hd =>
    Or.inl ⟨d, rows_deleteTenantDomain hd, .refl d⟩⟩

theorem descends_setVerified (s : Domains) (id : ℤ) (verified : Bool) (now : Time) :
    Descends s (setTenantDomainVerified s id verified now) := by
  refine ⟨le_refl _, fun d hd => ?_⟩
  rw [rows_setTenantDomainVerified] at hd
  obtain ⟨d', hd', rfl⟩ := List.mem_map.mp hd
  refine Or.inl ⟨d', hd', ?_⟩
  split
  · exact sameDomain_setVerified verified now d'
  · exact .refl d'

end TenantDomains
