import ShortQ.DistinctOn
import ShortQ.LinkHandlers

/-! # Short addresses of many links

`addShortURLs` beside `shortURL`: the domains of all tenants in one query, and a lookup for each
link. -/
namespace ShortURLs

open AuditedHandlers
open DistinctOn
open GoText
open GoTime (Time)
open Hosts
open LinkHandlers
open Models
open TenantDomains

/-- One round of the loop that lists the tenants: the list so far with the map of those seen. -/
def ask (state : List ℤ × (ℤ → Bool)) (link : Link) : List ℤ × (ℤ → Bool) :=
  match link.tenantId with
  | some t => if state.2 t then state else (state.1 ++ [t], Function.update state.2 t true)
  | none => state

def tenantIDs (links : List Link) : List ℤ := (links.foldl ask ([], fun _ => false)).1

/-- `ORDER BY tenant_id, verified_at DESC, id DESC`. -/
def byTenant (a b : DomainRow) : Bool :=
  a.tenantId < b.tenantId || (a.tenantId = b.tenantId && newer a b)

/-- `ActiveDomainsForTenants`. -/
def activeDomainsForTenants (s : Domains) (ids : List ℤ) : ℤ → Option Str :=
  if ids = [] then fun _ => none
  else
    collect DomainRow.tenantId DomainRow.domain <| distinctOn DomainRow.tenantId <|
      (s.rows.filter fun d => d.active && ids.contains d.tenantId).mergeSort byTenant

/-- `addShortURLs`: the address each link is given. A tenant that is not in the map reads as the
empty domain. -/
def addShortURLs (server : Server) (s : Domains) (links : List Link) : List Entry :=
  let domains := activeDomainsForTenants s (tenantIDs links)
  let base := server.baseUrl.rdropWhile (· = 47)
  links.map fun link =>
    let domain := (link.tenantId.bind domains).getD []
    if link.tenantId.isSome && domain ≠ [] then
      ⟨link, lit "https://" ++ domain ++ lit "/s/" ++ link.slug⟩
    else ⟨link, base ++ lit "/s/" ++ link.slug⟩

/-! The tenants asked for. -/

/-- The map tells which tenants the list holds. -/
def Tracks (state : List ℤ × (ℤ → Bool)) : Prop := ∀ t, state.2 t = true ↔ t ∈ state.1

theorem ask_tracks {state : List ℤ × (ℤ → Bool)} (h : Tracks state) (link : Link) :
    Tracks (ask state link) := by
  unfold ask
  cases link.tenantId with
  | none => exact h
  | some x =>
    dsimp only
    split
    · exact h
    · intro t
      dsimp only
      rw [List.mem_append, List.mem_singleton]
      by_cases ht : t = x
      · rw [ht, Function.update_self]
        simp
      · rw [Function.update_of_ne ht, h t]
        simp [ht]

theorem mem_ask {state : List ℤ × (ℤ → Bool)} (h : Tracks state) (link : Link) (t : ℤ) :
    t ∈ (ask state link).1 ↔ t ∈ state.1 ∨ link.tenantId = some t := by
  unfold ask
  cases link.tenantId with
  | none => simp
  | some x =>
    dsimp only
    split
    · rename_i hseen
      constructor
      · exact Or.inl
      · rintro (hmem | heq)
        · exact hmem
        · rw [← Option.some.inj heq]
          exact (h x).mp hseen
    · rw [List.mem_append, List.mem_singleton, Option.some.injEq, eq_comm (a := t)]

theorem mem_foldl_ask (links : List Link) {state : List ℤ × (ℤ → Bool)} (h : Tracks state)
    (t : ℤ) :
    t ∈ (links.foldl ask state).1 ↔ t ∈ state.1 ∨ ∃ link ∈ links, link.tenantId = some t := by
  induction links generalizing state with
  | nil => simp
  | cons link rest ih =>
    rw [List.foldl_cons, ih (ask_tracks h link), mem_ask h, List.exists_mem_cons_iff, or_assoc]

theorem mem_tenantIDs {links : List Link} {t : ℤ} :
    t ∈ tenantIDs links ↔ ∃ link ∈ links, link.tenantId = some t := by
  rw [tenantIDs, mem_foldl_ask links (by simp [Tracks])]
  simp

/-! The order of the domains. -/

theorem same_instant {x y : Time} : x = y ↔ x.nanos = y.nanos := by
  constructor
  · exact congrArg Time.nanos
  · cases x
    cases y
    exact congrArg Time.mk

theorem newer_trans {a b c : DomainRow} (hab : newer a b = true) (hbc : newer b c = true) :
    newer a c = true := by
  revert hab hbc
  unfold newer
  rcases a.verifiedAt with _ | x <;> rcases b.verifiedAt with _ | y <;>
    rcases c.verifiedAt with _ | z <;> simp [same_instant] <;> omega

theorem newer_total (a b : DomainRow) : (newer a b || newer b a) = true := by
  unfold newer
  rcases a.verifiedAt with _ | x <;> rcases b.verifiedAt with _ | y <;>
    simp [same_instant] <;> omega

theorem newer_id {a b : DomainRow} (hab : newer a b = true) (hba : newer b a = true) :
    a.id = b.id := by
  revert hab hba
  unfold newer
  rcases a.verifiedAt with _ | x <;> rcases b.verifiedAt with _ | y <;>
    simp [same_instant] <;> omega

theorem byTenant_iff {a b : DomainRow} : byTenant a b = true ↔
    a.tenantId < b.tenantId ∨ a.tenantId = b.tenantId ∧ newer a b = true := by
  simp [byTenant]

theorem byTenant_trans (a b c : DomainRow) (hab : byTenant a b = true)
    (hbc : byTenant b c = true) : byTenant a c = true := by
  rw [byTenant_iff] at hab hbc ⊢
  rcases hab with hab | ⟨hab, hab'⟩
  · rcases hbc with hbc | ⟨hbc, _⟩
    · exact Or.inl (by omega)
    · exact Or.inl (by omega)
  · rcases hbc with hbc | ⟨hbc, hbc'⟩
    · exact Or.inl (by omega)
    · exact Or.inr ⟨hab.trans hbc, newer_trans hab' hbc'⟩

theorem byTenant_total (a b : DomainRow) : (byTenant a b || byTenant b a) = true := by
  rw [Bool.or_eq_true, byTenant_iff, byTenant_iff]
  rcases lt_trichotomy a.tenantId b.tenantId with h | h | h
  · exact Or.inl (Or.inl h)
  · rcases (Bool.or_eq_true _ _).mp (newer_total a b) with hnewer | hnewer
    · exact Or.inl (Or.inr ⟨h, hnewer⟩)
    · exact Or.inr (Or.inr ⟨h.symm, hnewer⟩)
  · exact Or.inr (Or.inl h)

/-- Within one tenant the two queries see the domains in one order. -/
theorem sorted_of_tenant (s : Domains) {ids : List ℤ} {t : ℤ} (ht : t ∈ ids) :
    ((s.rows.filter fun d => d.active && ids.contains d.tenantId).mergeSort byTenant).filter
        (·.tenantId = t)
      = (s.rows.filter fun d => some d.tenantId = some t && d.active).mergeSort newer := by
  rw [@filter_mergeSort _ byTenant newer _ _ byTenant_trans byTenant_total
    (fun _ _ _ => newer_trans) newer_total, List.filter_filter]
  · congr 1
    apply List.filter_congr
    intro d _
    by_cases hd : d.tenantId = t
    · simp [hd, ht]
    · simp [hd]
  · intro a b ha hb hab
    rcases byTenant_iff.mp hab with h | ⟨_, h⟩
    · rw [of_decide_eq_true ha, of_decide_eq_true hb] at h
      exact absurd h (lt_irrefl t)
    · exact h
  · intro a ha b hb hab hba
    have hrow (d : DomainRow) (hd : d ∈ (s.rows.filter fun d => d.active &&
        ids.contains d.tenantId).filter (·.tenantId = t)) : d ∈ s.rows :=
      List.mem_of_mem_filter (List.mem_of_mem_filter hd)
    exact s.table.eq_of_clash domainClash_symm (hrow a ha) (hrow b hb)
      (Or.inl (newer_id hab hba))

/-- The map holds for a tenant it was asked for what the single query finds. -/
theorem activeDomains_eq (s : Domains) {ids : List ℤ} {t : ℤ} (ht : t ∈ ids) :
    activeDomainsForTenants s ids t = activeDomainForTenant s (some t) := by
  have hsorted : Grouped (· ≤ ·) DomainRow.tenantId
      ((s.rows.filter fun d => d.active && ids.contains d.tenantId).mergeSort byTenant) := by
    apply (List.pairwise_mergeSort byTenant_trans byTenant_total _).imp
    intro a b hab
    rcases byTenant_iff.mp hab with h | ⟨h, _⟩
    · exact le_of_lt h
    · exact le_of_eq h
  rw [activeDomainsForTenants, if_neg (List.ne_nil_of_mem ht),
    collect_distinct _ _ (distinctOn_pairwise (fun _ _ => le_antisymm) hsorted),
    find_distinctOn, ← List.head?_filter, sorted_of_tenant s ht, activeDomainForTenant]

theorem activeDomain_none (s : Domains) : activeDomainForTenant s none = none := by
  have hfilter : (s.rows.filter fun d => some d.tenantId = none && d.active) = [] := by
    rw [List.filter_eq_nil_iff]
    intro d _
    simp
  rw [activeDomainForTenant, hfilter, List.mergeSort_nil, List.head?_nil, Option.map_none]

/-- The list handlers give every link the address the handlers of one link give it. -/
theorem addShortURLs_eq (server : Server) (s : Domains) (links : List Link) :
    addShortURLs server s links = links.map (entry server s) := by
  unfold addShortURLs
  apply List.map_congr_left
  intro link hlink
  unfold entry shortURL
  cases ht : link.tenantId with
  | none =>
    rw [activeDomain_none]
    rfl
  | some t =>
    have hask : t ∈ tenantIDs links := mem_tenantIDs.mpr ⟨link, hlink, ht⟩
    simp only [Option.bind_some, activeDomains_eq s hask]
    cases activeDomainForTenant s (some t) with
    | none => rfl
    | some domain =>
      by_cases hempty : domain = []
      · simp [hempty]
      · simp [hempty]

end ShortURLs
