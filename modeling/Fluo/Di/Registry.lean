import Fluo.Lib.OrderedMap
import Fluo.Di.Provider

/-!
# Registrations as seen from a container

A container reads the registrations of its own scope and of its ancestors. A
`View` lists them, nearest scope first, so a recursion over `this.parent` in
`container.ts` is a recursion over the list.
-/

namespace Fluo.Di

structure Registry where
  registrations : OrderedMap Token NormalizedProvider
  multiRegistrations : OrderedMap Token (List NormalizedProvider)
  multiOverriddenTokens : List Token
  deriving Inhabited

abbrev View := List Registry

namespace View

def lookupProvider : View → Token → Option NormalizedProvider
  | [], _ => none
  | r :: parent, t => (r.registrations.get t).or (lookupProvider parent t)

def hasMulti : View → Token → Bool
  | [], _ => false
  | r :: parent, t => r.multiRegistrations.has t || hasMulti parent t

def collectMultiProviders : View → Token → List NormalizedProvider
  | [], _ => []
  | r :: parent, t =>
    let own := (r.multiRegistrations.get t).getD []
    if t ∈ r.multiOverriddenTokens then own else collectMultiProviders parent t ++ own

/-- `has`, on a canonical token. -/
def has (v : View) (t : Token) : Bool := (v.lookupProvider t).isSome || v.hasMulti t

def hasSingleRegistration : View → Token → Bool
  | [], _ => false
  | r :: parent, t => r.registrations.has t || hasSingleRegistration parent t

/-- Every provider the searches of the container consider under a token. -/
def providersOf (v : View) (t : Token) : List NormalizedProvider :=
  (v.lookupProvider t).toList ++ v.collectMultiProviders t

def tokens (v : View) : List Token :=
  v.flatMap fun r => r.registrations.keys ++ r.multiRegistrations.keys

/-- Tokens from which a search can go on: registered ones and classes with
metadata. -/
def searchable (w : World) (v : View) : List Token :=
  v.tokens ++ w.classes.map fun e => Token.cls e.1

/-- A search along its current path is never deeper than this. -/
def depth (w : World) (v : View) : Nat := (v.searchable w).length + 1

theorem mem_tokens {v : View} {t : Token} :
    t ∈ v.tokens ↔ ∃ r ∈ v, r.registrations.has t = true ∨ r.multiRegistrations.has t = true := by
  simp only [tokens, List.mem_flatMap, List.mem_append, OrderedMap.mem_keys]

theorem lookupProvider_mem_tokens {v : View} {t : Token} {p : NormalizedProvider}
    (h : v.lookupProvider t = some p) : t ∈ v.tokens := by
  rw [mem_tokens]
  induction v with
  | nil => cases h
  | cons r parent ih =>
    simp only [lookupProvider, Option.or_eq_some_iff] at h
    rcases h with h | ⟨_, h⟩
    · exact ⟨r, List.mem_cons_self, Or.inl (by simp [OrderedMap.has, h])⟩
    · obtain ⟨r', hr, h'⟩ := ih h
      exact ⟨r', List.mem_cons_of_mem _ hr, h'⟩

theorem collectMultiProviders_mem_tokens {v : View} {t : Token} {p : NormalizedProvider}
    (h : p ∈ v.collectMultiProviders t) : t ∈ v.tokens := by
  rw [mem_tokens]
  induction v with
  | nil => cases h
  | cons r parent ih =>
    have own (hp : p ∈ (r.multiRegistrations.get t).getD []) :
        ∃ r' ∈ r :: parent, r'.registrations.has t = true ∨ r'.multiRegistrations.has t = true := by
      refine ⟨r, List.mem_cons_self, Or.inr ?_⟩
      cases hg : r.multiRegistrations.get t with
      | none => simp [hg] at hp
      | some ps => simp [OrderedMap.has, hg]
    simp only [collectMultiProviders] at h
    split at h
    · exact own h
    · rcases List.mem_append.mp h with h | h
      · obtain ⟨r', hr, h'⟩ := ih h
        exact ⟨r', List.mem_cons_of_mem _ hr, h'⟩
      · exact own h

theorem metadata_mem_searchable {w : World} {v : View} {t : Token} {md : ClassDiMetadata}
    (h : w.getClassDiMetadata t = some md) : t ∈ v.searchable w := by
  refine List.mem_append_right _ ?_
  cases t with
  | str | sym => cases h
  | cls c =>
    obtain ⟨l₁, l₂, he, _⟩ := List.lookup_eq_some_iff.mp h
    exact List.mem_map.mpr ⟨(c, md), by simp [he], rfl⟩

/-- Registrations sit under their own token. -/
def Keyed (v : View) : Prop := ∀ t, ∀ p ∈ v.providersOf t, p.provide = t

end View

/-- Every record of a registry is filed under the token it provides. -/
def Registry.Keyed (r : Registry) : Prop :=
  (∀ t p, r.registrations.get t = some p → p.provide = t) ∧
  ∀ t ps, r.multiRegistrations.get t = some ps → ∀ p ∈ ps, p.provide = t

theorem View.keyed_of_registries {v : View} (h : ∀ r ∈ v, r.Keyed) : v.Keyed := by
  intro t p hp
  rcases List.mem_append.mp hp with hp | hp
  · have hp := Option.mem_toList.mp hp
    clear * - h hp
    induction v with
    | nil => cases hp
    | cons r parent ih =>
      simp only [lookupProvider, Option.or_eq_some_iff] at hp
      rcases hp with hp | ⟨_, hp⟩
      · exact (h r List.mem_cons_self).1 t p hp
      · exact ih (fun r hr => h r (List.mem_cons_of_mem _ hr)) hp
  · clear * - h hp
    induction v with
    | nil => cases hp
    | cons r parent ih =>
      have own (hp : p ∈ (r.multiRegistrations.get t).getD []) : p.provide = t := by
        cases hg : r.multiRegistrations.get t with
        | none => simp [hg] at hp
        | some ps => exact (h r List.mem_cons_self).2 t ps hg p (by simpa [hg] using hp)
      simp only [collectMultiProviders] at hp
      split at hp
      · exact own hp
      · rcases List.mem_append.mp hp with hp | hp
        · exact ih (fun r hr => h r (List.mem_cons_of_mem _ hr)) hp
        · exact own hp

end Fluo.Di
