import Fluo.Lib.Search
import Fluo.Di.GraphQueries

/-!
# The provider graph, and what the scope assertion finds in it

A token offers what its alias chain comes to: the contributions on the way and
the provider at the end. From an offered provider the graph goes on with its
present dependencies. `assertSingletonDependencyScopes` is a search of this
graph; it loses what lies behind the token of the asserted provider, and
request-scoped providers under the empty string.
-/

namespace Fluo.Di

open Search

namespace View

variable (w : World) (v : View)

def absent (d : InjectionToken) : Bool := (v.queries w).absent d

/-- The tokens an inject list stands for, without absent optional ones. -/
def entryTokens (ds : List InjectionToken) : List Token :=
  (ds.filter fun d => !v.absent w d).map w.resolveProviderDependencyToken

/-- What a provider is built from: the target of an alias, or its inject list. -/
def dependencyTokens (p : NormalizedProvider) : List Token :=
  match p.useExisting with
  | some target => [target]
  | none => v.entryTokens w p.inject

def AliasOf (t target : Token) : Prop := ∃ p, v.lookupProvider t = some p ∧ p.useExisting = some target

def EndsIn (t : Token) (q : NormalizedProvider) : Prop := v.lookupProvider t = some q ∧ q.useExisting = none

/-- A token offers a provider, through aliases that are not in `avoid`. -/
def Offers (avoid : List Token) (t : Token) (q : NormalizedProvider) : Prop :=
  ∃ t', Avoids v.AliasOf avoid t t' ∧ (q ∈ v.collectMultiProviders t' ∨ v.EndsIn t' q)

/-- One dependency step. A class that leads to no provider stands for its
metadata. -/
inductive Edge (avoid : List Token) : Token → Token → Prop
  | provider {t t' : Token} {q : NormalizedProvider} (offers : v.Offers avoid t q)
      (dependency : t' ∈ v.dependencyTokens w q) : Edge avoid t t'
  | metadata {t t' : Token} {md : ClassDiMetadata}
      (unregistered : ∀ end' q, Relation.ReflTransGen v.AliasOf t end' → ¬ v.EndsIn end' q)
      (found : w.getClassDiMetadata t = some md)
      (dependency : t' ∈ v.entryTokens w (md.inject.getD [])) : Edge avoid t t'

/-- A request-scoped provider is reachable from the injects of `p`, on a path
through no token of `own` and, alias steps included, no token of `avoid`. -/
def ReachesRequest (avoid own : List Token) (p : NormalizedProvider) : Prop :=
  ∃ t ∈ v.entryTokens w p.inject, ∃ u q, Avoids (v.Edge w avoid) own t u ∧ v.Offers avoid u q ∧
    q.scope = .request

/-- Some alias chain reachable from the injects of `p` is a cycle. -/
def ReachesAliasCycle (p : NormalizedProvider) : Prop :=
  ∃ t ∈ v.entryTokens w p.inject, ∃ u a, Relation.ReflTransGen (v.Edge w []) t u ∧
    Relation.ReflTransGen v.AliasOf u a ∧ Relation.TransGen v.AliasOf a a

/-- Tokens that test false although a request-scoped provider is under them. -/
def falsyRequests : List Token :=
  if (v.providersOf (.str "")).any (fun p => p.scope = .request) then [.str ""] else []

/-- A provider whose scope assertion misses nothing: whatever it reaches, it
reaches around its own token and around falsy request-scoped tokens. -/
def Assertable (p : NormalizedProvider) : Prop :=
  v.ReachesRequest w [] [] p → v.ReachesRequest w v.falsyRequests [p.provide] p

end View

/-! ## The loops of the search -/

/-- A search that does not come back empty-handed. -/
def Hit (x : Found) : Prop := x ≠ .ok none ∧ ∀ r, x = .ok (some r) → r.truthy = true

theorem hit_of_truthy {r : Token} (h : r.truthy = true) : Hit (.ok (some r)) :=
  ⟨nofun, fun r' e => by cases e; exact h⟩

theorem hit_of_error {e : DiError} : Hit (.error e) := ⟨nofun, nofun⟩

/-- `if (found) return found;` and go on. -/
def orTruthy (x next : Found) : Found :=
  match x with
  | .error e => .error e
  | .ok none => next
  | .ok (some r) => if r.truthy = true then .ok (some r) else next

/-- The first search decides unless it finds nothing at all. -/
def orNext (x next : Found) : Found :=
  match x with
  | .ok none => next
  | x => x

theorem orTruthy_hit {x next : Found} (h : Hit x ∨ Hit next) : Hit (orTruthy x next) := by
  unfold orTruthy
  split
  · exact hit_of_error
  · exact h.resolve_left fun h => h.1 rfl
  · split
    · rename_i hr; exact hit_of_truthy hr
    · rename_i hr; exact h.resolve_left fun h => hr (h.2 _ rfl)

theorem orTruthy_error {x next : Found} {e : DiError} (h : orTruthy x next = .error e) :
    x = .error e ∨ next = .error e := by
  unfold orTruthy at h
  split at h
  · exact .inl h
  · exact .inr h
  · split at h
    · cases h
    · exact .inr h

theorem orNext_hit {x next : Found} (h : Hit x) : Hit (orNext x next) := by
  unfold orNext
  split
  · exact absurd rfl h.1
  · exact h

namespace View

variable {w : World} {v : View} {find : Token → Found}

theorem findRequestScopedDependency_cons (find : Token → Found) (d : InjectionToken)
    (rest : List InjectionToken) :
    ((v.queries w).findRequestScopedDependency (m := Id) find (d :: rest) : Found) =
      if v.absent w d = true then (v.queries w).findRequestScopedDependency (m := Id) find rest
      else orTruthy (find (w.resolveProviderDependencyToken d))
        ((v.queries w).findRequestScopedDependency (m := Id) find rest) := rfl

theorem findRequestScopedDependency_hit {ds : List InjectionToken} {b : Token}
    (hb : b ∈ v.entryTokens w ds) (h : Hit (find b)) :
    Hit ((v.queries w).findRequestScopedDependency (m := Id) find ds) := by
  induction ds with
  | nil => cases hb
  | cons d rest ih =>
    rw [findRequestScopedDependency_cons]
    by_cases absent : v.absent w d = true
    · rw [if_pos absent]
      exact ih (by simpa [entryTokens, absent] using hb)
    · rw [if_neg absent]
      simp only [entryTokens, List.filter_cons, absent, Bool.not_false, ↓reduceIte, List.map_cons,
        List.mem_cons] at hb
      rcases hb with rfl | hb
      · exact orTruthy_hit (.inl h)
      · exact orTruthy_hit (.inr (ih hb))

theorem findRequestScopedDependency_error {ds : List InjectionToken} {e : DiError}
    (h : (v.queries w).findRequestScopedDependency (m := Id) find ds = .error e) :
    ∃ b ∈ v.entryTokens w ds, find b = .error e := by
  induction ds with
  | nil => cases h
  | cons d rest ih =>
    rw [findRequestScopedDependency_cons] at h
    by_cases absent : v.absent w d = true
    · rw [if_pos absent] at h
      simpa [entryTokens, absent] using ih h
    · rw [if_neg absent] at h
      simp only [entryTokens, List.filter_cons, absent, Bool.not_false, ↓reduceIte, List.map_cons,
        List.mem_cons]
      rcases orTruthy_error h with h | h
      · exact ⟨_, .inl rfl, h⟩
      · obtain ⟨b, hb, h⟩ := ih h
        exact ⟨b, .inr hb, h⟩

/-- What the search does behind a provider that is not request-scoped itself. -/
def searchBehind (w : World) (v : View) (find : Token → Found) (p : NormalizedProvider) : Found :=
  match p.useExisting with
  | some target => find target
  | none => (v.queries w).findRequestScopedDependency (m := Id) find p.inject

theorem searchBehind_hit {p : NormalizedProvider} {b : Token} (hb : b ∈ v.dependencyTokens w p)
    (h : Hit (find b)) : Hit (v.searchBehind w find p) := by
  unfold searchBehind
  unfold dependencyTokens at hb
  split
  · rename_i target he
    simp only [he, List.mem_singleton] at hb
    rwa [← hb]
  · rename_i he
    simp only [he] at hb
    exact findRequestScopedDependency_hit hb h

theorem searchBehind_error {p : NormalizedProvider} {e : DiError}
    (h : v.searchBehind w find p = .error e) : ∃ b ∈ v.dependencyTokens w p, find b = .error e := by
  unfold searchBehind at h
  unfold dependencyTokens
  split at h
  · rename_i target he
    exact ⟨target, by simp, h⟩
  · exact findRequestScopedDependency_error h

theorem requestScopedContribution_cons (find : Token → Found) (p : NormalizedProvider)
    (rest : List NormalizedProvider) :
    ((v.queries w).requestScopedContribution (m := Id) find (p :: rest) : Found) =
      if p.scope = .request then .ok (some p.provide)
      else orTruthy (v.searchBehind w find p) ((v.queries w).requestScopedContribution (m := Id) find rest) := by
  unfold searchBehind
  rw [Queries.requestScopedContribution]
  split
  · rfl
  · cases p.useExisting <;> rfl

/-- The loop over contributions hits when one of them leads to a hit. -/
theorem requestScopedContribution_hit {ps : List NormalizedProvider}
    (truthy : ∀ p ∈ ps, p.scope = .request → p.provide.truthy = true) {q : NormalizedProvider} (hq : q ∈ ps)
    (h : q.scope = .request ∨ Hit (v.searchBehind w find q)) :
    Hit ((v.queries w).requestScopedContribution (m := Id) find ps) := by
  induction ps with
  | nil => cases hq
  | cons p rest ih =>
    rw [requestScopedContribution_cons]
    by_cases request : p.scope = .request
    · rw [if_pos request]
      exact hit_of_truthy (truthy p List.mem_cons_self request)
    · rw [if_neg request]
      rcases List.mem_cons.mp hq with rfl | hq
      · exact orTruthy_hit (.inl (h.resolve_left request))
      · exact orTruthy_hit (.inr (ih (fun q hq => truthy q (List.mem_cons_of_mem p hq)) hq))

theorem requestScopedContribution_none_or_hit {ps : List NormalizedProvider}
    (truthy : ∀ p ∈ ps, p.scope = .request → p.provide.truthy = true) :
    ((v.queries w).requestScopedContribution (m := Id) find ps : Found) = .ok none ∨
      Hit ((v.queries w).requestScopedContribution (m := Id) find ps) := by
  induction ps with
  | nil => exact .inl rfl
  | cons p rest ih =>
    have ih := ih fun q hq => truthy q (List.mem_cons_of_mem p hq)
    rw [requestScopedContribution_cons]
    by_cases request : p.scope = .request
    · rw [if_pos request]
      exact .inr (hit_of_truthy (truthy p List.mem_cons_self request))
    · rw [if_neg request]
      by_cases hit : Hit (v.searchBehind w find p)
      · exact .inr (orTruthy_hit (.inl hit))
      · rcases ih with none | hit'
        · unfold orTruthy
          split
          · exact .inr hit_of_error
          · exact .inl none
          · split
            · rename_i hr; exact .inr (hit_of_truthy hr)
            · exact .inl none
        · exact .inr (orTruthy_hit (.inr hit'))

theorem requestScopedContribution_error {ps : List NormalizedProvider} {e : DiError}
    (h : (v.queries w).requestScopedContribution (m := Id) find ps = .error e) :
    ∃ q ∈ ps, ∃ b ∈ v.dependencyTokens w q, find b = .error e := by
  induction ps with
  | nil => cases h
  | cons p rest ih =>
    rw [requestScopedContribution_cons] at h
    split at h
    · cases h
    · rcases orTruthy_error h with h | h
      · exact ⟨p, List.mem_cons_self, searchBehind_error h⟩
      · obtain ⟨q, hq, h⟩ := ih h
        exact ⟨q, List.mem_cons_of_mem p hq, h⟩

/-! ## Along an alias chain -/

theorem lookup_mem_searchable {t : Token} {p : NormalizedProvider} (h : v.lookupProvider t = some p) :
    t ∈ v.searchable w :=
  List.mem_append_left _ (lookupProvider_mem_tokens h)

theorem contribution_mem_searchable {t : Token} {p : NormalizedProvider}
    (h : p ∈ v.collectMultiProviders t) : t ∈ v.searchable w :=
  List.mem_append_left _ (collectMultiProviders_mem_tokens h)

theorem findRequestScopedMultiContribution_succ (find : Token → Found) (n : Nat) (aliasChain : List Token)
    (t : Token) (ht : t ∉ aliasChain) :
    ((v.queries w).findRequestScopedMultiContribution (m := Id) find (n + 1) aliasChain t : Found) =
      orNext ((v.queries w).requestScopedContribution (m := Id) find (v.collectMultiProviders t))
        (match (v.lookupProvider t).bind NormalizedProvider.useExisting with
        | some target => (v.queries w).findRequestScopedMultiContribution (m := Id) find n (t :: aliasChain) target
        | none => .ok none) := by
  rw [Queries.findRequestScopedMultiContribution, if_neg ht]
  change (match ((v.queries w).requestScopedContribution (m := Id) find (v.collectMultiProviders t) : Found) with
    | .error e => (.error e : Found)
    | .ok (some r) => .ok (some r)
    | .ok none => _) = _
  cases ((v.queries w).requestScopedContribution (m := Id) find (v.collectMultiProviders t) : Found) with
  | error e => rfl
  | ok found => cases found <;> rfl

theorem findRequestScopedMultiContribution_hit {vis : List Token} {n : Nat} {aliasChain : List Token}
    {t t' : Token} {q : NormalizedProvider} (fuel : remaining (v.searchable w) aliasChain < n)
    (marked : ∀ x ∈ aliasChain, x ∈ vis)
    (truthy : ∀ t, t ∉ vis → ∀ p ∈ v.collectMultiProviders t, p.scope = .request → p.provide.truthy = true)
    (path : Avoids v.AliasOf vis t t') (hq : q ∈ v.collectMultiProviders t')
    (h : q.scope = .request ∨ Hit (v.searchBehind w find q)) :
    Hit ((v.queries w).findRequestScopedMultiContribution (m := Id) find n aliasChain t) := by
  induction n generalizing vis aliasChain t with
  | zero => exact absurd fuel (Nat.not_lt_zero _)
  | succ n ih =>
    have fresh : t ∉ aliasChain := fun hm => path.start (marked t hm)
    rw [findRequestScopedMultiContribution_succ _ _ _ _ fresh]
    rcases requestScopedContribution_none_or_hit (truthy t path.start) with none | h'
    · rcases path.cut with rfl | ⟨target, ⟨p, found, existing⟩, rest⟩
      · exact orNext_hit (requestScopedContribution_hit (truthy t path.start) hq h)
      · rw [none]
        simp only [orNext, found, Option.bind_some, existing]
        refine ih ?_ ?_ ?_ rest
        · have := remaining_lt (lookup_mem_searchable (w := w) found) fresh
          omega
        · intro x hx
          rcases List.mem_cons.mp hx with rfl | hx
          · exact List.mem_cons_self
          · exact List.mem_cons_of_mem _ (marked x hx)
        · exact fun x hx => truthy x fun hm => hx (List.mem_cons_of_mem _ hm)
    · exact orNext_hit h'

theorem findRequestScopedMultiContribution_error {n : Nat} {aliasChain : List Token} {t : Token} {e : DiError}
    (h : (v.queries w).findRequestScopedMultiContribution (m := Id) find n aliasChain t = .error e) :
    ∃ q, v.Offers [] t q ∧ ∃ b ∈ v.dependencyTokens w q, find b = .error e := by
  induction n generalizing aliasChain t with
  | zero => cases h
  | succ n ih =>
    by_cases marked : t ∈ aliasChain
    · rw [Queries.findRequestScopedMultiContribution, if_pos marked] at h
      cases h
    rw [findRequestScopedMultiContribution_succ _ _ _ _ marked] at h
    unfold orNext at h
    split at h
    · cases hp : v.lookupProvider t with
      | none => simp [hp] at h
      | some p =>
        cases existing : p.useExisting with
        | none => simp [hp, existing] at h
        | some target =>
          simp only [hp, Option.bind_some, existing] at h
          obtain ⟨q, ⟨t', path, hq⟩, hb⟩ := ih h
          exact ⟨q, ⟨t', .step List.not_mem_nil ⟨p, hp, existing⟩ path, hq⟩, hb⟩
    · obtain ⟨q, hq, hb⟩ := requestScopedContribution_error h
      exact ⟨q, ⟨t, .here List.not_mem_nil, .inl hq⟩, hb⟩

theorem followAliases_succ (n : Nat) (chain : List Token) (t : Token) (ht : t ∉ chain) :
    ((v.queries w).followAliases (m := Id) (n + 1) chain t : Except DiError (Option NormalizedProvider)) =
      match v.lookupProvider t with
      | none => .ok none
      | some p =>
        match p.useExisting with
        | some target => (v.queries w).followAliases (m := Id) n (t :: chain) target
        | none => .ok (some p) := by
  rw [Queries.followAliases, if_neg ht]
  rfl

theorem followAliases_end {n : Nat} {chain : List Token} {t t' : Token} {q : NormalizedProvider}
    (fuel : remaining (v.searchable w) chain < n) (path : Avoids v.AliasOf chain t t') (hq : v.EndsIn t' q) :
    ((v.queries w).followAliases (m := Id) n chain t : Except DiError (Option NormalizedProvider)) =
      .ok (some q) := by
  induction n generalizing chain t with
  | zero => exact absurd fuel (Nat.not_lt_zero _)
  | succ n ih =>
    rw [followAliases_succ _ _ _ path.start]
    rcases path.cut with rfl | ⟨target, ⟨p, found, existing⟩, rest⟩
    · simp only [hq.1, hq.2]
    · simp only [found, existing]
      refine ih ?_ rest
      have := remaining_lt (lookup_mem_searchable (w := w) found) path.start
      omega

theorem followAliases_some {n : Nat} {chain : List Token} {t : Token} {q : NormalizedProvider}
    (h : ((v.queries w).followAliases (m := Id) n chain t : Except DiError (Option NormalizedProvider)) =
      .ok (some q)) : ∃ t', Relation.ReflTransGen v.AliasOf t t' ∧ v.EndsIn t' q := by
  induction n generalizing chain t with
  | zero => cases h
  | succ n ih =>
    by_cases marked : t ∈ chain
    · rw [Queries.followAliases, if_pos marked] at h; cases h
    rw [followAliases_succ _ _ _ marked] at h
    split at h
    · cases h
    · rename_i p found
      split at h
      · rename_i target existing
        obtain ⟨t', path, hq⟩ := ih h
        exact ⟨t', .head ⟨p, found, existing⟩ path, hq⟩
      · rename_i direct
        cases h
        exact ⟨t, .refl, found, direct⟩

theorem followAliases_error {n : Nat} {chain : List Token} {t : Token} {e : DiError}
    (hchain : ∀ x ∈ chain, Relation.TransGen v.AliasOf x t)
    (h : ((v.queries w).followAliases (m := Id) n chain t : Except DiError (Option NormalizedProvider)) =
      .error e) : ∃ a, Relation.ReflTransGen v.AliasOf t a ∧ Relation.TransGen v.AliasOf a a := by
  induction n generalizing chain t with
  | zero => cases h
  | succ n ih =>
    by_cases marked : t ∈ chain
    · exact ⟨t, .refl, hchain t marked⟩
    rw [followAliases_succ _ _ _ marked] at h
    split at h
    · cases h
    · rename_i p found
      split at h
      · rename_i target existing
        have step : v.AliasOf t target := ⟨p, found, existing⟩
        have hchain' : ∀ x ∈ t :: chain, Relation.TransGen v.AliasOf x target := by
          intro x hx
          rcases List.mem_cons.mp hx with rfl | hx
          · exact .single step
          · exact .tail (hchain x hx) step
        obtain ⟨a, path, cycle⟩ := ih hchain' h
        exact ⟨a, .head step path, cycle⟩
      · cases h

/-! ## The search itself -/

theorem findRequestScopedDependencyToken_succ (n : Nat) (visited : List Token) (t : Token)
    (ht : t ∉ visited) (hfind : (v.queries w).findRequestScopedDependencyToken (m := Id) n (t :: visited) = find) :
    ((v.queries w).findRequestScopedDependencyToken (m := Id) (n + 1) visited t : Found) =
      orTruthy ((v.queries w).findRequestScopedMultiContribution (m := Id) find (v.depth w) [] t)
        ((v.queries w).requestScopedEffective (m := Id) find t
          ((v.queries w).followAliases (m := Id) (v.depth w) [] t)) := by
  rw [Queries.findRequestScopedDependencyToken, if_neg ht, hfind]
  change (match ((v.queries w).findRequestScopedMultiContribution (m := Id) find (v.depth w) [] t : Found) with
    | .error e => (.error e : Found)
    | .ok (some r) => if r.truthy = true then .ok (some r) else _
    | .ok none => _) = _
  cases ((v.queries w).findRequestScopedMultiContribution (m := Id) find (v.depth w) [] t : Found) with
  | error e => rfl
  | ok found => cases found <;> rfl

theorem requestScopedEffective_some (find : Token → Found) (t : Token) (q : NormalizedProvider) :
    ((v.queries w).requestScopedEffective (m := Id) find t (.ok (some q)) : Found) =
      if q.scope = .request then .ok (some q.provide)
      else (v.queries w).findRequestScopedDependency (m := Id) find q.inject := rfl

theorem requestScopedEffective_none (find : Token → Found) (t : Token) :
    ((v.queries w).requestScopedEffective (m := Id) find t (.ok none) : Found) =
      match w.getClassDiMetadata t with
      | none => .ok none
      | some md => if md.scope = some .request then .ok (some t)
        else (v.queries w).findRequestScopedDependency (m := Id) find (md.inject.getD []) := rfl

theorem fuel_enough (vis : List Token) : remaining (v.searchable w) vis < v.depth w :=
  Nat.lt_succ_of_le (remaining_le _ _)

theorem Offers.mem_searchable {avoid : List Token} {t : Token} {q : NormalizedProvider}
    (h : v.Offers avoid t q) : t ∈ v.searchable w := by
  obtain ⟨t', path, hq⟩ := h
  cases path with
  | here _ =>
    rcases hq with hq | hq
    · exact contribution_mem_searchable hq
    · exact lookup_mem_searchable hq.1
  | step _ first _ =>
    obtain ⟨p, found, -⟩ := first
    exact lookup_mem_searchable found

theorem Edge.mem_searchable {avoid : List Token} {t t' : Token} (h : v.Edge w avoid t t') :
    t ∈ v.searchable w := by
  cases h with
  | provider offers _ => exact offers.mem_searchable
  | metadata _ found _ => exact metadata_mem_searchable found

/-- The search is complete: it does not come back empty from a token that
leads to a request-scoped provider around what is marked. -/
theorem findRequestScopedDependencyToken_hit {avoid visited : List Token} {n : Nat} {t u : Token}
    {q : NormalizedProvider}
    (truthy : ∀ t, t ∉ avoid → ∀ p ∈ v.providersOf t, p.scope = .request → p.provide.truthy = true)
    (fuel : remaining (v.searchable w) visited < n) (path : Avoids (v.Edge w avoid) visited t u)
    (offers : v.Offers avoid u q) (request : q.scope = .request) :
    Hit ((v.queries w).findRequestScopedDependencyToken (m := Id) n visited t) := by
  induction n generalizing visited t with
  | zero => exact absurd fuel (Nat.not_lt_zero _)
  | succ n ih =>
    generalize hfind : (v.queries w).findRequestScopedDependencyToken (m := Id) n (t :: visited) = find
    rw [findRequestScopedDependencyToken_succ _ _ _ path.start hfind]
    have offered {q' : NormalizedProvider} (h : v.Offers avoid t q')
        (hq : q'.scope = .request ∨ Hit (v.searchBehind w find q')) :
        Hit ((v.queries w).findRequestScopedMultiContribution (m := Id) find (v.depth w) [] t) ∨
        Hit ((v.queries w).requestScopedEffective (m := Id) find t
          ((v.queries w).followAliases (m := Id) (v.depth w) [] t)) := by
      obtain ⟨t', path, contribution | ends⟩ := h
      · refine .inl (findRequestScopedMultiContribution_hit (fuel_enough _) (by simp) ?_ path contribution hq)
        exact fun x hx p hp => truthy x hx p (List.mem_append_right _ hp)
      · right
        rw [followAliases_end (fuel_enough _) (path.mono (by simp)) ends, requestScopedEffective_some]
        split
        · rename_i hr
          exact hit_of_truthy (truthy t' path.finish q' (by simp [providersOf, ends.1]) hr)
        · rename_i hr
          have := hq.resolve_left hr
          rwa [searchBehind, ends.2] at this
    rcases path.cut with rfl | ⟨b, edge, rest⟩
    · exact orTruthy_hit (offered offers (.inl request))
    · have hb : Hit (find b) := by
        rw [← hfind]
        refine ih ?_ rest
        have := remaining_lt (edge.mem_searchable (w := w)) path.start
        omega
      cases edge with
      | provider offers' dependency =>
        exact orTruthy_hit (offered offers' (.inr (searchBehind_hit dependency hb)))
      | metadata unregistered found dependency =>
        refine orTruthy_hit (.inr ?_)
        cases heff : ((v.queries w).followAliases (m := Id) (v.depth w) [] t :
            Except DiError (Option NormalizedProvider)) with
        | error e => exact hit_of_error
        | ok effective =>
          cases effective with
          | some q' =>
            obtain ⟨t', path, ends⟩ := followAliases_some heff
            exact absurd ends (unregistered t' q' path)
          | none =>
            rw [requestScopedEffective_none, found]
            dsimp only
            split
            · refine hit_of_truthy ?_
              cases t with
              | cls c => rfl
              | str | sym => cases found
            · exact findRequestScopedDependency_hit dependency hb

/-- When the search fails, an alias chain it could reach is a cycle. -/
theorem findRequestScopedDependencyToken_error {visited : List Token} {n : Nat} {t : Token} {e : DiError}
    (h : (v.queries w).findRequestScopedDependencyToken (m := Id) n visited t = .error e) :
    ∃ u a, Relation.ReflTransGen (v.Edge w []) t u ∧ Relation.ReflTransGen v.AliasOf u a ∧
      Relation.TransGen v.AliasOf a a := by
  induction n generalizing visited t with
  | zero => cases h
  | succ n ih =>
    by_cases marked : t ∈ visited
    · rw [Queries.findRequestScopedDependencyToken, if_pos marked] at h; cases h
    rw [findRequestScopedDependencyToken_succ _ _ _ marked rfl] at h
    have behind {b : Token} (edge : v.Edge w [] t b)
        (h : (v.queries w).findRequestScopedDependencyToken (m := Id) n (t :: visited) b = .error e) :
        ∃ u a, Relation.ReflTransGen (v.Edge w []) t u ∧ Relation.ReflTransGen v.AliasOf u a ∧
          Relation.TransGen v.AliasOf a a := by
      obtain ⟨u, a, path, rest⟩ := ih h
      exact ⟨u, a, .head edge path, rest⟩
    have effective (h : (v.queries w).requestScopedEffective (m := Id)
          ((v.queries w).findRequestScopedDependencyToken (m := Id) n (t :: visited)) t
          ((v.queries w).followAliases (m := Id) (v.depth w) [] t) = .error e) :
        ∃ u a, Relation.ReflTransGen (v.Edge w []) t u ∧ Relation.ReflTransGen v.AliasOf u a ∧
          Relation.TransGen v.AliasOf a a := by
      cases heff : ((v.queries w).followAliases (m := Id) (v.depth w) [] t :
          Except DiError (Option NormalizedProvider)) with
      | error e' =>
        obtain ⟨a, path, cycle⟩ := followAliases_error (by simp) heff
        exact ⟨t, a, .refl, path, cycle⟩
      | ok found =>
        rw [heff] at h
        cases found with
        | some q =>
          rw [requestScopedEffective_some] at h
          split at h
          · cases h
          · obtain ⟨t', path, ends⟩ := followAliases_some heff
            obtain ⟨b, hb, hfind⟩ := findRequestScopedDependency_error h
            refine behind (.provider ⟨t', avoids_nil.mpr path, .inr ends⟩ ?_) hfind
            rwa [dependencyTokens, ends.2]
        | none =>
          rw [requestScopedEffective_none] at h
          split at h
          · cases h
          · rename_i md found
            split at h
            · cases h
            · obtain ⟨b, hb, hfind⟩ := findRequestScopedDependency_error h
              refine behind (.metadata ?_ found hb) hfind
              intro end' q path ends
              rw [followAliases_end (fuel_enough _) (avoids_nil.mpr path) ends] at heff
              cases heff
    rcases orTruthy_error h with h | h
    · obtain ⟨q, offers, b, hb, hfind⟩ := findRequestScopedMultiContribution_error h
      exact behind (.provider offers hb) hfind
    · exact effective h

/-! ## assertSingletonDependencyScopes -/

theorem assertSingletonDependencyScopes_eq {p : NormalizedProvider} (singleton : p.scope = .singleton) :
    ((v.queries w).assertSingletonDependencyScopes (m := Id) p : Option DiError) =
      match ((v.queries w).findRequestScopedDependency (m := Id)
        ((v.queries w).findRequestScopedDependencyToken (m := Id) (v.depth w) [p.provide]) p.inject : Found) with
      | .error e => some e
      | .ok none => none
      | .ok (some r) => if r.truthy = true then some (.scopeMismatch p.provide r) else none := by
  rw [Queries.assertSingletonDependencyScopes, if_neg (by simp [singleton])]
  rfl

theorem falsyRequests_truthy (keyed : v.Keyed) (t : Token) (ht : t ∉ v.falsyRequests)
    (p : NormalizedProvider) (hp : p ∈ v.providersOf t) (request : p.scope = .request) :
    p.provide.truthy = true := by
  rw [keyed t p hp]
  by_contra falsy
  have empty : t = .str "" := by
    cases t with
    | str name => simpa [Token.truthy] using falsy
    | sym | cls => exact absurd rfl falsy
  subst empty
  refine ht ?_
  rw [falsyRequests, if_pos (List.any_eq_true.mpr ⟨p, hp, by simpa using request⟩)]
  exact List.mem_singleton_self _

/-- An assertable singleton that reaches a request-scoped provider is refused,
with a scope mismatch unless an alias cycle is in the way. -/
theorem scopes_refused {p : NormalizedProvider} (keyed : v.Keyed) (singleton : p.scope = .singleton)
    (assertable : v.Assertable w p) (reaches : v.ReachesRequest w [] [] p) :
    ∃ e, ((v.queries w).assertSingletonDependencyScopes (m := Id) p : Option DiError) = some e ∧
      (e.errorClass = .ScopeMismatchError ∨ v.ReachesAliasCycle w p) := by
  obtain ⟨t, ht, u, q, path, offers, request⟩ := assertable reaches
  rw [assertSingletonDependencyScopes_eq singleton]
  have hit := findRequestScopedDependency_hit ht
    (findRequestScopedDependencyToken_hit (falsyRequests_truthy keyed) (fuel_enough [p.provide]) path offers
      request)
  cases hfound : ((v.queries w).findRequestScopedDependency (m := Id)
      ((v.queries w).findRequestScopedDependencyToken (m := Id) (v.depth w) [p.provide]) p.inject : Found) with
  | error e =>
    refine ⟨e, rfl, .inr ?_⟩
    obtain ⟨b, hb, hfind⟩ := findRequestScopedDependency_error hfound
    obtain ⟨u, a, path, rest⟩ := findRequestScopedDependencyToken_error hfind
    exact ⟨b, hb, u, a, path, rest⟩
  | ok found =>
    cases found with
    | none => exact absurd hfound hit.1
    | some r =>
      dsimp only
      rw [if_pos (hit.2 r hfound)]
      exact ⟨_, rfl, .inl rfl⟩

end View

end Fluo.Di
