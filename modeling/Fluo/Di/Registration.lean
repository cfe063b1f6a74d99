import Fluo.Lib.Returns
import Fluo.Di.Registry

/-!
# register() and override() on the registrations

The part of both calls that reads and writes registrations; what they do to
caches is in `PlanCache` and `Container`.
-/

namespace Fluo.Di

/-- `assertNoRegistrationConflict` on a scope and its ancestors. -/
def Registry.assertNoRegistrationConflict (r : Registry) (parent : View) (t : Token) (multi : Bool) :
    Except DiError Unit :=
  if multi then
    if r.registrations.has t || parent.hasSingleRegistration t then .error (.duplicateProvider t)
    else .ok ()
  else
    if r.registrations.has t || r.multiRegistrations.has t || parent.hasMulti t then
      .error (.duplicateProvider t)
    else .ok ()

def Registry.add (r : Registry) (p : NormalizedProvider) : Registry :=
  if p.multi then
    { r with multiRegistrations :=
        r.multiRegistrations.set p.provide ((r.multiRegistrations.get p.provide).getD [] ++ [p]) }
  else { r with registrations := r.registrations.set p.provide p }

/-- One turn of the loop in `register`. -/
def Registry.registerOne (w : World) (r : Registry) (parent : View) (ref : Nat) (d : Provider) :
    Except DiError Registry := do
  let p ← w.normalizeProvider ref d
  if !parent.isEmpty && p.scope = .singleton then
    .error (.singletonOnRequestScope p.provide)
  else
    r.assertNoRegistrationConflict parent p.provide p.multi
    .ok (r.add p)

def World.normalizeBatch (w : World) : Nat → List Provider → Except DiError (List NormalizedProvider)
  | _, [] => .ok []
  | ref, d :: rest => do
    let p ← w.normalizeProvider ref d
    let ps ← normalizeBatch w (ref + 1) rest
    .ok (p :: ps)

/-- `normalizedByToken`: the batch by token, both in order of appearance. -/
def groupByToken (ps : List NormalizedProvider) : OrderedMap Token (List NormalizedProvider) :=
  ps.foldl (fun m p => m.set p.provide ((m.get p.provide).getD [] ++ [p])) OrderedMap.empty

/-- A token's replacement is one single provider or only contributions. -/
def replacementConflicts (ps : List NormalizedProvider) : Bool :=
  if ps.any (·.multi) then ps.any (fun p => !p.multi) else 1 < ps.length

def Registry.replace (r : Registry) (t : Token) (ps : List NormalizedProvider) : Registry :=
  let overridden := if t ∈ r.multiOverriddenTokens then r.multiOverriddenTokens
    else r.multiOverriddenTokens ++ [t]
  if ps.any (·.multi) then
    { registrations := r.registrations.erase t
      multiRegistrations := (r.multiRegistrations.erase t).set t ps
      multiOverriddenTokens := overridden }
  else
    match ps with
    | [] => r
    | p :: _ =>
      { registrations := (r.registrations.erase t).set t p
        multiRegistrations := r.multiRegistrations.erase t
        multiOverriddenTokens := overridden }

/-- The checks of `override` before it touches anything. `has` answers
`this.has`. -/
def validateOverride {m : Type → Type} [Monad m] (requestScope : Bool) (has : Token → m Bool)
    (groups : List (Token × List NormalizedProvider)) : m (Except DiError Unit) := do
  let introduced ← firstOf
    (fun g : Token × List NormalizedProvider =>
      if requestScope && g.2.any (fun p => p.scope = .singleton) then return !(← has g.1)
      else return false) groups
  match introduced with
  | some g => return .error (.singletonOnRequestScope g.1)
  | none =>
    match groups.find? (fun g => replacementConflicts g.2) with
    | some g => return .error (.duplicateProvider g.1)
    | none => return .ok ()

/-! ## Registrations stay keyed by token -/

theorem Registry.add_keyed {r : Registry} (h : r.Keyed) (p : NormalizedProvider) :
    (r.add p).Keyed := by
  unfold Registry.add
  split
  · refine ⟨h.1, ?_⟩
    intro t ps hps p' hp'
    simp only [OrderedMap.get_set] at hps
    split at hps
    · rename_i ht
      subst ht
      cases hps
      rcases List.mem_append.mp hp' with hp' | hp'
      · cases hg : r.multiRegistrations.get p.provide with
        | none => simp [hg] at hp'
        | some qs => exact h.2 _ qs hg p' (by simpa [hg] using hp')
      · simp only [List.mem_singleton] at hp'; rw [hp']
    · exact h.2 t ps hps p' hp'
  · refine ⟨?_, h.2⟩
    intro t p' hp'
    simp only [OrderedMap.get_set] at hp'
    split at hp'
    · rename_i ht; cases hp'; exact ht.symm
    · exact h.1 t p' hp'

theorem Registry.replace_keyed {r : Registry} (h : r.Keyed) {t : Token}
    {ps : List NormalizedProvider} (hps : ∀ p ∈ ps, p.provide = t) : (r.replace t ps).Keyed := by
  unfold Registry.replace
  have erased_single : ∀ t' p, (r.registrations.erase t).get t' = some p → p.provide = t' := by
    intro t' p hp
    rw [OrderedMap.get_erase] at hp
    split at hp
    · cases hp
    · exact h.1 t' p hp
  have erased_multi : ∀ t' qs, (r.multiRegistrations.erase t).get t' = some qs →
      ∀ p ∈ qs, p.provide = t' := by
    intro t' qs hq
    rw [OrderedMap.get_erase] at hq
    split at hq
    · cases hq
    · exact h.2 t' qs hq
  simp only
  split
  · refine ⟨erased_single, ?_⟩
    intro t' qs hq
    rw [OrderedMap.get_set] at hq
    split at hq
    · rename_i e; cases hq; rw [e]; exact hps
    · exact erased_multi t' qs hq
  · split
    · exact h
    · rename_i p _ _
      refine ⟨?_, erased_multi⟩
      intro t' p' hp'
      rw [OrderedMap.get_set] at hp'
      split at hp'
      · rename_i e; cases hp'; rw [e]; exact hps _ List.mem_cons_self
      · exact erased_single t' p' hp'

theorem groupByToken_keyed {ps : List NormalizedProvider} {t : Token}
    {qs : List NormalizedProvider} (h : (groupByToken ps).get t = some qs) :
    ∀ p ∈ qs, p.provide = t := by
  have fold : ∀ (ps : List NormalizedProvider) (m : OrderedMap Token (List NormalizedProvider)),
      (∀ t qs, m.get t = some qs → ∀ p ∈ qs, p.provide = t) →
      ∀ t qs, (ps.foldl (fun m p => m.set p.provide ((m.get p.provide).getD [] ++ [p])) m).get t =
        some qs → ∀ p ∈ qs, p.provide = t := by
    intro ps
    induction ps with
    | nil => intro m hm; exact hm
    | cons p rest ih =>
      intro m hm
      refine ih _ ?_
      intro t qs hq p' hp'
      rw [OrderedMap.get_set] at hq
      split at hq
      · rename_i e
        cases hq
        rcases List.mem_append.mp hp' with hp' | hp'
        · cases hg : m.get p.provide with
          | none => simp [hg] at hp'
          | some os => rw [e]; exact hm _ os hg p' (by simpa [hg] using hp')
        · simp only [List.mem_singleton] at hp'; rw [hp', e]
      · exact hm t qs hq p' hp'
  exact fold ps OrderedMap.empty (by intro t qs hq; simp at hq) t qs h

end Fluo.Di
