import Fluo.Di.Registration

/-!
# The records a registry holds

Where records come from, and what registration and overriding keep: single
providers and contributions stay apart, and a batch makes new records only.
-/

namespace Fluo.Di

namespace Registry

def Holds (r : Registry) (p : NormalizedProvider) : Prop :=
  r.registrations.get p.provide = some p ∨ ∃ ps, r.multiRegistrations.get p.provide = some ps ∧ p ∈ ps

variable {r : Registry}

theorem Keyed.holds_single (h : r.Keyed) {t : Token} {p : NormalizedProvider}
    (hp : r.registrations.get t = some p) : r.Holds p :=
  .inl (by rw [h.1 t p hp]; exact hp)

theorem Keyed.holds_multi (h : r.Keyed) {t : Token} {p : NormalizedProvider} {ps : List NormalizedProvider}
    (hps : r.multiRegistrations.get t = some ps) (hp : p ∈ ps) : r.Holds p :=
  .inr ⟨ps, by rw [h.2 t ps hps p hp]; exact hps, hp⟩

theorem default_holds {p : NormalizedProvider} : ¬ (default : Registry).Holds p := by
  rintro (h | ⟨ps, h, -⟩) <;> cases h

theorem default_keyed : (default : Registry).Keyed := ⟨nofun, nofun⟩

theorem add_holds {p q : NormalizedProvider} (h : (r.add p).Holds q) : r.Holds q ∨ q = p := by
  unfold add at h
  split at h
  · rcases h with h | ⟨ps, h, hq⟩
    · exact .inl (.inl h)
    · simp only [OrderedMap.get_set] at h
      split at h
      · rename_i e
        cases h
        rcases List.mem_append.mp hq with hq | hq
        · cases hg : r.multiRegistrations.get p.provide with
          | none => simp [hg] at hq
          | some qs => exact .inl (.inr ⟨qs, by rw [e]; exact hg, by simpa [hg] using hq⟩)
        · exact .inr (List.mem_singleton.mp hq)
      · exact .inl (.inr ⟨ps, h, hq⟩)
  · rcases h with h | h
    · simp only [OrderedMap.get_set] at h
      split at h
      · cases h; exact .inr rfl
      · exact .inl (.inl h)
    · exact .inl (.inr h)

theorem replace_holds {t : Token} {ps : List NormalizedProvider} {q : NormalizedProvider}
    (h : (r.replace t ps).Holds q) : r.Holds q ∨ q ∈ ps := by
  have single (h : (r.registrations.erase t).get q.provide = some q) : r.Holds q := by
    rw [OrderedMap.get_erase] at h
    split at h
    · cases h
    · exact .inl h
  have multi {qs : List NormalizedProvider} (h : (r.multiRegistrations.erase t).get q.provide = some qs)
      (hq : q ∈ qs) : r.Holds q := by
    rw [OrderedMap.get_erase] at h
    split at h
    · cases h
    · exact .inr ⟨qs, h, hq⟩
  unfold replace at h
  simp only at h
  split at h
  · rcases h with h | ⟨qs, h, hq⟩
    · exact .inl (single h)
    · rw [OrderedMap.get_set] at h
      split at h
      · cases h; exact .inr hq
      · exact .inl (multi h hq)
  · split at h
    · exact .inl h
    · rename_i p rest _
      rcases h with h | ⟨qs, h, hq⟩
      · rw [OrderedMap.get_set] at h
        split at h
        · cases h; exact .inr List.mem_cons_self
        · exact .inl (single h)
      · exact .inl (multi h hq)

def Sorted (r : Registry) : Prop :=
  (∀ t p, r.registrations.get t = some p → p.multi = false) ∧
  ∀ t ps, r.multiRegistrations.get t = some ps → ∀ p ∈ ps, p.multi = true

theorem default_sorted : (default : Registry).Sorted := ⟨nofun, nofun⟩

theorem Sorted.add (h : r.Sorted) (p : NormalizedProvider) : (r.add p).Sorted := by
  unfold Registry.add
  split
  · rename_i multi
    refine ⟨h.1, fun t ps hps q hq => ?_⟩
    simp only [OrderedMap.get_set] at hps
    split at hps
    · cases hps
      rcases List.mem_append.mp hq with hq | hq
      · cases hg : r.multiRegistrations.get p.provide with
        | none => simp [hg] at hq
        | some qs => exact h.2 _ qs hg q (by simpa [hg] using hq)
      · rw [List.mem_singleton.mp hq]; exact multi
    · exact h.2 t ps hps q hq
  · rename_i single
    refine ⟨fun t q hq => ?_, h.2⟩
    simp only [OrderedMap.get_set] at hq
    split at hq
    · cases hq; simpa using single
    · exact h.1 t q hq

theorem Sorted.replace (h : r.Sorted) {t : Token} {ps : List NormalizedProvider}
    (hps : replacementConflicts ps = false) : (r.replace t ps).Sorted := by
  have single : ∀ t' p, (r.registrations.erase t).get t' = some p → p.multi = false := by
    intro t' p hp
    rw [OrderedMap.get_erase] at hp
    split at hp
    · cases hp
    · exact h.1 t' p hp
  have multi : ∀ t' qs, (r.multiRegistrations.erase t).get t' = some qs → ∀ p ∈ qs, p.multi = true := by
    intro t' qs hq
    rw [OrderedMap.get_erase] at hq
    split at hq
    · cases hq
    · exact h.2 t' qs hq
  unfold replacementConflicts at hps
  unfold Registry.replace
  simp only
  split
  · rename_i any
    rw [if_pos any] at hps
    refine ⟨single, fun t' qs hq => ?_⟩
    rw [OrderedMap.get_set] at hq
    split at hq
    · cases hq; simpa using hps
    · exact multi t' qs hq
  · rename_i any
    split
    · exact h
    · rename_i p rest
      refine ⟨fun t' p' hp' => ?_, multi⟩
      rw [OrderedMap.get_set] at hp'
      split at hp'
      · cases hp'
        simp only [List.any_cons, Bool.or_eq_true, not_or, Bool.not_eq_true] at any
        exact any.1
      · exact single t' p' hp'

end Registry

theorem Registry.registerOne_ok {w : World} {r r' : Registry} {parent : View} {ref : Nat} {d : Provider}
    (h : r.registerOne w parent ref d = .ok r') : ∃ p, w.normalizeProvider ref d = .ok p ∧ r.add p = r' := by
  unfold Registry.registerOne at h
  cases hp : w.normalizeProvider ref d with
  | error e => simp [hp, bind, Except.bind] at h
  | ok p =>
    refine ⟨p, rfl, ?_⟩
    simp only [hp, bind, Except.bind] at h
    split at h
    · cases h
    · split at h
      · cases h
      · exact Except.ok.inj h

theorem normalizeBatch_spec {w : World} {ref : Nat} {ds : List Provider} {ps : List NormalizedProvider}
    (h : w.normalizeBatch ref ds = .ok ps) :
    (∀ p ∈ ps, ref ≤ p.ref ∧ p.ref < ref + ds.length ∧ p.WellFormed) ∧
      ∀ p ∈ ps, ∀ q ∈ ps, p.ref = q.ref → p = q := by
  induction ds generalizing ref ps with
  | nil => cases h; exact ⟨nofun, nofun⟩
  | cons d rest ih =>
    unfold World.normalizeBatch at h
    cases hp : w.normalizeProvider ref d with
    | error e => simp [hp, bind, Except.bind] at h
    | ok p =>
      cases hps : w.normalizeBatch (ref + 1) rest with
      | error e => simp [hp, hps, bind, Except.bind] at h
      | ok qs =>
        simp only [hp, hps, bind, Except.bind, Except.ok.injEq] at h
        subst h
        obtain ⟨bounds, distinct⟩ := ih hps
        have href := World.normalizeProvider_ref hp
        have apart : ∀ q ∈ qs, q.ref ≠ p.ref := by
          intro q hq
          have := (bounds q hq).1
          omega
        constructor
        · intro q hq
          rcases List.mem_cons.mp hq with rfl | hq
          · exact ⟨by omega, by simp only [List.length_cons]; omega, World.normalizeProvider_wellFormed hp⟩
          · obtain ⟨lo, hi, wf⟩ := bounds q hq
            exact ⟨by omega, by simp only [List.length_cons]; omega, wf⟩
        · intro q hq q' hq' e
          rcases List.mem_cons.mp hq with hq | hq <;> rcases List.mem_cons.mp hq' with hq' | hq'
          · rw [hq, hq']
          · exact absurd (e.symm.trans (congrArg _ hq)) (apart q' hq')
          · exact absurd (e.trans (congrArg _ hq')) (apart q hq)
          · exact distinct q hq q' hq' e

theorem groupByToken_mem {ps : List NormalizedProvider} {t : Token} {qs : List NormalizedProvider}
    (h : (groupByToken ps).get t = some qs) : ∀ q ∈ qs, q ∈ ps := by
  have fold : ∀ (ps : List NormalizedProvider) (m : OrderedMap Token (List NormalizedProvider))
      (all : List NormalizedProvider), (∀ p ∈ ps, p ∈ all) → (∀ t qs, m.get t = some qs → ∀ q ∈ qs, q ∈ all) →
      ∀ t qs, (ps.foldl (fun m p => m.set p.provide ((m.get p.provide).getD [] ++ [p])) m).get t =
        some qs → ∀ q ∈ qs, q ∈ all := by
    intro ps
    induction ps with
    | nil => exact fun m all _ hm => hm
    | cons p rest ih =>
      intro m all hps hm
      refine ih _ all (fun q hq => hps q (List.mem_cons_of_mem p hq)) ?_
      intro t qs hqs q hq
      rw [OrderedMap.get_set] at hqs
      split at hqs
      · cases hqs
        rcases List.mem_append.mp hq with hq | hq
        · cases hg : m.get p.provide with
          | none => simp [hg] at hq
          | some os => exact hm _ os hg q (by simpa [hg] using hq)
        · rw [List.mem_singleton.mp hq]; exact hps p List.mem_cons_self
      · exact hm t qs hqs q hq
  exact fold ps OrderedMap.empty ps (fun _ h => h) (by intro t qs h; simp at h) t qs h

end Fluo.Di
