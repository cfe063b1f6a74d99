import Mathlib.Data.List.Forall2

/-!
# Programs that stop at the first error

When sequences and loops of checks in `Except` get through.
-/

namespace Fluo

variable {ε α β : Type}

theorem bind_eq_ok {x : Except ε α} {f : α → Except ε β} {b : β} :
    (x >>= f) = .ok b ↔ ∃ a, x = .ok a ∧ f a = .ok b := by
  cases x with
  | error e => exact ⟨(nomatch ·), fun ⟨_, h, _⟩ => nomatch h⟩
  | ok a => exact ⟨fun h => ⟨a, rfl, h⟩, fun ⟨_, h, h'⟩ => by cases h; exact h'⟩

theorem check_eq_ok {x : Except ε Unit} {f : Unit → Except ε β} {b : β} :
    (x >>= f) = .ok b ↔ x = .ok () ∧ f () = .ok b :=
  bind_eq_ok.trans ⟨fun ⟨_, h, h'⟩ => ⟨h, h'⟩, fun ⟨h, h'⟩ => ⟨(), h, h'⟩⟩

theorem forM_eq_ok {f : α → Except ε Unit} {l : List α} :
    l.forM f = .ok () ↔ ∀ a ∈ l, f a = .ok () := by
  induction l with
  | nil => exact ⟨fun _ _ h => (nomatch h), fun _ => rfl⟩
  | cons a rest ih =>
    rw [List.forall_mem_cons, ← ih]
    exact check_eq_ok

theorem mapM_eq_ok {f : α → Except ε β} {g : α → β} {l : List α} (h : ∀ a ∈ l, f a = .ok (g a)) :
    l.mapM f = .ok (l.map g) := by
  induction l with
  | nil => rfl
  | cons a rest ih =>
    rw [List.mapM_cons, h a List.mem_cons_self, ih fun b hb => h b (List.mem_cons_of_mem a hb)]
    rfl

/-- Each element of the result is that of an element of the list. -/
theorem forall₂_of_mapM {f : α → Except ε β} {l : List α} {m : List β} (h : l.mapM f = .ok m) :
    List.Forall₂ (fun a b => f a = .ok b) l m := by
  induction l generalizing m with
  | nil => cases h; exact .nil
  | cons a rest ih =>
    rw [List.mapM_cons] at h
    obtain ⟨b, hb, h⟩ := bind_eq_ok.mp h
    obtain ⟨bs, hbs, h⟩ := bind_eq_ok.mp h
    cases h
    exact .cons hb (ih hbs)

theorem exists_of_mem_mapM {f : α → Except ε β} {l : List α} {m : List β} (h : l.mapM f = .ok m) {b : β} (mem : b ∈ m) :
    ∃ a ∈ l, f a = .ok b := by
  replace h := forall₂_of_mapM h
  induction h with
  | nil => cases mem
  | cons first _ ih =>
    rcases List.mem_cons.mp mem with rfl | mem
    · exact ⟨_, List.mem_cons_self, first⟩
    · obtain ⟨a, memA, made⟩ := ih mem
      exact ⟨a, List.mem_cons_of_mem _ memA, made⟩

/-- A loop over a list keeps what holds of the state and the elements it has done. -/
theorem foldlM_invariant {σ : Type} {I : List α → σ → Prop} {f : σ → α → Except ε σ} {l : List α} {s s' : σ}
    (h : l.foldlM f s = .ok s') (hs : I [] s)
    (step : ∀ done a s s', I done s → f s a = .ok s' → I (done ++ [a]) s') : I l s' := by
  have goesOn : ∀ rest done s, I done s → rest.foldlM f s = .ok s' → I (done ++ rest) s' := by
    intro rest
    induction rest with
    | nil =>
      intro done s hs h
      cases h
      rwa [List.append_nil]
    | cons a rest ih =>
      intro done s hs h
      rw [List.foldlM_cons] at h
      obtain ⟨s₁, h₁, h⟩ := bind_eq_ok.mp h
      have all := ih (done ++ [a]) s₁ (step done a s s₁ hs h₁) h
      rwa [List.append_assoc] at all
  exact goesOn l [] s hs h

end Fluo
