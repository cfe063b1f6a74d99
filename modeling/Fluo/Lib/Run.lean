import Mathlib.Algebra.GroupWithZero.Nat
import Mathlib.Data.List.Basic

/-!
# Runs of a state machine

A machine is a function from a state and an event to the next state, `none`
when the event is not enabled. A run is a list of events that are enabled when
their turn comes.
-/

namespace Fluo.Run

variable {σ ε : Type} {step : σ → ε → Option σ}

def run (step : σ → ε → Option σ) (s : σ) : List ε → Option σ
  | [] => some s
  | e :: rest => (step s e).bind fun t => run step t rest

/-- A condition on the state and the event holds at every step of a run. -/
def Throughout (step : σ → ε → Option σ) (C : σ → ε → Prop) (s : σ) : List ε → Prop
  | [] => True
  | e :: rest => C s e ∧ ∀ t, step s e = some t → Throughout step C t rest

theorem run_cons {s t : σ} {e : ε} {es : List ε} (h : run step s (e :: es) = some t) :
    ∃ u, step s e = some u ∧ run step u es = some t :=
  Option.bind_eq_some_iff.mp h

theorem run_append {s : σ} {es es' : List ε} :
    run step s (es ++ es') = (run step s es).bind fun t => run step t es' := by
  induction es generalizing s with
  | nil => rfl
  | cons e rest ih =>
    simp only [List.cons_append, run, Option.bind_assoc]
    exact congrArg _ (funext fun t => ih)

theorem run_snoc {s t u : σ} {es : List ε} {e : ε} (h : run step s es = some t) (he : step t e = some u) :
    run step s (es ++ [e]) = some u := by
  rw [run_append, h]
  simp [run, he]

theorem throughout_cons {C : σ → ε → Prop} {s u : σ} {e : ε} {rest : List ε} (here : C s e) (stays : step s e = some u)
    (later : Throughout step C u rest) : Throughout step C s (e :: rest) := by
  refine ⟨here, fun t ht => ?_⟩
  obtain rfl : u = t := Option.some.inj (stays.symm.trans ht)
  exact later

theorem throughout_of_forall {C : σ → ε → Prop} {es : List ε} (all : ∀ e ∈ es, ∀ s, C s e) (s : σ) :
    Throughout step C s es := by
  induction es generalizing s with
  | nil => trivial
  | cons e rest ih =>
    exact ⟨all e List.mem_cons_self s, fun t _ => ih (fun e mem => all e (List.mem_cons_of_mem _ mem)) t⟩

theorem throughout_append {C : σ → ε → Prop} {s : σ} {es es' : List ε} (h : Throughout step C s (es ++ es')) :
    Throughout step C s es ∧ ∀ t, run step s es = some t → Throughout step C t es' := by
  induction es generalizing s with
  | nil =>
    refine ⟨trivial, fun t stays => ?_⟩
    cases stays
    exact h
  | cons e rest ih =>
    refine ⟨⟨h.1, fun t ht => (ih (h.2 t ht)).1⟩, fun t run => ?_⟩
    obtain ⟨u, hu, run⟩ := run_cons run
    exact (ih (h.2 u hu)).2 t run

/-- What every step keeps under the condition holds after every run that meets
the condition. -/
theorem keeps_throughout {I : σ → Prop} {C : σ → ε → Prop}
    (keeps : ∀ s e t, C s e → I s → step s e = some t → I t) {es : List ε} {s t : σ} (hs : I s)
    (hc : Throughout step C s es) (h : run step s es = some t) : I t := by
  induction es generalizing s with
  | nil => cases h; exact hs
  | cons e rest ih =>
    obtain ⟨u, hu, h⟩ := run_cons h
    exact ih (keeps s e u hc.1 hs hu) (hc.2 u hu) h

theorem throughout_true {es : List ε} {s : σ} : Throughout step (fun _ _ => True) s es := by
  induction es generalizing s with
  | nil => trivial
  | cons e rest ih => exact ⟨trivial, fun t _ => ih⟩

theorem keeps {I : σ → Prop} (keeps : ∀ s e t, I s → step s e = some t → I t) {es : List ε} {s t : σ}
    (hs : I s) (h : run step s es = some t) : I t :=
  keeps_throughout (fun s e t _ => keeps s e t) hs throughout_true h

instance Throughout.decidable {C : σ → ε → Prop} [∀ s e, Decidable (C s e)] (s : σ) :
    (es : List ε) → Decidable (Throughout step C s es)
  | [] => isTrue trivial
  | e :: rest =>
    match h : step s e with
    | none => decidable_of_iff (C s e) ⟨fun hc => ⟨hc, fun t ht => by rw [h] at ht; cases ht⟩, And.left⟩
    | some t =>
      have := Throughout.decidable (C := C) t rest
      decidable_of_iff (C s e ∧ Throughout step C t rest)
        ⟨fun hc => ⟨hc.1, fun u hu => by rw [h] at hu; cases hu; exact hc.2⟩, fun hc => ⟨hc.1, hc.2 t h⟩⟩

end Fluo.Run
