import Fluo.Metadata.Inheritance

/-!
# Where metadata flow

The results for a class are to depend on its own decorators and those of its
ancestors. Which decorators each class uses decides it: some choice of their
arguments goes wrong as soon as a class uses a controller, a route or a binding
decorator that an ancestor uses, too.
-/

namespace Fluo.Metadata

open Js Prototypes

/-- The records that a decorator takes from an ancestor. -/
def MetadataKey.Borrowed (key : MetadataKey) : Prop := key = .controller ∨ key = .route ∨ key = .dtoFieldBinding

namespace Program

variable (P : Program)

def updates (key : MetadataKey) (c : Nat) : List (Entry key → Entry key) := (P.decorators c).filterMap (·.update key)

/-- The class has a decorator that writes records of the key. -/
def uses (c : Nat) (key : MetadataKey) : Bool := (P.decorators c).any fun d => (d.update key).isSome

/-- Only the class and its ancestors keep their decorators. -/
def only (c : Nat) : Program where
  hierarchy := P.hierarchy
  decorators a := if a ∈ chain P.hierarchy c then P.decorators a else []

def inherited (n c : Nat) : Results :=
  match P.hierarchy.parent c with
  | some p => P.results n p
  | none => Metadata.results fun _ => none

/-- Metadata flow down a hierarchy, and never up or sideways. -/
structure Flows (n : Nat) : Prop where
  isolated : ∀ c < n, P.results n c = (P.only c).results n c
  unchanged : ∀ m ≤ n, ∀ c < m, P.results m c = P.results n c
  keeps : ∀ c < n, Keeps (P.decorators c) (P.inherited n c) (P.results n c)

/-- No class uses controller, route or binding decorators when an ancestor does. -/
def Separate (n : Nat) : Prop :=
  ∀ key : MetadataKey, key.Borrowed → ∀ c < n, ∀ a ∈ chain P.hierarchy c, a ≠ c → P.uses a key = true →
    P.uses c key = false

variable {P}

theorem uses_eq_false {c : Nat} {key : MetadataKey} : P.uses c key = false ↔ P.updates key c = [] := by
  simp [uses, updates, List.filterMap_eq_nil_iff]

theorem uses_eq_true {c : Nat} {key : MetadataKey} : P.uses c key = true ↔ P.updates key c ≠ [] := by
  rw [ne_eq, ← uses_eq_false, Bool.not_eq_false]

theorem applyDecorators_key (decorators : List Decorator) (bags : Bags) (c : Nat) (key : MetadataKey) :
    decorators.foldl (fun bags d => P.applyDecorator bags c d) bags key =
      writeAll (writeRecord P.hierarchy key) (bags key) c (decorators.filterMap (·.update key)) := by
  induction decorators generalizing bags with
  | nil => rfl
  | cons d rest ih =>
    rw [List.foldl_cons, ih, applyDecorator]
    cases e : d.update key with
    | none => simp [e]
    | some f => simp [e, writeAll]

theorem bags_eq (n : Nat) (key : MetadataKey) :
    P.bags n key = made (writeRecord P.hierarchy key) (P.updates key) n := by
  induction n with
  | zero => rfl
  | succ n ih => rw [bags, applyDecorators_key, ih]; rfl

theorem writeRecord_borrowed (H : Hierarchy) {key : MetadataKey} (h : key.Borrowed) :
    writeRecord H key = writeFound H (Entry.empty key) := by
  rcases h with rfl | rfl | rfl <;> rfl

theorem writeRecord_owned (H : Hierarchy) {key : MetadataKey} (h : ¬ key.Borrowed) :
    writeRecord H key = writeOwn H (Entry.empty key) := by
  cases key with
  | controller | route | dtoFieldBinding => exact absurd (by simp [MetadataKey.Borrowed]) h
  | dtoFieldValidation | classValidation => rfl

theorem Separate.updates {n : Nat} (h : P.Separate n) {key : MetadataKey} (borrowed : key.Borrowed) :
    Prototypes.Separate P.hierarchy (P.updates key) n := by
  intro c hc a ha other used
  exact uses_eq_false.mp (h key borrowed c hc a ha other (uses_eq_true.mpr used))

theorem records_intended {n c : Nat} (h : P.Separate n) (hc : c < n) (key : MetadataKey) :
    P.records n c key = intended P.hierarchy (Entry.empty key) (P.updates key) c := by
  rw [records, bags_eq]
  by_cases borrowed : key.Borrowed
  · rw [writeRecord_borrowed _ borrowed, made_found_eq n (h.updates borrowed), read_made_own n c hc]
  · rw [writeRecord_owned _ borrowed, read_made_own n c hc]

theorem only_updates {a c : Nat} (ha : a ∈ chain P.hierarchy c) (key : MetadataKey) :
    (P.only c).updates key a = P.updates key a := by
  simp [updates, only, ha]

theorem Separate.only {n : Nat} (h : P.Separate n) (c : Nat) : (P.only c).Separate n := by
  intro key borrowed d hd a ha other used
  have sub (b : Nat) (hb : (P.only c).uses b key = true) : P.uses b key = true := by
    unfold uses Program.only at hb
    dsimp only at hb
    split at hb
    · exact hb
    · cases hb
  cases e : (P.only c).uses d key with
  | false => rfl
  | true =>
    have no := h key borrowed d hd a ha other (sub a used)
    rw [sub d e] at no
    cases no

theorem Separate.mono {m n : Nat} (h : P.Separate n) (le : m ≤ n) : P.Separate m :=
  fun key borrowed c hc => h key borrowed c (Nat.lt_of_lt_of_le hc le)

theorem Separate.flows {n : Nat} (h : P.Separate n) : P.Flows n where
  isolated c hc := by
    refine congrArg Metadata.results (funext fun key => ?_)
    rw [records_intended h hc, records_intended (h.only c) hc]
    exact intended_congr fun a ha => (only_updates ha key).symm
  unchanged m hm c hc := by
    refine congrArg Metadata.results (funext fun key => ?_)
    rw [records_intended (h.mono hm) hc, records_intended h (Nat.lt_of_lt_of_le hc hm)]
  keeps c hc := by
    have keep (up : Records) (all : ∀ key, intended P.hierarchy (Entry.empty key) (P.updates key) c =
        extend (P.decorators c) (up key)) : Keeps (P.decorators c) (Metadata.results up) (P.results n c) := by
      have records : P.records n c = fun key => extend (P.decorators c) (up key) :=
        funext fun key => (records_intended h hc key).trans (all key)
      rw [results, records]
      exact keeps_extend _ up
    unfold inherited
    cases e : P.hierarchy.parent c with
    | none => exact keep _ fun key => intended_root e
    | some p =>
      refine keep _ fun key => ?_
      rw [intended_heir e, records_intended h ((P.hierarchy.earlier c p e).trans hc)]
      rfl

end Program

/-! ## Where they do not -/

/-- An argument that tells the decorators of one class from those of the others. -/
def mark (marked : Bool) : JsString := if marked then text "/marked" else text "/plain"

def sample (marked : Bool) : MetadataKey → Decorator
  | .controller => .controller (mark marked)
  | .route => .route (.named []) (.route ⟨text "GET", by decide⟩ (mark marked) none)
  | .dtoFieldBinding => .binding (.named []) (.bind .path (some (mark marked)))
  | .dtoFieldValidation => .fieldRule (.named []) 0
  | .classValidation => .classRule 0

def samples (marked : Bool) (uses : MetadataKey → Bool) : List Decorator :=
  ([.controller, .route, .dtoFieldBinding, .dtoFieldValidation, .classValidation].filter uses).map (sample marked)

def observe (key : MetadataKey) (r : Results) : Option JsString :=
  match key with
  | .controller => r.controller.map (·.basePath)
  | .route => (r.route (.named [])).map (·.path)
  | .dtoFieldBinding => (find? r.bindings (.named [])).bind (·.key)
  | .dtoFieldValidation | .classValidation => none

theorem sample_update_other {marked : Bool} {key other : MetadataKey} (h : other ≠ key) :
    (sample marked other).update key = none := by
  cases other <;> cases key <;> first | rfl | exact absurd rfl h

theorem sample_update (marked : Bool) (key : MetadataKey) : ∃ f, (sample marked key).update key = some f := by
  cases key <;> exact ⟨_, rfl⟩

theorem samples_update (marked : Bool) (uses : MetadataKey → Bool) (key : MetadataKey) :
    (samples marked uses).filterMap (·.update key) = if uses key then ((sample marked key).update key).toList else [] := by
  unfold samples
  rw [List.filterMap_map, List.filterMap_filter]
  cases key <;> simp [List.filterMap_cons, sample_update_other] <;> split <;> simp_all

theorem observe_sample {marked : Bool} {key : MetadataKey} (borrowed : key.Borrowed) {records : Records}
    {f : Entry key → Entry key} (hf : (sample marked key).update key = some f) {r : Entry key}
    (h : records key = some (f r)) : observe key (results records) = some (mark marked) := by
  rcases borrowed with rfl | rfl | rfl
  · cases hf
    simp only [observe, results, getControllerMetadata]
    rw [h]
    rfl
  · cases hf
    simp only [observe, results, getRouteMetadata, getRouteRecord]
    rw [h]
    simp [RouteDecorator.apply]
  · cases hf
    have found : bindingAt records (.named []) = BindingDecorator.apply (.bind .path (some (mark marked)))
        (bindingOf (.named []) r) := by
      unfold bindingAt bindingOf
      rw [h]
      simp
    simp only [observe, results]
    rw [find?_bindings, found]
    rfl

/-- Each class has the samples of what it uses, those of one class marked. -/
def sampleProgram (H : Hierarchy) (uses : Nat → MetadataKey → Bool) (markedClass : Nat) : Program where
  hierarchy := H
  decorators c := samples (decide (c = markedClass)) (uses c)

section Samples

variable {H : Hierarchy} {uses : Nat → MetadataKey → Bool} {markedClass : Nat}

theorem sampleProgram_uses (c : Nat) (key : MetadataKey) : (sampleProgram H uses markedClass).uses c key = uses c key := by
  obtain ⟨f, hf⟩ := sample_update (decide (c = markedClass)) key
  have updates : (sampleProgram H uses markedClass).updates key c = if uses c key then [f] else [] := by
    rw [Program.updates, sampleProgram, samples_update, hf]
    rfl
  cases h : uses c key with
  | false => exact Program.uses_eq_false.mpr (by rw [updates, h]; rfl)
  | true => exact Program.uses_eq_true.mpr (by rw [updates, h]; simp)

theorem sampleProgram_leaks {n c a : Nat} {key : MetadataKey} (borrowed : key.Borrowed) (hc : c < n)
    (ha : a ∈ chain H c) (other : a ≠ c) (above : uses a key = true) (here : uses c key = true) :
    ¬ (sampleProgram H uses c).Flows n := by
  intro flows
  have updates (i : Nat) : (sampleProgram H uses c).updates key i =
      if uses i key then ((sample (decide (i = c)) key).update key).toList else [] :=
    samples_update _ _ _
  have used : (sampleProgram H uses c).updates key a ≠ [] := by
    obtain ⟨f, hf⟩ := sample_update (decide (a = c)) key
    simp [updates, above, hf]
  obtain ⟨b, hb, apart, writes, r, marked⟩ := @writeFound_leaks _ H (Entry.empty key) ((sampleProgram H uses c).updates key) c
    ⟨a, ha, other, used⟩
  have below : b < c := Nat.lt_of_le_of_ne (le_of_mem_chain hb) apart
  -- the class itself has marked the record that `b` reads
  have late : observe key ((sampleProgram H uses c).results (c + 1) b) = some (mark true) := by
    obtain ⟨f, hf⟩ := sample_update true key
    have one : (sampleProgram H uses c).updates key c = [f] := by simp [updates, here, hf]
    rw [one] at marked
    refine observe_sample borrowed hf (r := r) ?_
    rw [Program.records, Program.bags_eq, Program.writeRecord_borrowed _ borrowed]
    exact marked
  -- before, there was no mark
  have early : observe key ((sampleProgram H uses c).results (b + 1) b) = some (mark false) := by
    obtain ⟨f, hf⟩ := sample_update false key
    have plain : ∀ i < b + 1, ∀ g ∈ (sampleProgram H uses c).updates key i, ∀ r, ∃ r', g r = f r' := by
      intro i hi g hg r
      have unmarked : decide (i = c) = false := decide_eq_false (by omega)
      rw [updates, unmarked, hf] at hg
      split at hg
      · obtain rfl : g = f := by simpa using hg
        exact ⟨r, rfl⟩
      · cases hg
    cases e : lookup H (made (writeFound H (Entry.empty key)) ((sampleProgram H uses c).updates key) (b + 1)) b with
    | none => exact absurd e (lookup_made_found (Nat.lt_succ_self b) writes)
    | some found =>
      obtain ⟨o, r⟩ := found
      obtain ⟨-, -, r', rfl⟩ := made_found_some (Q := fun r => ∃ r', r = f r') (b + 1) plain o r (lookup_some e).2
      refine observe_sample borrowed hf (r := r') ?_
      rw [Program.records, Program.bags_eq, Program.writeRecord_borrowed _ borrowed]
      exact congrArg (Option.map Prod.snd) e
  have same : (sampleProgram H uses c).results (b + 1) b = (sampleProgram H uses c).results (c + 1) b :=
    (flows.unchanged (b + 1) (by omega) b (by omega)).trans (flows.unchanged (c + 1) hc b (by omega)).symm
  rw [same, late] at early
  exact absurd early (by decide)

end Samples

/-- Metadata flow down the hierarchy, whatever the arguments of the decorators,
exactly when no class uses controller, route or binding decorators that an
ancestor uses. -/
theorem flows_iff (H : Hierarchy) (n : Nat) (uses : Nat → MetadataKey → Bool) :
    (∀ P : Program, P.hierarchy = H → (∀ c key, P.uses c key = uses c key) → P.Flows n) ↔
      ∀ key : MetadataKey, key.Borrowed → ∀ c < n, ∀ a ∈ chain H c, a ≠ c → uses a key = true → uses c key = false := by
  constructor
  · intro all key borrowed c hc a ha other above
    cases here : uses c key with
    | false => rfl
    | true =>
      have flows := all (sampleProgram H uses c) rfl sampleProgram_uses
      exact absurd flows (sampleProgram_leaks borrowed hc ha other above here)
  · rintro separate P rfl same
    refine Program.Separate.flows fun key borrowed c hc a ha other above => ?_
    rw [same] at above ⊢
    exact separate key borrowed c hc a ha other above

/-- `@Controller('/a') class A` and `@Controller('/b') class B extends A`. -/
def twoControllers : Program where
  hierarchy := ⟨fun c => if c = 1 then some 0 else none, fun c p h => by
    split at h
    · cases h
      omega
    · cases h⟩
  decorators c := if c = 0 then [.controller (text "/a")] else [.controller (text "/b")]

/-- The base path of `A` becomes that of `B`. -/
theorem twoControllers_leak :
    (twoControllers.results 1 0).controller.map (·.basePath) = some (text "/a") ∧
      (twoControllers.results 2 0).controller.map (·.basePath) = some (text "/b") ∧
        ¬ twoControllers.Flows 2 := by
  have before : (twoControllers.results 1 0).controller.map (·.basePath) = some (text "/a") := rfl
  have after : (twoControllers.results 2 0).controller.map (·.basePath) = some (text "/b") := rfl
  refine ⟨before, after, fun flows => ?_⟩
  rw [flows.unchanged 1 (by decide) 0 (by decide), after] at before
  exact absurd before (by decide)

end Fluo.Metadata
