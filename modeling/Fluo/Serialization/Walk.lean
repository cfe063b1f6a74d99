import Fluo.Serialization.Serialize
import Mathlib.Data.List.Perm.Subperm

/-!
# What the walk builds

Each object is entered once. While its output is filled it is on the current
path; afterwards its output shows its fields, each as the serialization of the
transformed value, and the outputs of others are not touched again.
-/

namespace Fluo.Serialization

open Js

variable (w : World)

def Value.InBounds : Value → Prop
  | .ref address => address < w.objects.size
  | _ => True

/-- No object and no transform leads out of the finitely many objects. -/
structure Closed : Prop where
  fields : ∀ address created fields, (w.objects.get address).plan = some (created, fields) →
    ∀ field ∈ fields, field.raw.InBounds w
  transforms : ∀ calls transform value, value.InBounds w → (w.transform calls transform value).InBounds w

/-- Where an object was found and what its fields were after their transforms. -/
structure Visit where
  path : List Nat
  values : List Value

/-- What stands for a value in the output of an object with this path. -/
def slot (references : Nat → Option Reference) (path : List Nat) : Value → OutValue
  | .undefined => .undefined
  | .leaf id => .leaf id
  | .ref address =>
    if (w.objects.get address).isOpaque then .opaque_ address
    else if address ∈ path then .undefined
    else
      match references address with
      | some reference => .ref reference.value
      | none => .undefined

theorem Object.isOpaque_iff {object : Object} : object.isOpaque = true ↔ object.plan = none := by
  cases object with
  | opaque_ => exact iff_of_true rfl rfl
  | array | plain => exact iff_of_false nofun nofun
  | «instance» constructor =>
    refine iff_of_false nofun ?_
    cases constructor with
    | none => exact nofun
    | some constructor =>
      rw [Object.plan]
      split <;> exact nofun

theorem Object.isOpaque_false {object : Object} {planned : OutObject × List Field} (plan : object.plan = some planned) :
    object.isOpaque = false := by
  refine Bool.eq_false_iff.mpr fun isOpaque => ?_
  rw [Object.isOpaque_iff.mp isOpaque] at plan
  cases plan

/-- The objects that a value leads the walk into have been entered. -/
def Entered (references : Nat → Option Reference) (value : Value) : Prop :=
  ∀ address, value = .ref address → (w.objects.get address).isOpaque = false → references address ≠ none

/-- The values are those of the fields, after the transforms in their order. -/
def Transformed (fields : List Field) (values : List Value) : Prop :=
  List.Forall₂ (fun field value => ∃ calls, value = applyTransforms w calls field.raw field.transforms) fields values

/-- Assign the slots of the values, field by field. -/
def assignAll (references : Nat → Option Reference) (path : List Nat) (object : OutObject) :
    List Field → List Value → OutObject
  | field :: fields, value :: values =>
    assignAll references path (object.assign field.key (slot w references path value)) fields values
  | _, _ => object

structure Serialized (s : State) (address output : Nat) (visit : Visit) : Prop where
  shows : ∃ created fields, (w.objects.get address).plan = some (created, fields) ∧
    Transformed w fields visit.values ∧
    s.outputs.get output = assignAll w s.references visit.path created fields visit.values
  entered : ∀ value ∈ visit.values, Entered w s.references value

def Keeps (references later : Nat → Option Reference) : Prop :=
  ∀ address reference, references address = some reference →
    ∃ reference', later address = some reference' ∧ reference'.value = reference.value

section Slots

variable {w} {references later : Nat → Option Reference} {path : List Nat}

theorem Keeps.refl (references : Nat → Option Reference) : Keeps references references :=
  fun _ reference found => ⟨reference, found, rfl⟩

theorem Keeps.trans {last : Nat → Option Reference} (first : Keeps references later) (second : Keeps later last) :
    Keeps references last := by
  intro address reference found
  obtain ⟨mid, found', same⟩ := first address reference found
  obtain ⟨end_, found'', same'⟩ := second address mid found'
  exact ⟨end_, found'', same'.trans same⟩

theorem Keeps.entered (keeps : Keeps references later) {address : Nat} (entered : references address ≠ none) :
    later address ≠ none := by
  obtain ⟨reference, found⟩ := Option.ne_none_iff_exists'.mp entered
  obtain ⟨reference', found', _⟩ := keeps address reference found
  exact Option.ne_none_iff_exists'.mpr ⟨reference', found'⟩

theorem Entered.kept {value : Value} (entered : Entered w references value) (keeps : Keeps references later) :
    Entered w later value :=
  fun address same tracked => keeps.entered (entered address same tracked)

theorem slot_later {value : Value} (entered : Entered w references value) (keeps : Keeps references later) :
    slot w later path value = slot w references path value := by
  cases value with
  | undefined => rfl
  | leaf id => rfl
  | ref address =>
    cases tracked : (w.objects.get address).isOpaque with
    | true => simp [slot, tracked]
    | false =>
      obtain ⟨reference, found⟩ := Option.ne_none_iff_exists'.mp (entered address rfl tracked)
      obtain ⟨reference', found', same⟩ := keeps address reference found
      simp [slot, tracked, found, found', same]

theorem assignAll_later (object : OutObject) (fields : List Field) (values : List Value)
    (entered : ∀ value ∈ values, Entered w references value) (keeps : Keeps references later) :
    assignAll w later path object fields values = assignAll w references path object fields values := by
  induction fields generalizing object values with
  | nil => rfl
  | cons field fields ih =>
    cases values with
    | nil => rfl
    | cons value values =>
      rw [assignAll, assignAll, slot_later (entered value List.mem_cons_self) keeps]
      exact ih _ values fun v mem => entered v (List.mem_cons_of_mem _ mem)

theorem Serialized.kept {s t : State} {address output : Nat} {visit : Visit}
    (done : Serialized w s address output visit) (keeps : Keeps s.references t.references)
    (same : t.outputs.get output = s.outputs.get output) : Serialized w t address output visit where
  shows := by
    obtain ⟨created, fields, plan, transformed, shown⟩ := done.shows
    refine ⟨created, fields, plan, transformed, ?_⟩
    rw [same, shown, assignAll_later created fields visit.values done.entered keeps]
  entered value mem := (done.entered value mem).kept keeps

end Slots

/-! ## The walk -/

/-- The state of the walk while the objects of `path` are in progress. -/
structure Walk (s : State) (path : List Nat) (visits : Nat → Visit) : Prop where
  nodup : path.Nodup
  bounds : ∀ a, s.references a ≠ none → a < w.objects.size
  active : ∀ a, (∃ o, s.references a = some ⟨true, o⟩) ↔ a ∈ path
  outputs : ∀ a r, s.references a = some r → r.value < s.outputs.size
  separate : ∀ a b r r', s.references a = some r → s.references b = some r' → r.value = r'.value → a = b
  done : ∀ a o, s.references a = some ⟨false, o⟩ → Serialized w s a o (visits a)

/-- An object that was entered between two states, below `path`: from one of the
values, or from another object that was entered. -/
def FoundFrom (values : List Value) (path : List Nat) (s t : State) (visits : Nat → Visit) : Prop :=
  ∀ b, s.references b = none → t.references b ≠ none →
    (.ref b ∈ values ∧ (visits b).path = b :: path) ∨
      ∃ p, s.references p = none ∧ t.references p ≠ none ∧ (visits b).path = b :: (visits p).path ∧
        .ref b ∈ (visits p).values

/-- What a part of the walk leaves as it was. -/
structure Since (s t : State) (visits later : Nat → Visit) : Prop where
  keeps : ∀ a r, s.references a = some r → t.references a = some r
  grows : s.outputs.size ≤ t.outputs.size
  visits : ∀ a, s.references a ≠ none → later a = visits a

theorem Since.toKeeps {s t : State} {visits later : Nat → Visit} (since : Since s t visits later) :
    Keeps s.references t.references :=
  fun a r found => ⟨r, since.keeps a r found, rfl⟩

theorem Since.refl (s : State) (visits : Nat → Visit) : Since s s visits visits :=
  ⟨fun _ _ => id, Nat.le_refl _, fun _ _ => rfl⟩

theorem Since.trans {s t u : State} {visits later last : Nat → Visit} (first : Since s t visits later)
    (second : Since t u later last) : Since s u visits last where
  keeps a r found := second.keeps a r (first.keeps a r found)
  grows := Nat.le_trans first.grows second.grows
  visits a entered := (second.visits a (first.toKeeps.entered entered)).trans (first.visits a entered)

theorem FoundFrom.trans {values others : List Value} {path : List Nat} {s t u : State} {visits later last : Nat → Visit}
    (first : FoundFrom values path s t later) (second : FoundFrom others path t u last)
    (early : Since s t visits later) (late : Since t u later last) :
    FoundFrom (values ++ others) path s u last := by
  intro b fresh entered
  by_cases already : t.references b = none
  · rcases second b already entered with ⟨mem, same⟩ | ⟨p, new, inside, same, mem⟩
    · exact .inl ⟨List.mem_append_right _ mem, same⟩
    · refine .inr ⟨p, ?_, inside, same, mem⟩
      by_contra old
      exact early.toKeeps.entered old new
  · rcases first b fresh already with ⟨mem, same⟩ | ⟨p, new, inside, same, mem⟩
    · exact .inl ⟨List.mem_append_left _ mem, by rw [late.visits b already, same]⟩
    · refine .inr ⟨p, new, late.toKeeps.entered inside, ?_, ?_⟩
      · rw [late.visits b already, late.visits p inside, same]
      · rw [late.visits p inside]
        exact mem

/-- What a call of the walk on a value comes to. -/
structure Outcome (value : Value) (path : List Nat) (s t : State) (visits later : Nat → Visit) (out : OutValue) :
    Prop where
  walk : Walk w t path later
  since : Since s t visits later
  frame : ∀ o, o < s.outputs.size → t.outputs.get o = s.outputs.get o
  found : FoundFrom [value] path s t later
  entered : Entered w t.references value
  shown : out = slot w t.references path value

/-! ## The loop that fills an output -/

section Steps

variable {w}

theorem applyTransforms_inBounds (closed : Closed w) (transforms : List Nat) {calls : Nat} {value : Value}
    (inside : value.InBounds w) : (applyTransforms w calls value transforms).InBounds w := by
  induction transforms generalizing calls value with
  | nil => exact inside
  | cons transform rest ih => exact ih (closed.transforms calls transform value inside)

theorem Walk.assign {s : State} {address output : Nat} {path : List Nat} {visits : Nat → Visit}
    (walk : Walk w s path visits) (here : s.references address = some ⟨true, output⟩) (f : OutObject → OutObject) :
    Walk w { s with outputs := s.outputs.modify output f } path visits where
  nodup := walk.nodup
  bounds := walk.bounds
  active := walk.active
  outputs := walk.outputs
  separate := walk.separate
  done a o found := by
    refine (walk.done a o found).kept (Keeps.refl _) (Heap.get_modify_ne _ _ ?_)
    rintro rfl
    cases walk.separate a address _ _ found here rfl
    rw [here] at found
    cases found

theorem Walk.counted {s : State} {path : List Nat} {visits : Nat → Visit} (walk : Walk w s path visits) (calls : Nat) :
    Walk w { s with calls := calls } path visits :=
  ⟨walk.nodup, walk.bounds, walk.active, walk.outputs, walk.separate,
    fun a o found => (walk.done a o found).kept (Keeps.refl _) rfl⟩

/-- What the loop over the remaining fields comes to. -/
structure Filled (output : Nat) (fields : List Field) (path : List Nat) (s t : State) (visits later : Nat → Visit)
    (values : List Value) : Prop where
  walk : Walk w t path later
  since : Since s t visits later
  frame : ∀ o, o < s.outputs.size → o ≠ output → t.outputs.get o = s.outputs.get o
  found : FoundFrom values path s t later
  entered : ∀ value ∈ values, Entered w t.references value
  transformed : Transformed w fields values
  shown : t.outputs.get output = assignAll w t.references path (s.outputs.get output) fields values

/-- The walk, as far as its depth goes, does what `Outcome` says. -/
def Walks (recurse : Value → State → Option (OutValue × State)) (path : List Nat) : Prop :=
  ∀ (value : Value) (s : State) (visits : Nat → Visit), Walk w s path visits → value.InBounds w →
    ∃ out t later, recurse value s = some (out, t) ∧ Outcome w value path s t visits later out

theorem fill_fills (closed : Closed w) {recurse : Value → State → Option (OutValue × State)} {path : List Nat}
    (walks : Walks (w := w) recurse path) {address output : Nat} (fields : List Field)
    (inside : ∀ field ∈ fields, field.raw.InBounds w) {s : State} {visits : Nat → Visit} (walk : Walk w s path visits)
    (here : s.references address = some ⟨true, output⟩) :
    ∃ t later values, fill w recurse output fields s = some t ∧ Filled (w := w) output fields path s t visits later values := by
  induction fields generalizing s visits with
  | nil =>
    refine ⟨s, visits, [], rfl, walk, Since.refl s visits, fun _ _ _ => rfl, ?_, nofun, .nil, rfl⟩
    exact fun b fresh entered => absurd fresh entered
  | cons field rest ih =>
    let value := applyTransforms w s.calls field.raw field.transforms
    have inBounds : value.InBounds w :=
      applyTransforms_inBounds closed field.transforms (inside field List.mem_cons_self)
    obtain ⟨out, mid, between, called, one⟩ :=
      walks value { s with calls := s.calls + field.transforms.length } visits (walk.counted _) inBounds
    have still : mid.references address = some ⟨true, output⟩ := one.since.keeps address _ here
    have place : output < s.outputs.size := walk.outputs address _ here
    obtain ⟨t, later, values, filled, many⟩ := ih (fun f mem => inside f (List.mem_cons_of_mem _ mem))
      (one.walk.assign still (·.assign field.key out)) still
    have early : Since s mid visits between := ⟨one.since.keeps, one.since.grows, one.since.visits⟩
    have late : Since mid t between later := ⟨many.since.keeps, many.since.grows, many.since.visits⟩
    refine ⟨t, later, value :: values, ?_, many.walk, early.trans late, ?_, ?_, ?_, .cons ⟨s.calls, rfl⟩ many.transformed, ?_⟩
    · rw [fill, called]
      exact filled
    · intro o less other
      rw [many.frame o (Nat.lt_of_lt_of_le less early.grows) other]
      exact (Heap.get_modify_ne mid.outputs (·.assign field.key out) other).trans (one.frame o less)
    · exact @FoundFrom.trans [value] values path s mid t visits between later one.found many.found early late
    · intro v mem
      rcases List.mem_cons.mp mem with rfl | mem
      · exact one.entered.kept late.toKeeps
      · exact many.entered v mem
    · have now : (mid.outputs.modify output (·.assign field.key out)).get output =
          (s.outputs.get output).assign field.key (slot w t.references path value) := by
        rw [Heap.get_modify_self, one.frame output place, slot_later one.entered late.toKeeps, one.shown]
      rw [many.shown, assignAll]
      exact congrArg (assignAll w t.references path · rest values) now

/-! ## One object -/

theorem Walk.start {s : State} {address : Nat} {path : List Nat} {visits : Nat → Visit} (walk : Walk w s path visits)
    (fresh : s.references address = none) (inside : address < w.objects.size) (created : OutObject) :
    Walk w { s.mark address ⟨true, s.outputs.size⟩ with outputs := s.outputs.push created } (address :: path) visits where
  nodup := by
    refine List.nodup_cons.mpr ⟨fun mem => ?_, walk.nodup⟩
    obtain ⟨o, found⟩ := (walk.active address).mpr mem
    rw [fresh] at found
    cases found
  bounds a entered := by
    by_cases same : a = address
    · exact same ▸ inside
    · exact walk.bounds a (by simpa [State.mark, Function.update_of_ne same] using entered)
  active a := by
    by_cases same : a = address
    · subst same
      simp [State.mark]
    · simp only [State.mark, Function.update_of_ne same, List.mem_cons, same, false_or]
      exact walk.active a
  outputs a r found := by
    by_cases same : a = address
    · subst same
      simp only [State.mark, Function.update_self, Option.some.injEq] at found
      subst found
      exact Nat.lt_succ_self _
    · simp only [State.mark, Function.update_of_ne same] at found
      exact Nat.lt_succ_of_lt (walk.outputs a r found)
  separate a b r r' foundA foundB same := by
    by_cases hereA : a = address
    · by_cases hereB : b = address
      · rw [hereA, hereB]
      · subst hereA
        simp only [State.mark, Function.update_self, Option.some.injEq, Function.update_of_ne hereB] at foundA foundB
        have := walk.outputs b r' foundB
        subst foundA
        dsimp only at same
        omega
    · by_cases hereB : b = address
      · subst hereB
        simp only [State.mark, Function.update_self, Option.some.injEq, Function.update_of_ne hereA] at foundA foundB
        have := walk.outputs a r foundA
        subst foundB
        dsimp only at same
        omega
      · simp only [State.mark, Function.update_of_ne hereA, Function.update_of_ne hereB] at foundA foundB
        exact walk.separate a b r r' foundA foundB same
  done a o found := by
    by_cases same : a = address
    · subst same
      simp [State.mark] at found
    · simp only [State.mark, Function.update_of_ne same] at found
      have keeps : Keeps s.references (s.mark address ⟨true, s.outputs.size⟩).references := by
        intro b r was
        have other : b ≠ address := fun e => by rw [e, fresh] at was; cases was
        exact ⟨r, by simpa [State.mark, Function.update_of_ne other] using was, rfl⟩
      exact (walk.done a o found).kept keeps (Heap.get_push_lt created (walk.outputs a _ found))

/-- An object whose output has been filled is taken off the path. -/
theorem Walk.finish {s : State} {address output : Nat} {path : List Nat} {visits : Nat → Visit} {values : List Value}
    (walk : Walk w s (address :: path) visits) (here : s.references address = some ⟨true, output⟩)
    (done : Serialized w s address output ⟨address :: path, values⟩) :
    Walk w (s.mark address ⟨false, output⟩) path (Function.update visits address ⟨address :: path, values⟩) := by
  have keeps : Keeps s.references (s.mark address ⟨false, output⟩).references := by
    intro b r was
    by_cases same : b = address
    · subst same
      rw [here] at was
      cases was
      exact ⟨⟨false, output⟩, Function.update_self _ _ _, rfl⟩
    · exact ⟨r, by simpa [State.mark, Function.update_of_ne same] using was, rfl⟩
  have back : ∀ a r, (s.mark address ⟨false, output⟩).references a = some r →
      ∃ r', s.references a = some r' ∧ r'.value = r.value := by
    intro a r found
    by_cases same : a = address
    · subst same
      simp only [State.mark, Function.update_self, Option.some.injEq] at found
      exact ⟨_, here, by rw [← found]⟩
    · exact ⟨r, by simpa [State.mark, Function.update_of_ne same] using found, rfl⟩
  refine ⟨(List.nodup_cons.mp walk.nodup).2, fun a entered => ?_, fun a => ?_, fun a r found => ?_,
    fun a b r r' foundA foundB same => ?_, fun a o found => ?_⟩
  · obtain ⟨r, found⟩ := Option.ne_none_iff_exists'.mp entered
    obtain ⟨r', was, _⟩ := back a r found
    exact walk.bounds a (Option.ne_none_iff_exists'.mpr ⟨r', was⟩)
  · by_cases same : a = address
    · subst same
      simp [State.mark, (List.nodup_cons.mp walk.nodup).1]
    · simp only [State.mark, Function.update_of_ne same]
      rw [walk.active a, List.mem_cons]
      simp [same]
  · obtain ⟨r', was, same⟩ := back a r found
    exact same ▸ walk.outputs a r' was
  · obtain ⟨r₁, wasA, sameA⟩ := back a r foundA
    obtain ⟨r₂, wasB, sameB⟩ := back b r' foundB
    exact walk.separate a b r₁ r₂ wasA wasB (by rw [sameA, sameB, same])
  · by_cases same : a = address
    · subst same
      simp only [State.mark, Function.update_self, Option.some.injEq, Reference.mk.injEq, true_and] at found
      subst found
      rw [Function.update_self]
      exact done.kept keeps rfl
    · simp only [State.mark, Function.update_of_ne same] at found
      rw [Function.update_of_ne same]
      exact (walk.done a o found).kept keeps rfl

theorem Walk.path_length {s : State} {path : List Nat} {visits : Nat → Visit} (walk : Walk w s path visits) :
    path.length ≤ w.objects.size := by
  have inside : path ⊆ List.range w.objects.size := by
    intro a mem
    obtain ⟨o, found⟩ := (walk.active a).mpr mem
    exact List.mem_range.mpr (walk.bounds a (by rw [found]; exact nofun))
  simpa using (List.subperm_of_subset walk.nodup inside).length_le

theorem outcome_same {s : State} {path : List Nat} {visits : Nat → Visit} (walk : Walk w s path visits) {value : Value}
    {out : OutValue} (entered : Entered w s.references value) (shown : out = slot w s.references path value) :
    Outcome w value path s s visits visits out :=
  ⟨walk, Since.refl s visits, fun _ _ => rfl, fun _ fresh entered => absurd fresh entered, entered, shown⟩

/-- The walk terminates and builds what it should, whatever is in progress. -/
theorem serializeInternal_walks (closed : Closed w) (depth : Nat) (path : List Nat)
    (enough : w.objects.size < depth + path.length) : Walks (w := w) (serializeInternal w depth) path := by
  induction depth generalizing path with
  | zero =>
    intro value s visits walk _
    have := walk.path_length
    omega
  | succ depth ih =>
    intro value s visits walk inside
    cases value with
    | undefined => exact ⟨_, s, visits, rfl, outcome_same walk (fun _ same => by cases same) rfl⟩
    | leaf id => exact ⟨_, s, visits, rfl, outcome_same walk (fun _ same => by cases same) rfl⟩
    | ref address =>
      cases plan : (w.objects.get address).plan with
      | none =>
        have passed : (w.objects.get address).isOpaque = true := Object.isOpaque_iff.mpr plan
        simp only [serializeInternal, plan]
        refine ⟨_, s, visits, rfl, outcome_same walk ?_ (by simp [slot, passed])⟩
        rintro _ ⟨⟩ tracked
        rw [passed] at tracked
        cases tracked
      | some planned =>
        obtain ⟨created, fields⟩ := planned
        have tracked := Object.isOpaque_false plan
        simp only [serializeInternal, plan]
        cases known : s.references address with
        | some reference =>
          refine ⟨_, s, visits, rfl, outcome_same walk ?_ ?_⟩
          · rintro _ ⟨⟩ _
            rw [known]
            exact Option.some_ne_none _
          · have progress : reference.active = true ↔ address ∈ path := by
              rw [← walk.active address, known]
              constructor
              · intro isActive
                exact ⟨reference.value, by rw [← isActive]⟩
              · rintro ⟨o, same⟩
                cases same
                rfl
            by_cases isActive : reference.active = true
            · simp [slot, tracked, isActive, progress.mp isActive]
            · have away : address ∉ path := fun mem => isActive (progress.mpr mem)
              simp [slot, tracked, isActive, known, away]
        | none =>
          have started := walk.start known inside created
          have marked : (s.mark address ⟨true, s.outputs.size⟩).references address = some ⟨true, s.outputs.size⟩ :=
            Function.update_self _ _ _
          obtain ⟨t, later, values, filled, many⟩ := fill_fills closed
            (ih (address :: path) (by simp only [List.length_cons]; omega)) fields
            (fun field mem => closed.fields address created fields plan field mem) started marked
          have still : t.references address = some ⟨true, s.outputs.size⟩ := many.since.keeps address _ marked
          have done : Serialized w t address s.outputs.size ⟨address :: path, values⟩ := by
            refine ⟨⟨created, fields, plan, many.transformed, ?_⟩, many.entered⟩
            rw [many.shown]
            exact congrArg (assignAll w t.references (address :: path) · fields values) (Heap.get_push_self _ _)
          have away : address ∉ path := by
            intro mem
            obtain ⟨o, found⟩ := (walk.active address).mpr mem
            rw [known] at found
            cases found
          -- every other object is seen alike before and after the marks of this one
          have before : ∀ a, a ≠ address → (s.mark address ⟨true, s.outputs.size⟩).references a = s.references a :=
            fun a other => Function.update_of_ne other _ _
          have after : ∀ a, a ≠ address → (t.mark address ⟨false, s.outputs.size⟩).references a = t.references a :=
            fun a other => Function.update_of_ne other _ _
          have older : ∀ a, s.references a ≠ none → a ≠ address := fun a entered same => entered (same ▸ known)
          have closedNow : (t.mark address ⟨false, s.outputs.size⟩).references address = some ⟨false, s.outputs.size⟩ :=
            Function.update_self _ _ _
          refine ⟨_, _, Function.update later address ⟨address :: path, values⟩, by rw [filled]; rfl,
            many.walk.finish still done, ⟨?_, ?_, ?_⟩, ?_, ?_, ?_, ?_⟩
          · intro a r found
            have other := older a (by rw [found]; exact Option.some_ne_none _)
            rw [after a other]
            exact many.since.keeps a r ((before a other).trans found)
          · exact Nat.le_of_succ_le many.since.grows
          · intro a entered
            have other := older a entered
            rw [Function.update_of_ne other]
            exact many.since.visits a (by rw [before a other]; exact entered)
          · intro o less
            exact (many.frame o (Nat.lt_succ_of_lt less) (Nat.ne_of_lt less)).trans (Heap.get_push_lt created less)
          · intro b fresh entered
            by_cases same : b = address
            · subst same
              exact .inl ⟨List.mem_singleton_self _, by rw [Function.update_self]⟩
            · rw [after b same] at entered
              refine .inr ?_
              rcases many.found b ((before b same).trans fresh) entered with ⟨mem, below⟩ | ⟨p, new, inside', below, mem⟩
              · refine ⟨address, known, by rw [closedNow]; exact Option.some_ne_none _, ?_, ?_⟩
                · rw [Function.update_of_ne same, Function.update_self, below]
                · rw [Function.update_self]
                  exact mem
              · have other : p ≠ address := by
                  rintro rfl
                  rw [show _ = some _ from marked] at new
                  cases new
                refine ⟨p, (before p other).symm.trans new, by rw [after p other]; exact inside', ?_, ?_⟩
                · rw [Function.update_of_ne same, Function.update_of_ne other, below]
                · rw [Function.update_of_ne other]
                  exact mem
          · rintro _ ⟨⟩ _
            rw [closedNow]
            exact Option.some_ne_none _
          · simp [slot, tracked, away, closedNow]

end Steps

end Fluo.Serialization
