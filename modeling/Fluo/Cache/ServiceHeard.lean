import Fluo.Cache.ServiceReclaim

/-!
# Calls of `del` that no load has heard

An account kept beside the service of the calls of `del` that a load of the key
should hear. The marks in the maps of the service are for these calls, so the
maps are emptied if every such call is heard in time.
-/

namespace Fluo.Cache

variable {V : Type}

namespace CacheService

variable {s t : CacheService V}

/-- A call of `remember` for the key, begun since the last `reset`, that has not
returned. -/
def Awaits (s : CacheService V) (key : String) : Prop :=
  ∃ i, i < s.remembers.size ∧ (s.remembers.get i).key = key ∧ (s.remembers.get i).version = s.resetVersion ∧
    (s.remembers.get i).stage.isEnded = false

instance (s : CacheService V) (key : String) : Decidable (s.Awaits key) := by unfold Awaits; infer_instance

/-- So that a load of the key is still to come or to end. -/
def Expects (s : CacheService V) (key : String) : Prop :=
  s.Awaits key ∨ ∃ e, e < s.loads.size ∧ (s.loads.get e).key = key ∧ (s.loads.get e).registeredIn = s.resetVersion ∧
    (s.loads.get e).stage ≠ .finished

instance (s : CacheService V) (key : String) : Decidable (s.Expects key) := by unfold Expects; infer_instance

/-- A `remember` that goes on from `s` to `t` calls its loader, unless it has a
value or waits for an older load. -/
def callsLoader (s : CacheService V) (i : Nat) (t : CacheService V) : Bool :=
  match (s.remembers.get i).stage, (t.remembers.get i).stage with
  | .read none, .awaiting e => s.loads.size ≤ e
  | .read none, _ => true
  | _, _ => false

end CacheService

/-- The service, with the keys that have an unheard `del`: one that was called
while a load was expected, with no `reset` and no end of a load of the key since.
Only loads begun since the last `reset` count. -/
structure Account (V : Type) where
  service : CacheService V
  unheard : String → Bool

namespace Account

open CacheService

def call (a : Account V) (c : Call V) : Account V :=
  ⟨a.service.call c, match c with
    | .del key => fun k => decide (k = key ∧ a.service.Expects key) || a.unheard k
    | .reset => fun _ => false
    | .remember _ _ | .set _ _ _ | .update _ => a.unheard⟩

/-- What an event that leads to `t` leaves unheard. -/
def heard (a : Account V) (t : CacheService V) : ServiceEvent V → String → Bool
  | .call c => (a.call c).unheard
  | .proceed i calls _ => if a.service.callsLoader i t then (calls.foldl call a).unheard else a.unheard
  | .loadContinues e =>
    if t.stage e = .finished ∧ (a.service.loads.get e).generation = a.service.resetVersion then
      fun k => !decide (k = (a.service.loads.get e).key) && a.unheard k
    else a.unheard
  | .read _ | .loaderSettles _ _ | .loadEffect _ | .rememberEnds _ | .writeEffect _ | .writeEnds _ | .commit _ _
  | .updateSettles _ | .expire _ => a.unheard

def step (a : Account V) (e : ServiceEvent V) : Option (Account V) :=
  (a.service.step e).map fun t => ⟨t, a.heard t e⟩

def initial : Account V := ⟨CacheService.initial, fun _ => false⟩

/-! ## What the calls do -/

theorem call_service (a : Account V) (c : Call V) : (a.call c).service = a.service.call c := rfl

theorem calls_service (a : Account V) (calls : List (Call V)) :
    (calls.foldl call a).service = calls.foldl CacheService.call a.service := by
  induction calls generalizing a with
  | nil => rfl
  | cons c rest ih => exact ih (a.call c)

theorem calls_eq (a : Account V) (calls : List (Call V)) :
    calls.foldl call a = ⟨calls.foldl CacheService.call a.service, (calls.foldl call a).unheard⟩ := by
  rw [← calls_service]

/-- A call that is no `reset` leaves what is unheard. -/
theorem calls_unheard {a : Account V} {key : String} (calls : List (Call V)) (unheard : a.unheard key = true)
    (version : (calls.foldl call a).service.resetVersion = a.service.resetVersion) :
    (calls.foldl call a).unheard key = true := by
  induction calls generalizing a with
  | nil => exact unheard
  | cons c rest ih =>
    have first := call_resetVersion a.service c
    obtain ⟨grows, -⟩ := calls_resetVersion (a.call c).service rest
    rw [List.foldl_cons, calls_service] at version
    rw [call_service] at grows version
    have still : (a.service.call c).resetVersion = a.service.resetVersion := by omega
    refine ih ?_ (by rw [calls_service, call_service, version, still])
    cases c with
    | remember | set | update => exact unheard
    | del key' =>
      change (_ || a.unheard key) = true
      rw [unheard, Bool.or_true]
    | reset =>
      rw [still] at first
      exact absurd first (by simp [Call.isReset])

/-- Two services whose operations have got equally far. -/
structure Alike (s t : CacheService V) : Prop where
  remembers : t.remembers = s.remembers
  version : t.resetVersion = s.resetVersion
  clock : t.clock = s.clock
  size : t.loads.size = s.loads.size
  loads : ∀ e, (t.loads.get e).key = (s.loads.get e).key ∧ (t.loads.get e).registeredIn = (s.loads.get e).registeredIn ∧
    (t.loads.get e).stage = (s.loads.get e).stage

theorem Alike.expects {s t : CacheService V} (h : Alike s t) (key : String) : t.Expects key ↔ s.Expects key := by
  simp only [Expects, Awaits, h.remembers, h.version, h.size, fun e => (h.loads e).1, fun e => (h.loads e).2.1,
    fun e => (h.loads e).2.2]

theorem Alike.call {s t : CacheService V} (h : Alike s t) (c : Call V) : Alike (s.call c) (t.call c) := by
  cases c with
  | remember key storable =>
    refine ⟨?_, h.version, h.clock, h.size, h.loads⟩
    change t.remembers.push ⟨key, t.resetVersion, storable, t.clock, .reading⟩ = _
    rw [h.remembers, h.version, h.clock]
    rfl
  | set | update => exact ⟨h.remembers, h.version, h.clock, h.size, h.loads⟩
  | reset => exact ⟨h.remembers, congrArg (· + 1) h.version, congrArg (· + 1) h.clock, h.size, h.loads⟩
  | del key =>
    obtain ⟨loads, pending, marks, aborted, eq, size, load⟩ := callDel_fields s key
    obtain ⟨loads', pending', marks', aborted', eq', size', load'⟩ := callDel_fields t key
    rw [CacheService.call, CacheService.call, eq, eq']
    refine ⟨h.remembers, h.version, congrArg (· + 1) h.clock, size'.trans (h.size.trans size.symm), fun e => ?_⟩
    dsimp only
    rw [load, load']
    exact h.loads e

theorem Alike.foldl {s t : CacheService V} (h : Alike s t) (calls : List (Call V)) :
    Alike (calls.foldl CacheService.call s) (calls.foldl CacheService.call t) := by
  induction calls generalizing s t with
  | nil => exact h
  | cons c rest ih => exact ih (h.call c)

/-- What is unheard after calls does not depend on what is in flight. -/
theorem Alike.calls {s t : CacheService V} (h : Alike s t) (unheard : String → Bool) (calls : List (Call V)) :
    (calls.foldl Account.call ⟨t, unheard⟩).unheard = (calls.foldl Account.call ⟨s, unheard⟩).unheard := by
  induction calls generalizing s t unheard with
  | nil => rfl
  | cons c rest ih =>
    have same : Account.call ⟨t, unheard⟩ c = ⟨t.call c, (Account.call ⟨s, unheard⟩ c).unheard⟩ := by
      cases c with
      | del key => simp only [Account.call, h.expects]
      | remember | set | reset | update => rfl
    rw [List.foldl_cons, List.foldl_cons, same]
    exact ih (h.call c) _

theorem alike_erase (s : CacheService V) (key : String) : Alike s { s with inflight := s.inflight.erase key } :=
  ⟨rfl, rfl, rfl, rfl, fun _ => ⟨rfl, rfl, rfl⟩⟩

/-! ## The marks -/

/-- The marks in the maps of the service, and those of the loads in flight, are
for calls of `del` that are unheard. -/
structure Noted (a : Account V) : Prop where
  pending : ∀ k g, a.service.pendingInvalidations.get k = some g → a.unheard k = true
  marked : ∀ k, a.service.invalidatedInflight.has k = true → a.unheard k = true
  flagged : ∀ k e, a.service.inflight.get k = some e → (a.service.loads.get e).generation = a.service.resetVersion →
    (a.service.loads.get e).invalidated = true → a.unheard k = true
  registered : ∀ k e, a.service.inflight.get k = some e →
    (a.service.loads.get e).registeredIn = a.service.resetVersion

variable {a : Account V}

theorem Noted.congr (h : Noted a) {t : CacheService V} (inflight : t.inflight = a.service.inflight)
    (pending : t.pendingInvalidations = a.service.pendingInvalidations)
    (marks : t.invalidatedInflight = a.service.invalidatedInflight) (version : t.resetVersion = a.service.resetVersion)
    (loads : ∀ e, (t.loads.get e).generation = (a.service.loads.get e).generation ∧
      (t.loads.get e).invalidated = (a.service.loads.get e).invalidated ∧
      (t.loads.get e).registeredIn = (a.service.loads.get e).registeredIn) : Noted ⟨t, a.unheard⟩ := by
  refine ⟨?_, ?_, fun k e => ?_, fun k e => ?_⟩
  · dsimp only
    rw [pending]
    exact h.pending
  · dsimp only
    rw [marks]
    exact h.marked
  · dsimp only
    rw [inflight, version, (loads e).1, (loads e).2.1]
    exact h.flagged k e
  · dsimp only
    rw [inflight, version, (loads e).2.2]
    exact h.registered k e

theorem Noted.same (h : Noted a) {t : CacheService V} (inflight : t.inflight = a.service.inflight)
    (pending : t.pendingInvalidations = a.service.pendingInvalidations)
    (marks : t.invalidatedInflight = a.service.invalidatedInflight) (version : t.resetVersion = a.service.resetVersion)
    (loads : t.loads = a.service.loads) : Noted ⟨t, a.unheard⟩ :=
  h.congr inflight pending marks version fun e => by rw [loads]; exact ⟨rfl, rfl, rfl⟩

/-- A `del` is unheard when it marks anything. -/
theorem Noted.callDel (h : Noted a) (coherent : Coherent a.service) (kept : Kept a.service) (key : String) :
    Noted (a.call (.del key)) := by
  have later {k : String} (unheard : a.unheard k = true) : (a.call (.del key)).unheard k = true := by
    change (_ || a.unheard k) = true
    rw [unheard, Bool.or_true]
  have now (expects : a.service.Expects key) : (a.call (.del key)).unheard key = true := by
    change (decide (key = key ∧ a.service.Expects key) || _) = true
    rw [decide_eq_true ⟨rfl, expects⟩, Bool.true_or]
  have flying {e : Nat} (found : a.service.inflight.get key = some e) : a.service.Expects key := by
    obtain ⟨own, live⟩ := coherent.registered key e found
    exact .inr ⟨e, coherent.allocated e live, own, h.registered key e found, live⟩
  have awaited (has : a.service.pendingLoads.has key = true) : a.service.Expects key := by
    refine .inl ?_
    by_contra none
    have pos := kept.pendingLoads_has has
    refine absurd (Heap.total_eq_zero fun i bound => if_neg fun both => none ⟨i, bound, both⟩) (Nat.ne_of_gt pos)
  obtain ⟨pendingMarks, marks⟩ := callDel_marks a.service key
  obtain ⟨loads, pending, marked, aborted, eq, -, load⟩ := callDel_fields a.service key
  have inflight : (a.service.callDel key).inflight = a.service.inflight := by rw [eq]
  have version : (a.service.callDel key).resetVersion = a.service.resetVersion := by rw [eq]
  have same (e : Nat) : (a.service.callDel key).loads.get e =
      { a.service.loads.get e with
        invalidated := (a.service.loads.get e).invalidated || decide (a.service.inflight.get key = some e) } := by
    rw [eq]
    exact load e
  refine ⟨fun k g found => ?_, fun k has => ?_, fun k e found current invalidated => ?_, fun k e found => ?_⟩
  · rcases pendingMarks k g found with old | ⟨-, rfl, has⟩
    · exact later (h.pending k g old)
    · exact now (awaited has)
  · rcases marks k has with old | ⟨rfl, ⟨e, found⟩ | has⟩
    · exact later (h.marked k old)
    · exact now (flying found)
    · exact now (awaited has)
  · change (a.service.callDel key).inflight.get k = some e at found
    change ((a.service.callDel key).loads.get e).generation = (a.service.callDel key).resetVersion at current
    change ((a.service.callDel key).loads.get e).invalidated = true at invalidated
    rw [inflight] at found
    rw [same, version] at current
    rw [same, Bool.or_eq_true_iff, decide_eq_true_eq] at invalidated
    rcases invalidated with old | own
    · exact later (h.flagged k e found current old)
    · have sameKey : k = key := (coherent.registered k e found).1.symm.trans (coherent.registered key e own).1
      rw [sameKey]
      exact now (flying own)
  · change (a.service.callDel key).inflight.get k = some e at found
    change ((a.service.callDel key).loads.get e).registeredIn = (a.service.callDel key).resetVersion
    rw [inflight] at found
    rw [same, version]
    exact h.registered k e found

theorem Noted.call (h : Noted a) (coherent : Coherent a.service) (kept : Kept a.service) (c : Call V) :
    Noted (a.call c) := by
  cases c with
  | remember | set | update => exact h.same rfl rfl rfl rfl rfl
  | del key => exact h.callDel coherent kept key
  | reset =>
    refine ⟨fun k g found => ?_, fun k has => ?_, fun k e found => ?_, fun k e found => ?_⟩
    · cases found
    · cases has
    · cases found
    · cases found

theorem Noted.calls (h : Noted a) (coherent : Coherent a.service) (kept : Kept a.service) (calls : List (Call V)) :
    Noted (calls.foldl Account.call a) := by
  induction calls generalizing a with
  | nil => exact h
  | cons c rest ih => exact ih (h.call coherent kept c) (call_coherent coherent c) (kept.call c)

/-! ## Loads -/

/-- The state in which the loader of a `remember` has returned or thrown. -/
theorem Noted.afterCalls (h : Noted a) (coherent : Coherent a.service) (kept : Kept a.service) {i : Nat}
    (opened : (a.service.remembers.get i).stage.isEnded = false)
    (version : (a.service.remembers.get i).version = a.service.resetVersion)
    (old : ∀ e, a.service.inflight.get (a.service.remembers.get i).key = some e →
      (a.service.loads.get e).generation ≠ a.service.resetVersion) (calls : List (Call V)) :
    Noted ⟨a.service.afterCalls i calls, (calls.foldl Account.call a).unheard⟩ := by
  let s : CacheService V := { a.service with inflight := a.service.inflight.erase (a.service.remembers.get i).key }
  have fewer {k : String} {e : Nat} (found : s.inflight.get k = some e) : a.service.inflight.get k = some e := by
    change (a.service.inflight.erase _).get k = some e at found
    rw [OrderedMap.get_erase] at found
    split at found
    · cases found
    · exact found
  have forgot : Noted ⟨s, a.unheard⟩ :=
    ⟨h.pending, h.marked, fun k e found => h.flagged k e (fewer found), fun k e found => h.registered k e (fewer found)⟩
  have coherent' : Coherent s := (Safe.forget (show Safe False a.service from ⟨coherent, False.elim, False.elim⟩) old).coherent
  have kept' : Kept s := kept.afterCalls (coherent.open_ i opened) opened version []
  have after := forgot.calls coherent' kept' calls
  rw [calls_eq, (alike_erase a.service _).calls a.unheard calls] at after
  exact after

/-- A load that is put in flight is marked only if a `del` was unheard when its
loader was called. -/
theorem Noted.addLoad (h : Noted a) (coherent : Coherent a.service) {i : Nat} (x : InflightLoad V)
    (current : x.registeredIn = a.service.resetVersion)
    (flagged : x.generation = a.service.resetVersion → x.invalidated = true → a.unheard x.key = true) :
    Noted ⟨{ a.service with
      loads := a.service.loads.push x
      inflight := a.service.inflight.set x.key a.service.loads.size }.setRemember i (.awaiting a.service.loads.size),
      a.unheard⟩ := by
  have new : (a.service.loads.push x).get a.service.loads.size = x := a.service.loads.get_push_self x
  have cases_get {k : String} {e : Nat} (found : (a.service.inflight.set x.key a.service.loads.size).get k = some e) :
      (k = x.key ∧ e = a.service.loads.size) ∨
        (a.service.inflight.get k = some e ∧ (a.service.loads.push x).get e = a.service.loads.get e) := by
    rw [OrderedMap.get_set] at found
    split at found
    · next same =>
      cases found
      exact .inl ⟨same, rfl⟩
    · exact .inr ⟨found, Heap.get_push_lt x (coherent.allocated e (coherent.registered k e found).2)⟩
  refine ⟨h.pending, h.marked, fun k e found generation invalidated => ?_, fun k e found => ?_⟩
  · change ((a.service.loads.push x).get e).generation = _ at generation
    change ((a.service.loads.push x).get e).invalidated = _ at invalidated
    rcases cases_get found with ⟨rfl, rfl⟩ | ⟨old, same⟩
    · rw [new] at generation invalidated
      exact flagged generation invalidated
    · rw [same] at generation invalidated
      exact h.flagged k e old generation invalidated
  · change ((a.service.loads.push x).get e).registeredIn = _
    rcases cases_get found with ⟨rfl, rfl⟩ | ⟨old, same⟩
    · rw [new]
      exact current
    · rw [same]
      exact h.registered k e old

theorem Noted.startLoad (h : Noted a) (coherent : Coherent a.service) (kept : Kept a.service) {i : Nat}
    (opened : (a.service.remembers.get i).stage.isEnded = false)
    (version : (a.service.remembers.get i).version = a.service.resetVersion)
    (old : ∀ e, a.service.inflight.get (a.service.remembers.get i).key = some e →
      (a.service.loads.get e).generation ≠ a.service.resetVersion) (calls : List (Call V)) (throws : Bool) :
    Noted ⟨a.service.startLoad i calls throws, (calls.foldl Account.call a).unheard⟩ := by
  have after := h.afterCalls coherent kept opened version old calls
  cases throws with
  | true => exact after.same rfl rfl rfl rfl rfl
  | false =>
    let s : CacheService V := { a.service with inflight := a.service.inflight.erase (a.service.remembers.get i).key }
    have forgot : Safe False s := Safe.forget (show Safe False a.service from ⟨coherent, False.elim, False.elim⟩) old
    have coherent' : Coherent (a.service.afterCalls i calls) := (forgot.calls calls).coherent
    let r := a.service.remembers.get i
    let x : InflightLoad V := ⟨r.key, r.version, decide (a.service.pendingInvalidations.get r.key = some r.version), r.storable,
      a.service.clock, .loading, none, false, (a.service.afterCalls i calls).resetVersion⟩
    refine after.addLoad coherent' x rfl fun current marked => ?_
    -- the mark that it met is for a `del` that is still unheard, unless the loader has called `reset`
    have before := h.pending r.key r.version (of_decide_eq_true marked)
    refine calls_unheard calls before ?_
    have same : (a.service.afterCalls i calls).resetVersion = a.service.resetVersion := current.symm.trans version
    rw [calls_service, ← ((alike_erase a.service r.key).foldl calls).version]
    exact same

theorem Noted.finishLoad (h : Noted a) (coherent : Coherent a.service) (kept : Kept a.service) {e : Nat}
    (live : a.service.Unfinished e) :
    Noted ⟨a.service.finishLoad e, if (a.service.loads.get e).generation = a.service.resetVersion then
      fun k => !decide (k = (a.service.loads.get e).key) && a.unheard k else a.unheard⟩ := by
  let x := a.service.loads.get e
  have registered (current : x.generation = a.service.resetVersion) : a.service.inflight.get x.key = some e :=
    coherent.current e live current
  have still {k : String} (unheard : a.unheard k = true) (other : k = x.key → x.generation ≠ a.service.resetVersion) :
      (if x.generation = a.service.resetVersion then fun k => !decide (k = x.key) && a.unheard k
        else a.unheard) k = true := by
    split
    · next current =>
      change (!decide (k = x.key) && a.unheard k) = true
      rw [unheard, Bool.and_true, decide_eq_false fun same => other same current]
      rfl
    · exact unheard
  have pending {k : String} {g : Nat} (found : (a.service.finishLoad e).pendingInvalidations.get k = some g) :
      a.service.pendingInvalidations.get k = some g ∧ (k = x.key → x.generation ≠ a.service.resetVersion) := by
    change (if a.service.pendingInvalidations.get x.key = some x.generation then
      a.service.pendingInvalidations.erase x.key else a.service.pendingInvalidations).get k = some g at found
    split at found
    · rw [OrderedMap.get_erase] at found
      split at found
      · cases found
      · next other => exact ⟨found, fun same => absurd same other⟩
    · next differs =>
      refine ⟨found, fun same current => differs ?_⟩
      rw [← same, found, current, (kept.pendingMark k g found).1]
  have inflight {k : String} {d : Nat} (found : (a.service.finishLoad e).inflight.get k = some d) :
      a.service.inflight.get k = some d ∧ (k = x.key → x.generation ≠ a.service.resetVersion) := by
    change (if decide (a.service.inflight.get x.key = some e) = true then a.service.inflight.erase x.key
      else a.service.inflight).get k = some d at found
    split at found
    · rw [OrderedMap.get_erase] at found
      split at found
      · cases found
      · next other => exact ⟨found, fun same => absurd same other⟩
    · next differs => exact ⟨found, fun _ current => differs (decide_eq_true (registered current))⟩
  have marked {k : String} (has : (a.service.finishLoad e).invalidatedInflight.has k = true) :
      a.service.invalidatedInflight.has k = true ∧ (k = x.key → x.generation ≠ a.service.resetVersion) := by
    change (if decide (a.service.inflight.get x.key = some e) = true then a.service.invalidatedInflight.erase x.key
      else a.service.invalidatedInflight).has k = true at has
    split at has
    · rw [OrderedMap.has, OrderedMap.get_erase] at has
      split at has
      · cases has
      · next other => exact ⟨has, fun same => absurd same other⟩
    · next differs => exact ⟨has, fun _ current => differs (decide_eq_true (registered current))⟩
  have proj {α : Type} (p : InflightLoad V → α) (free : ∀ y, p { y with stage := .finished } = p y) (d : Nat) :
      p ((a.service.finishLoad e).loads.get d) = p (a.service.loads.get d) :=
    a.service.loads.get_modify_proj e (fun y => { y with stage := .finished }) p (free x) d
  refine ⟨fun k g found => ?_, fun k has => ?_, fun k d found current invalidated => ?_, fun k d found => ?_⟩
  · obtain ⟨old, other⟩ := pending found
    exact still (h.pending k g old) other
  · obtain ⟨old, other⟩ := marked has
    exact still (h.marked k old) other
  · obtain ⟨old, other⟩ := inflight found
    refine still (h.flagged k d old ?_ ?_) other
    · exact (proj (·.generation) (fun _ => rfl) d).symm.trans current
    · exact (proj (·.invalidated) (fun _ => rfl) d).symm.trans invalidated
  · exact (proj (·.registeredIn) (fun _ => rfl) d).trans (h.registered k d (inflight found).1)

/-- A job of a load that leaves its key, its generation and its mark. -/
theorem Noted.modifyLoad (h : Noted a) {e : Nat} {t : CacheService V} (f : InflightLoad V → InflightLoad V)
    (loads : t.loads = a.service.loads.modify e f)
    (same : ∀ x, (f x).generation = x.generation ∧ (f x).invalidated = x.invalidated ∧ (f x).registeredIn = x.registeredIn)
    (inflight : t.inflight = a.service.inflight)
    (pending : t.pendingInvalidations = a.service.pendingInvalidations)
    (marks : t.invalidatedInflight = a.service.invalidatedInflight) (version : t.resetVersion = a.service.resetVersion) :
    Noted ⟨t, a.unheard⟩ := by
  refine h.congr inflight pending marks version fun d => ?_
  rw [loads]
  exact ⟨a.service.loads.get_modify_proj e f (·.generation) (same _).1 d,
    a.service.loads.get_modify_proj e f (·.invalidated) (same _).2.1 d,
    a.service.loads.get_modify_proj e f (·.registeredIn) (same _).2.2 d⟩

/-! ## Steps -/

theorem calls_size (s : CacheService V) (calls : List (Call V)) : (calls.foldl CacheService.call s).loads.size = s.loads.size := by
  induction calls generalizing s with
  | nil => rfl
  | cons c rest ih =>
    rw [List.foldl_cons, ih]
    cases c with
    | remember | set | reset | update => rfl
    | del key =>
      obtain ⟨loads, pending, marks, aborted, eq, size, -⟩ := callDel_fields s key
      rw [CacheService.call, eq]
      exact size

theorem miss_cases {s : CacheService V} {i : Nat} (reading : (s.remembers.get i).stage = .read none)
    (version : (s.remembers.get i).version = s.resetVersion) (calls : List (Call V)) (throws : Bool) :
    (s.startsLoad i = true ∧ s.miss i calls throws = s.startLoad i calls throws ∧
        ∀ e, s.inflight.get (s.remembers.get i).key = some e → (s.loads.get e).generation ≠ s.resetVersion) ∨
      ∃ e, s.inflight.get (s.remembers.get i).key = some e ∧ s.startsLoad i = false ∧
        s.miss i calls throws = s.setRemember i (.awaiting e) := by
  cases found : s.inflight.get (s.remembers.get i).key with
  | none => exact .inl ⟨by simp [startsLoad, reading, version, found], by simp [miss, version, found], nofun⟩
  | some e =>
    by_cases fresh : (s.loads.get e).generation = s.resetVersion
    · exact .inr ⟨e, rfl, by simp [startsLoad, version, found, fresh], by simp [miss, version, found, fresh]⟩
    · refine .inl ⟨by simp [startsLoad, reading, version, found, fresh], by simp [miss, version, found, fresh], fun d same => ?_⟩
      cases same
      exact fresh

theorem heard_calls {t : CacheService V} {i : Nat} {calls : List (Call V)} {throws : Bool}
    (reading : (a.service.remembers.get i).stage = .read none)
    (own : ∀ e, (t.remembers.get i).stage = .awaiting e → a.service.loads.size ≤ e) :
    a.heard t (.proceed i calls throws) = (calls.foldl call a).unheard := by
  refine if_pos ?_
  rw [callsLoader, reading]
  cases stage : (t.remembers.get i).stage with
  | awaiting e => exact decide_eq_true (own e stage)
  | reading | read | bypass | hit | missed | threw => rfl

theorem startLoad_awaits {s : CacheService V} {i e : Nat} {calls : List (Call V)} {throws : Bool}
    (waits : ((s.startLoad i calls throws).remembers.get i).stage = .awaiting e) : s.loads.size ≤ e := by
  rw [CacheService.startLoad] at waits
  cases throws with
  | true =>
    rw [if_pos rfl, endRemember, setRemember_self] at waits
    cases waits
  | false =>
    rw [if_neg Bool.false_ne_true, setRemember_self] at waits
    cases waits
    exact Nat.le_of_eq (calls_size { s with inflight := s.inflight.erase (s.remembers.get i).key } calls).symm

theorem miss_noted (h : Noted a) (coherent : Coherent a.service) (kept : Kept a.service) {i : Nat}
    (reading : (a.service.remembers.get i).stage = .read none) (calls : List (Call V)) (throws : Bool) :
    Noted ⟨a.service.miss i calls throws, a.heard (a.service.miss i calls throws) (.proceed i calls throws)⟩ := by
  by_cases version : (a.service.remembers.get i).version = a.service.resetVersion
  · rcases miss_cases reading version calls throws with ⟨-, eq, old⟩ | ⟨e, found, -, eq⟩
    · rw [eq, heard_calls reading fun e => startLoad_awaits]
      exact h.startLoad coherent kept (by rw [reading]; rfl) version old calls throws
    · -- it waits for the load in flight, and its own loader is not called
      have joins : a.heard (a.service.setRemember i (.awaiting e)) (.proceed i calls throws) = a.unheard := by
        have bound := coherent.allocated e (coherent.registered _ e found).2
        refine if_neg fun calls => ?_
        rw [callsLoader, reading, setRemember_self] at calls
        exact absurd (of_decide_eq_true calls) (Nat.not_le_of_lt bound)
      rw [eq, joins]
      exact h.same rfl rfl rfl rfl rfl
  · have bypasses : a.service.miss i calls throws = a.service.startBypass i calls throws := if_neg version
    have after := h.calls coherent kept calls
    rw [calls_eq] at after
    rw [bypasses, heard_calls reading fun e waits => ?_]
    · rw [startBypass]
      split
      · exact after.same rfl rfl rfl rfl rfl
      · exact after.same rfl rfl rfl rfl rfl
    · rw [startBypass] at waits
      split at waits
      · rw [endRemember, setRemember_self] at waits
        cases waits
      · rw [setRemember_self] at waits
        cases waits

theorem heard_hit {t : CacheService V} {i : Nat} {calls : List (Call V)} {throws : Bool} {value : V}
    (reading : (a.service.remembers.get i).stage = .read (some value)) :
    a.heard t (.proceed i calls throws) = a.unheard :=
  if_neg (by rw [callsLoader, reading]; exact Bool.false_ne_true)

theorem continueLoad_noted {t : CacheService V} {e : Nat} (h : Noted a) (coherent : Coherent a.service)
    (kept : Kept a.service) (ht : a.service.continueLoad e = some t) : Noted ⟨t, a.heard t (.loadContinues e)⟩ := by
  have goesOn {next : LoadStage} (running : next ≠ .finished) :
      a.heard (a.service.setLoad e next) (.loadContinues e) = a.unheard := by
    refine if_neg fun both => running ?_
    rw [stage, setLoad_self] at both
    exact both.1
  rw [CacheService.continueLoad] at ht
  split at ht
  · split at ht
    · cases ht
      rw [goesOn (by decide)]
      exact h.modifyLoad (fun x => { x with stage := .returning }) rfl (fun _ => ⟨rfl, rfl, rfl⟩) rfl rfl rfl rfl
    · cases ht
      rw [goesOn (by split <;> decide)]
      exact h.modifyLoad (fun x => { x with stage := if (a.service.loads.get e).storable then .writing else .written }) rfl (fun _ => ⟨rfl, rfl, rfl⟩) rfl rfl rfl rfl
  · cases ht
    rw [goesOn (by split <;> decide)]
    exact h.modifyLoad (fun x => { x with stage := if a.service.isStale e then .deleting else .returning }) rfl (fun _ => ⟨rfl, rfl, rfl⟩) rfl rfl rfl rfl
  · next returning =>
    cases ht
    have live : a.service.Unfinished e := by rw [Unfinished, stage, returning]; decide
    have past : (a.service.finishLoad e).stage e = .finished := by rw [stage, finishLoad_self]
    rw [heard]
    simp only [past, true_and]
    exact h.finishLoad coherent kept live
  · cases ht

theorem step_noted {t : CacheService V} {e : ServiceEvent V} (h : Noted a) (coherent : Coherent a.service)
    (kept : Kept a.service) (ht : a.service.step e = some t) : Noted ⟨t, a.heard t e⟩ := by
  cases e with
  | call c =>
    cases ht
    exact h.call coherent kept c
  | proceed i calls throws =>
    simp only [CacheService.step] at ht
    split at ht
    · next value reading =>
      cases ht
      rw [heard_hit reading]
      exact h.same rfl rfl rfl rfl rfl
    · next reading =>
      cases ht
      exact miss_noted h coherent kept reading calls throws
    · cases ht
  | rememberEnds i =>
    simp only [CacheService.step] at ht
    split at ht
    · cases ht
      exact h.same rfl rfl rfl rfl rfl
    · split at ht
      · cases ht
        exact h.same rfl rfl rfl rfl rfl
      · cases ht
    · cases ht
  | loaderSettles e result =>
    simp only [CacheService.step] at ht
    split at ht
    · cases ht
      exact h.modifyLoad (fun x => { x with stage := .loaded, result }) rfl (fun _ => ⟨rfl, rfl, rfl⟩) rfl rfl rfl rfl
    · cases ht
  | loadContinues e => exact continueLoad_noted h coherent kept ht
  | loadEffect e =>
    simp only [CacheService.step, effectOfLoad] at ht
    split at ht
    · cases ht
      exact h.modifyLoad (fun x => { x with wrote := true, stage := .written }) rfl (fun _ => ⟨rfl, rfl, rfl⟩) rfl rfl rfl rfl
    · cases ht
      exact h.modifyLoad (fun x => { x with stage := .returning }) rfl (fun _ => ⟨rfl, rfl, rfl⟩) rfl rfl rfl rfl
    · cases ht
  | expire key =>
    cases ht
    exact h.same rfl rfl rfl rfl rfl
  | read | writeEffect | writeEnds | commit | updateSettles =>
    simp only [CacheService.step] at ht
    split at ht
    · cases ht
      exact h.same rfl rfl rfl rfl rfl
    · cases ht

/-! ## Runs -/

/-- A `remember` that goes on from `a` to `b` leaves no unheard `del` of its key
behind it when it is the last one awaited, and meets none when it goes on to wait
for a load, but one that was called since it began. -/
def Timely (a b : Account V) (i : Nat) : Prop :=
  let r := a.service.remembers.get i
  ((b.service.remembers.get i).stage.isEnded = true → ¬ b.service.Awaits r.key → b.unheard r.key = false) ∧
    ((b.service.remembers.get i).stage.isAwaiting = true → a.unheard r.key = true →
      r.startedAt < a.service.invalidatedAt r.key)

instance (a b : Account V) (i : Nat) : Decidable (a.Timely b i) := inferInstanceAs (Decidable (_ ∧ _))

def InTime (a : Account V) (e : ServiceEvent V) : Prop :=
  match e, a.step e with
  | .proceed i _ _, some b | .rememberEnds i, some b => a.Timely b i
  | _, _ => True

instance (a : Account V) (e : ServiceEvent V) : Decidable (a.InTime e) := by
  unfold InTime
  split <;> infer_instance

theorem Noted.endsClean (h : Noted a) (kept : Kept a.service) {i : Nat} (stage : RememberStage V)
    (bound : i < a.service.remembers.size) (opened : (a.service.remembers.get i).stage.isEnded = false)
    (past : stage.isEnded = true)
    (heard : ¬ (a.service.endRemember i stage).Awaits (a.service.remembers.get i).key →
      a.unheard (a.service.remembers.get i).key = false) : a.service.EndsClean i := by
  rintro ⟨version, last⟩
  rw [version, kept.count] at last
  have total := setRemember_live stage bound opened (a.service.remembers.get i).key
  rw [if_pos ⟨rfl, version, past⟩] at total
  have none : ¬ (a.service.endRemember i stage).Awaits (a.service.remembers.get i).key := by
    rintro ⟨j, inBounds, own, current, open_⟩
    have pos : 0 < (a.service.setRemember i stage).live (a.service.remembers.get i).key := Heap.total_pos inBounds (by
      rw [pendingWeight, if_pos ⟨own, current, open_⟩]
      exact Nat.one_pos)
    omega
  have unheard := heard none
  refine ⟨Bool.eq_false_iff.mpr fun has => ?_, fun has => ?_⟩
  · obtain ⟨g, found⟩ := Option.isSome_iff_exists.mp has
    have marked := h.pending _ g found
    rw [unheard] at marked
    cases marked
  · have marked := h.marked _ has
    rw [unheard] at marked
    cases marked

/-- A load that turns a `remember` away is marked for a `del` that is unheard. -/
theorem Noted.turnedAway (h : Noted a) {i : Nat} (turned : a.service.turnedAway i = true)
    (current : (a.service.remembers.get i).version = a.service.resetVersion) :
    a.unheard (a.service.remembers.get i).key = true := by
  rw [CacheService.turnedAway] at turned
  split at turned
  · next e found =>
    split at turned
    · next same => exact h.flagged _ e found (same.trans current) turned
    · exact h.pending _ _ (of_decide_eq_true turned)
  · exact h.pending _ _ (of_decide_eq_true turned)

theorem proceeds_clean (noted : Noted a) (book : Book a.service) {i : Nat} {calls : List (Call V)} {throws : Bool}
    {t : CacheService V} (timely : a.Timely ⟨t, a.heard t (.proceed i calls throws)⟩ i)
    (ht : a.service.step (.proceed i calls throws) = some t) : a.service.ProceedsClean i calls throws := by
  cases reading : (a.service.remembers.get i).stage with
  | read cached =>
    have opened : (a.service.remembers.get i).stage.isEnded = false := by rw [reading]; rfl
    have bound : i < a.service.remembers.size := book.coherent.open_ i opened
    cases cached with
    | some value =>
      simp only [CacheService.step, reading] at ht
      cases ht
      rw [ProceedsClean, reading]
      refine noted.endsClean book.kept (.hit value) bound opened rfl fun last => ?_
      have heard := timely.1 (by rw [endRemember, setRemember_self]; rfl) last
      rwa [heard_hit reading] at heard
    | none =>
      simp only [CacheService.step, reading] at ht
      cases ht
      rw [ProceedsClean, reading]
      by_cases version : (a.service.remembers.get i).version = a.service.resetVersion
      · rcases miss_cases reading version calls throws with ⟨starts, eq, old⟩ | ⟨e, found, joins, eq⟩
        · rw [eq, heard_calls reading fun e => startLoad_awaits] at timely
          dsimp only
          split
          · next both =>
            -- the loader has thrown at once, and its own calls count
            obtain ⟨same, bound'⟩ := calls_remembers
              (s := { a.service with inflight := a.service.inflight.erase (a.service.remembers.get i).key }) bound calls
            have own : (a.service.afterCalls i calls).remembers.get i = a.service.remembers.get i := same
            have after := noted.afterCalls book.coherent book.kept opened version old calls
            have kept := book.kept.afterCalls bound opened version calls
            refine after.endsClean kept .threw bound' (by rw [own]; exact opened) rfl fun last => ?_
            rw [both.2] at timely
            rw [own] at last ⊢
            refine timely.1 ?_ last
            rw [CacheService.startLoad, if_pos rfl, endRemember, setRemember_self]
            rfl
          · next keeps =>
            intro turned
            have noThrow : throws = false := Bool.eq_false_iff.mpr fun throwing => keeps ⟨starts, throwing⟩
            rw [noThrow] at timely
            refine timely.2 ?_ (noted.turnedAway turned version)
            rw [CacheService.startLoad, if_neg Bool.false_ne_true, setRemember_self]
            rfl
        · rw [eq] at timely
          dsimp only
          rw [if_neg fun both => Bool.false_ne_true (joins.symm.trans both.1)]
          intro turned
          refine timely.2 ?_ (noted.turnedAway turned version)
          rw [setRemember_self]
          rfl
      · have bypasses : a.service.startsLoad i = false := by simp [startsLoad, version]
        dsimp only
        rw [if_neg fun both => Bool.false_ne_true (bypasses.symm.trans both.1)]
        exact fun _ => book.heeded.old i version _
  | reading | awaiting | bypass | hit | missed | threw =>
    rw [ProceedsClean, reading]
    trivial

/-- Where the calls are heard in time, no mark is left behind and no miss is
turned away by an older one. -/
theorem InTime.reclaims {e : ServiceEvent V} {b : Account V} (inTime : a.InTime e) (noted : Noted a) (book : Book a.service)
    (hb : a.step e = some b) : a.service.Reclaims e := by
  obtain ⟨t, ht, rfl⟩ := Option.map_eq_some_iff.mp hb
  cases e with
  | proceed i calls throws =>
    have timely : a.Timely ⟨t, a.heard t (.proceed i calls throws)⟩ i := by
      simp only [InTime, hb] at inTime
      exact inTime
    exact proceeds_clean noted book timely ht
  | rememberEnds i =>
    have timely : a.Timely ⟨t, a.unheard⟩ i := by
      simp only [InTime, hb] at inTime
      exact inTime
    have ends {outcome : RememberStage V} (stage : (a.service.remembers.get i).stage.isEnded = false)
        (past : outcome.isEnded = true) (same : t = a.service.endRemember i outcome) : a.service.EndsClean i := by
      subst same
      refine noted.endsClean book.kept outcome (book.coherent.open_ i stage) stage past fun last => ?_
      exact timely.1 (by rw [endRemember, setRemember_self]; exact past) last
    simp only [CacheService.step] at ht
    split at ht
    · next bypass =>
      cases ht
      exact ends (by rw [bypass]; rfl) rfl rfl
    · next e awaiting =>
      split at ht
      · cases ht
        exact ends (by rw [awaiting]; rfl) rfl rfl
      · cases ht
    · cases ht
  | call | read | loaderSettles | loadContinues | loadEffect | writeEffect | writeEnds | commit | updateSettles | expire =>
    trivial

theorem step_account {e : ServiceEvent V} {b : Account V} (inTime : a.InTime e) (h : Book a.service ∧ Noted a)
    (hb : a.step e = some b) : Book b.service ∧ Noted b := by
  have reclaims := inTime.reclaims h.2 h.1 hb
  obtain ⟨t, ht, rfl⟩ := Option.map_eq_some_iff.mp hb
  exact ⟨step_book reclaims h.1 ht, step_noted h.2 h.1.coherent h.1.kept ht⟩

theorem noted_initial : Noted (initial : Account V) := by
  refine ⟨fun k g found => ?_, fun k has => ?_, fun k e found => ?_, fun k e found => ?_⟩
  · cases found
  · cases has
  · cases found
  · cases found

theorem run_account {es : List (ServiceEvent V)} {t : CacheService V} (h : Run.run CacheService.step a.service es = some t) :
    ∃ b, Run.run step a es = some b ∧ b.service = t := by
  induction es generalizing a with
  | nil =>
    cases h
    exact ⟨a, rfl, rfl⟩
  | cons e rest ih =>
    obtain ⟨u, hu, h⟩ := Run.run_cons h
    obtain ⟨b, run, same⟩ := ih (a := ⟨u, a.heard u e⟩) h
    refine ⟨b, ?_, same⟩
    rw [Run.run, step, hu]
    exact run

end Account

namespace CacheService

/-- A `del` while the loader runs, then a miss that stores its value. -/
def reloadRun : List (ServiceEvent Nat) :=
  overtakenRun ++ [ServiceEvent.call (.remember "k" true), .read 1, .proceed 1 [] false, .loaderSettles 1 (some (some 8)),
    .loadContinues 1, .loadEffect 1, .loadContinues 1, .loadContinues 1, .rememberEnds 1]

/-- A `del` between the read and the end of a `remember` that hits: its marks
stay, and the next miss is turned away by them. -/
def strandedMarkRun : List (ServiceEvent Nat) :=
  [.call (.set "k" (some 7) true), .writeEffect 0, .writeEnds 0, .call (.remember "k" true), .read 0,
    .call (.del "k"), .proceed 0 [] false, .writeEffect 1, .writeEnds 1]

def turnedAwayRun : List (ServiceEvent Nat) :=
  strandedMarkRun ++ [ServiceEvent.call (.remember "k" true), .read 1, .proceed 1 [] false, .loaderSettles 0 (some (some 8)),
    .loadContinues 0, .loadContinues 0, .rememberEnds 1]

end CacheService

end Fluo.Cache
