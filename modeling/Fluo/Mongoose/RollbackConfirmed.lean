import Mathlib.Data.List.Nodup
import Mathlib.Tactic.ByContra
import Fluo.Mongoose.RollbackNotes
import Fluo.Persistence.ResultRollback

/-!
# A confirmed rollback is a rollback

In every run an attempt that confirms its rollback was rolled back, and a failure
that is recovered belongs to such an attempt.
-/

namespace Fluo.Mongoose.RollbackObserver

structure Requests (log : List Entry) (outstanding : List (RequestKey × String)) : Prop where
  known : ∀ i command, Outstanding log i command → (command.request, command.commandName) ∈ outstanding
  distinct : (outstanding.map Prod.fst).Nodup
  unique : ∀ i i' command command', Outstanding log i command → Outstanding log i' command' →
    command.request = command'.request → i = i'

structure Inv (s : System) : Prop where
  places : ∀ id scope, s.observer.scopes[id]? = some scope → Places s.log id scope
  books : ∀ id scope, s.observer.scopes[id]? = some scope → Books s.log id scope
  unopened : ∀ id, s.observer.scopes.length ≤ id →
    (∀ j : Nat, s.log[j]? ≠ some (.closed id)) ∧ ∀ (j : Nat) index session, s.log[j]? ≠ some (.began id index session)
  requests : Requests s.log s.outstanding

section

variable {s t : System} {log : List Entry} {outstanding : List (RequestKey × String)} {e : Entry}

theorem Requests.quiet (h : Requests log outstanding) (other : ∀ command, e ≠ .started command)
    (quiet : ∀ request any, e ≠ .completed request any) : Requests (log ++ [e]) outstanding := by
  have old {i : Nat} {command : Command} (open' : Outstanding (log ++ [e]) i command) : Outstanding log i command := by
    rcases log_cases open'.here with ⟨bound, _⟩ | ⟨_, last⟩
    · exact (outstanding_append quiet bound).mp open'
    · exact absurd last (other command)
  exact ⟨fun i command open' => h.known i command (old open'), h.distinct,
    fun i i' command command' open' open'' => h.unique i i' command command' (old open') (old open'')⟩

theorem Requests.started {command : Command} (h : Requests log outstanding)
    (fresh : command.request ∉ outstanding.map Prod.fst) :
    Requests (log ++ [Entry.started command]) ((command.request, command.commandName) :: outstanding) := by
  have quiet : ∀ request any, Entry.started command ≠ .completed request any := nofun
  have cases {i : Nat} {c : Command} (open' : Outstanding (log ++ [Entry.started command]) i c) :
      (Outstanding log i c ∧ c.request ≠ command.request) ∨ i = log.length ∧ c = command := by
    rcases log_cases open'.here with ⟨bound, _⟩ | ⟨rfl, last⟩
    · have old := (outstanding_append quiet bound).mp open'
      refine .inl ⟨old, fun same => fresh ?_⟩
      exact same ▸ List.mem_map_of_mem (h.known i c old)
    · cases last
      exact .inr ⟨rfl, rfl⟩
  refine ⟨fun i c open' => ?_, List.nodup_cons.mpr ⟨fresh, h.distinct⟩, fun i i' c c' open' open'' same => ?_⟩
  · rcases cases open' with ⟨old, _⟩ | ⟨_, rfl⟩
    · exact List.mem_cons_of_mem _ (h.known i c old)
    · exact List.mem_cons_self
  · rcases cases open' with ⟨old, differ⟩ | ⟨rfl, rfl⟩ <;> rcases cases open'' with ⟨old', differ'⟩ | ⟨rfl, rfl⟩
    · exact h.unique i i' c c' old old' same
    · exact absurd same differ
    · exact absurd same.symm differ'
    · rfl

theorem Requests.completed {request : RequestKey} {acknowledged : Bool} (h : Requests log outstanding) :
    Requests (log ++ [Entry.completed request acknowledged]) (outstanding.filter (·.1 ≠ request)) := by
  have old {i : Nat} {c : Command} (open' : Outstanding (log ++ [Entry.completed request acknowledged]) i c) :
      Outstanding log i c ∧ c.request ≠ request := by
    rcases log_cases open'.here with ⟨bound, _⟩ | ⟨_, last⟩
    · exact (outstanding_last bound).mp open'
    · cases last
  refine ⟨fun i c open' => ?_, ?_, fun i i' c c' open' open'' => h.unique i i' c c' (old open').1 (old open'').1⟩
  · exact List.mem_filter.mpr ⟨h.known i c (old open').1, by simpa using (old open').2⟩
  · exact h.distinct.sublist (List.filter_sublist.map Prod.fst)

/-- An entry about a scope that has been opened leaves the others unopened. -/
theorem Inv.unopened_append (h : Inv s) {length : Nat} (longer : s.observer.scopes.length ≤ length)
    (closed : ∀ id, e = .closed id → id < length) (began : ∀ id index session, e = .began id index session → id < length) :
    ∀ id, length ≤ id → (∀ j : Nat, (s.log ++ [e])[j]? ≠ some (.closed id)) ∧
      ∀ (j : Nat) index session, (s.log ++ [e])[j]? ≠ some (.began id index session) := by
  intro id beyond
  obtain ⟨noClosed, noBegan⟩ := h.unopened id (Nat.le_trans longer beyond)
  refine ⟨fun j here => ?_, fun j index session here => ?_⟩
  · rcases log_cases here with ⟨_, here⟩ | ⟨_, last⟩
    · exact noClosed j here
    · exact absurd (closed id last) (Nat.not_lt.mpr beyond)
  · rcases log_cases here with ⟨_, here⟩ | ⟨_, last⟩
    · exact noBegan j index session here
    · exact absurd (began id index session last) (Nat.not_lt.mpr beyond)

theorem scopes_set {scopes : List Scope} {index id : Nat} {scope new found : Scope} (here : scopes[index]? = some scope)
    (h : (scopes.set index new)[id]? = some found) : id = index ∧ found = new ∨ id ≠ index ∧ scopes[id]? = some found := by
  by_cases same : index = id
  · subst same
    rw [List.getElem?_set_self (List.getElem?_eq_some_iff.mp here).1] at h
    exact .inl ⟨rfl, (Option.some.inj h).symm⟩
  · rw [List.getElem?_set_ne same] at h
    exact .inr ⟨Ne.symm same, h⟩

theorem Observer.dispatch_cases {observer : Observer} {f : Scope → Scope} {id : Nat} {found : Scope}
    (h : (observer.dispatch f).scopes[id]? = some found) : ∃ scope, observer.scopes[id]? = some scope ∧
      (scope.running = true ∧ found = f scope ∨ scope.running = false ∧ found = scope) := by
  simp only [dispatch, List.getElem?_map, Option.map_eq_some_iff] at h
  obtain ⟨scope, here, rfl⟩ := h
  refine ⟨scope, here, ?_⟩
  cases running : scope.running with
  | true => exact .inl ⟨rfl, rfl⟩
  | false => exact .inr ⟨rfl, rfl⟩

theorem Scope.started_places (scope : Scope) (command : Command) : (scope.started command).running = scope.running ∧
    (scope.started command).attempts.length = scope.attempts.length ∧ (scope.started command).current = scope.current := by
  rcases scope.started_cases command with ⟨_, _, _, _, _, _, _, _, eq⟩ | ⟨eq, _⟩ <;> rw [eq] <;> simp

theorem Scope.completed_places (scope : Scope) (request : RequestKey) (commandName : String) (completion : Completion) :
    (scope.completed request commandName completion).running = scope.running ∧
    (scope.completed request commandName completion).attempts.length = scope.attempts.length ∧
    (scope.completed request commandName completion).current = scope.current := by
  unfold completed
  split
  · split <;> simp
  · simp

theorem Places.congr {id : Nat} {scope scope' : Scope} (h : Places log id scope)
    (same : scope'.running = scope.running ∧ scope'.attempts.length = scope.attempts.length ∧
      scope'.current = scope.current) : Places log id scope' := by
  obtain ⟨running, length, current⟩ := same
  exact ⟨by rw [running]; exact h.running, by rw [length]; exact h.known, by rw [running, current]; exact h.current⟩

theorem Inv.run (h : Inv s) (ht : step s .run = some t) : Inv t := by
  cases ht
  obtain ⟨noClosed, noBegan⟩ := h.unopened _ (Nat.le_refl _)
  have opened {id : Nat} {scope : Scope} (here : s.observer.run.scopes[id]? = some scope) :
      s.observer.scopes[id]? = some scope ∨ id = s.observer.scopes.length ∧ scope = .initial := by
    simp only [Observer.run] at here
    rcases Nat.lt_or_ge id s.observer.scopes.length with bound | bound
    · exact .inl ((List.getElem?_append_left bound).symm.trans here)
    · rw [List.getElem?_append_right bound, List.getElem?_singleton] at here
      split at here
      · cases here
        exact .inr ⟨by omega, rfl⟩
      · cases here
  have none {index i : Nat} {c : Command} (within : Within s.log s.observer.scopes.length index i c) : False := by
    obtain ⟨b, session, here, _⟩ := within.began
    exact noBegan b index session here
  refine ⟨fun id scope here => ?_, fun id scope here => ?_, fun id beyond => ?_, h.requests⟩
  · rcases opened here with old | ⟨rfl, rfl⟩
    · exact h.places id scope old
    · refine ⟨iff_of_true rfl noClosed, fun b index session began => absurd began (noBegan b index session), ?_⟩
      exact fun _ session index => ⟨nofun, fun ⟨b, began, _⟩ => absurd began (noBegan b index session)⟩
  · rcases opened here with old | ⟨rfl, rfl⟩
    · exact h.books id scope old
    · refine ⟨nofun, nofun, fun _ request index name => ⟨nofun, fun ⟨i, c, belongs, _⟩ => ?_⟩, nofun⟩
      exact (none belongs.within).elim
  · refine h.unopened id (Nat.le_trans (Nat.le_succ _) ?_)
    simpa [Observer.run] using beyond

theorem Inv.finish {index : Nat} (h : Inv s) (ht : step s (.finish index) = some t) : Inv t := by
  simp only [step] at ht
  split at ht
  next scope here =>
    split at ht <;> cases ht
    next running =>
      refine ⟨fun id found this => ?_, fun id found this => ?_, ?_, h.requests.quiet nofun nofun⟩
      · rcases scopes_set here this with ⟨rfl, rfl⟩ | ⟨other, this⟩
        · exact (h.places id scope here).finish
        · refine (h.places id found this).append (fun last => other ?_) nofun
          cases last
          rfl
      · rcases scopes_set here this with ⟨rfl, rfl⟩ | ⟨other, this⟩
        · exact (h.books id scope here).finish running
        · exact (h.books id found this).frame (same_quiet nofun nofun)
      · have bound := (List.getElem?_eq_some_iff.mp here).1
        refine h.unopened_append (by simp [Observer.finish]) (fun id last => ?_) nofun
        cases last
        simpa [Observer.finish] using bound
  next => cases ht

theorem Inv.beginAttempt {scope : Option Nat} {session : Option String} {ownClient : Bool} (h : Inv s) (ht : step s (.beginAttempt scope session ownClient) = some t) : Inv t := by
  cases scope <;> cases session <;> cases ownClient <;> (try (cases ht; exact h))
  next index session =>
  simp only [step] at ht
  split at ht
  next scope here =>
    split at ht <;> cases ht
    next observer began =>
      simp only [Observer.beginAttempt, here, Option.ite_none_right_eq_some, Option.some.injEq] at began
      obtain ⟨_, rfl⟩ := began
      refine ⟨fun id found this => ?_, fun id found this => ?_, ?_, h.requests.quiet nofun nofun⟩
      · rcases scopes_set here this with ⟨rfl, rfl⟩ | ⟨other, this⟩
        · exact (h.places id scope here).begin session
        · refine (h.places id found this).append nofun fun _ _ last => other ?_
          cases last
          rfl
      · rcases scopes_set here this with ⟨rfl, rfl⟩ | ⟨other, this⟩
        · exact (h.books id scope here).begin (h.places id scope here) session
        · exact (h.books id found this).frame (same_quiet nofun nofun)
      · have bound := (List.getElem?_eq_some_iff.mp here).1
        refine h.unopened_append (by simp) nofun fun id _ _ last => ?_
        cases last
        simpa using bound
    next => exact h
  next => cases ht

theorem Inv.started {command : Command} (h : Inv s) (ht : step s (.started command) = some t) : Inv t := by
  simp only [step] at ht
  split at ht
  next => cases ht
  next fresh =>
    cases ht
    refine ⟨fun id found this => ?_, fun id found this => ?_, ?_, h.requests.started fresh⟩
    · obtain ⟨scope, here, ⟨running, rfl⟩ | ⟨_, rfl⟩⟩ := Observer.dispatch_cases this
      · exact ((h.places id scope here).append (e := .started command) nofun nofun).congr (scope.started_places command)
      · exact (h.places id found here).append nofun nofun
    · obtain ⟨scope, here, ⟨running, rfl⟩ | ⟨stopped, rfl⟩⟩ := Observer.dispatch_cases this
      · refine (h.books id scope here).started (h.places id scope here) running fun i c open' same => fresh ?_
        exact same ▸ List.mem_map_of_mem (h.requests.known i c open')
      · have closed : ∃ j : Nat, s.log[j]? = some (.closed id) := by
          by_contra none
          have running := (h.places id found here).running.mpr fun j closed => none ⟨j, closed⟩
          rw [stopped] at running
          cases running
        obtain ⟨j, closed⟩ := closed
        exact (h.books id found here).frame (same_closed closed)
    · exact h.unopened_append (by simp [Observer.dispatch]) nofun nofun

theorem Inv.completed {request : RequestKey} {completion : Completion} (h : Inv s) (ht : step s (.completed request completion) = some t) : Inv t := by
  simp only [step] at ht
  split at ht
  next commandName here =>
    cases ht
    refine ⟨fun id found this => ?_, fun id found this => ?_, ?_, h.requests.completed⟩
    · obtain ⟨scope, here, ⟨running, rfl⟩ | ⟨_, rfl⟩⟩ := Observer.dispatch_cases this
      · refine Places.congr ?_ (scope.completed_places request commandName completion)
        exact (h.places id scope here).append (e := .completed request completion.acknowledged) nofun nofun
      · exact (h.places id found here).append nofun nofun
    · obtain ⟨scope, here', ⟨running, rfl⟩ | ⟨stopped, rfl⟩⟩ := Observer.dispatch_cases this
      · refine (h.books id scope here').completed running h.requests.unique fun i c open' same => ?_
        have known := h.requests.known i c open'
        have found := List.mem_of_find?_eq_some here
        have key := List.find?_some here
        simp only [decide_eq_true_eq] at key
        have pairs := List.inj_on_of_nodup_map h.requests.distinct known found (same.trans key.symm)
        exact congrArg Prod.snd pairs
      · exact (h.books id found here').late stopped
    · exact h.unopened_append (by simp [Observer.dispatch]) nofun nofun
  next => cases ht

theorem step_inv {event : Event} (h : Inv s) (ht : step s event = some t) : Inv t := by
  cases event with
  | run => exact h.run ht
  | finish index => exact h.finish ht
  | beginAttempt scope session ownClient => exact h.beginAttempt ht
  | started command => exact h.started ht
  | completed request completion => exact h.completed ht

theorem run_inv {es : List Event} (run : Run.run step initial es = some s) : Inv s := by
  have empty : Inv initial := by
    refine ⟨nofun, nofun, fun _ _ => ⟨nofun, nofun⟩, ⟨fun i c open' => ?_, List.nodup_nil, fun i _ c _ open' => ?_⟩⟩
    · cases open'.here
    · cases open'.here
  exact Run.keeps (fun _ _ _ => step_inv) empty run

/-- An attempt that confirms its rollback has noted no commit, nothing pending and
an acknowledged abort. -/
theorem Books.rolledBack {id index : Nat} {scope : Scope} {attempt : Attempt} (h : Books log id scope)
    (here : scope.attempts[index]? = some attempt) (confirmed : attempt.confirmRollback = .ok true) :
    RolledBack log id index := by
  have noted : attempt.pending = [] ∧ attempt.abortSucceeded = true ∧ attempt.committed = false := by
    unfold Attempt.confirmRollback at confirmed
    split at confirmed
    next => cases confirmed
    next =>
      split at confirmed
      next => cases confirmed
      next all =>
        simp only [not_or, ne_eq, not_not, Bool.not_eq_false, Bool.not_eq_true] at all
        exact all.2
  obtain ⟨nothing, succeeded, uncommitted⟩ := noted
  have past (i : Nat) (c : Command) (belongs : Belongs log id index i c) : ∃ j acknowledged,
      Completes log i c.request j acknowledged ∧
        (c.commandName = "commitTransaction" → acknowledged = true → attempt.committed = true) := by
    refine (h.settled index attempt here i c belongs).resolve_right fun ⟨mem, _⟩ => ?_
    rw [nothing] at mem
    cases mem
  refine ⟨fun i c belongs => ?_, fun i c j belongs commit completes => ?_, ?_⟩
  · obtain ⟨j, acknowledged, completes, _⟩ := past i c belongs
    exact ⟨j, acknowledged, completes⟩
  · obtain ⟨j', acknowledged, completes', commits⟩ := past i c belongs
    have yes : attempt.committed = true := by
      rcases Nat.lt_trichotomy j j' with lt | rfl | lt
      · exact absurd completes.here (completes'.first j completes.after lt _)
      · cases completes.here.symm.trans completes'.here
        exact commits commit rfl
      · exact absurd completes'.here (completes.first j' completes'.after lt _)
    rw [uncommitted] at yes
    cases yes
  · obtain ⟨i, c, j, belongs, abort, completes, newest⟩ := h.aborted index attempt here succeeded
    refine ⟨i, c, j, belongs, abort, completes, fun i' c' j' acknowledged belongs' abort' completes' => ?_⟩
    refine (newest i' c' j' acknowledged belongs' abort' completes').resolve_right fun ⟨_, mem⟩ => ?_
    rw [nothing] at mem
    cases mem

/-- A rollback is confirmed only if the attempt was rolled back, and a failure is
recovered only if its root's policy rejected it and the rollback was confirmed. -/
theorem rollback_confirmed {α : Type} {es : List Event} {s : System} (run : Run.run step initial es = some s)
    (scope attempt : Nat) :
    (s.observer.confirmRollback scope attempt = some (.ok true) → RolledBack s.log scope attempt) ∧
    ∀ (shouldRollback : Option (α → Bool)) (before evaluations : List (Persistence.Evaluation α)) (error : Nat) (value : α)
      (observed : Bool),
      (Persistence.ResultBoundary.evaluateAll shouldRollback before).recover
          (Persistence.ResultBoundary.evaluateAll shouldRollback evaluations) error
          (if observed then s.observer.confirmRollback scope attempt else none) = .ok value →
        (∃ error, .root value error ∈ evaluations) ∧ shouldRollback.any (· value) = true ∧
          RolledBack s.log scope attempt := by
  have confirms (confirmed : s.observer.confirmRollback scope attempt = some (.ok true)) : RolledBack s.log scope attempt := by
    obtain ⟨found, bound, confirmed⟩ := Option.map_eq_some_iff.mp confirmed
    obtain ⟨inScope, here, here'⟩ := Option.bind_eq_some_iff.mp bound
    exact ((run_inv run).books scope inScope here).rolledBack here' confirmed
  refine ⟨confirms, fun shouldRollback before evaluations error value observed recovered => ?_⟩
  obtain ⟨⟨evaluated, rejected⟩, confirmed⟩ := Persistence.ResultBoundary.recover_ok recovered
  refine ⟨evaluated, rejected, confirms ?_⟩
  cases observed with
  | false => cases confirmed
  | true => exact confirmed

end

/-- A command of session `a` and transaction `1` on one connection. -/
def command (requestId : Nat) (commandName : String) (startTransaction : Bool) : Command :=
  ⟨some "a", ⟨"1", none, requestId⟩, commandName, some "1", some false, startTransaction⟩

/-- The command starts and the server acknowledges it. -/
def acknowledge (command : Command) : List Event :=
  [.started command, .completed command.request ⟨true, some ⟨1, false⟩, none⟩]

theorem rollback_confirmed_once :
    ∃ s, Run.run step initial ([Event.run, .beginAttempt (some 0) (some "a") true] ++ acknowledge (command 1 "insert" true) ++
        acknowledge (command 2 "abortTransaction" false)) = some s ∧ RolledBack s.log 0 0 := by
  have run : Run.run step initial ([Event.run, .beginAttempt (some 0) (some "a") true] ++
      acknowledge (command 1 "insert" true) ++ acknowledge (command 2 "abortTransaction" false)) = some _ := rfl
  exact ⟨_, run, (rollback_confirmed (α := Unit) run 0 0).1 rfl⟩

/-- A command of the session and of a transaction number that has started in the
scope behind `beginAttempt`, whatever was started or begun in between. -/
def Behind (log : List Entry) (scope attempt : Nat) (number : String) (i : Nat) (command : Command) : Prop :=
  log[i]? = some (.started command) ∧ command.autocommit = some false ∧ command.txnNumber = some number ∧
    (∀ j < i, log[j]? ≠ some (.closed scope)) ∧
    ∃ b session, log[b]? = some (.began scope attempt session) ∧ b < i ∧ command.session = some session

/-- A commit that is acknowledged before the command that starts the transaction,
or behind a newer attempt of the session, is not noted. -/
theorem commit_unnoticed :
    (∃ s, Run.run step initial ([Event.run, .beginAttempt (some 0) (some "a") true] ++
        acknowledge (command 1 "commitTransaction" false) ++ acknowledge (command 2 "insert" true) ++
        acknowledge (command 3 "abortTransaction" false)) = some s ∧
      s.observer.confirmRollback 0 0 = some (.ok true) ∧
      Behind s.log 0 0 "1" 1 (command 1 "commitTransaction" false) ∧
      Completes s.log 1 (command 1 "commitTransaction" false).request 2 true) ∧
    ∃ s, Run.run step initial ([Event.run, .beginAttempt (some 0) (some "a") true] ++ acknowledge (command 1 "insert" true) ++
        acknowledge (command 2 "abortTransaction" false) ++ [Event.beginAttempt (some 0) (some "a") true] ++
        acknowledge (command 3 "commitTransaction" false)) = some s ∧
      s.observer.confirmRollback 0 0 = some (.ok true) ∧
      Behind s.log 0 0 "1" 6 (command 3 "commitTransaction" false) ∧
      Completes s.log 6 (command 3 "commitTransaction" false).request 7 true := by
  refine ⟨⟨_, rfl, rfl, ⟨rfl, rfl, rfl, ?_, 0, "a", rfl, by decide, rfl⟩, by decide, rfl, by omega⟩,
    ⟨_, rfl, rfl, ⟨rfl, rfl, rfl, ?_, 0, "a", rfl, by decide, rfl⟩, by decide, rfl, by omega⟩⟩
  · decide
  · decide

end Fluo.Mongoose.RollbackObserver
