import Mathlib.Data.List.Nodup
import Fluo.Mongoose.RollbackEvidence

/-!
# What a scope notes

The notes of a scope agree with the log: while it runs they say all that the log
says of its attempts, afterwards what was not over stays pending.
-/

namespace Fluo.Mongoose.RollbackObserver

/-- Which attempts a scope has and which of them are current. -/
structure Places (log : List Entry) (id : Nat) (scope : Scope) : Prop where
  running : scope.running = true ↔ ∀ j : Nat, log[j]? ≠ some (.closed id)
  known : ∀ (b index : Nat) session, log[b]? = some (.began id index session) → index < scope.attempts.length
  current : scope.running = true → ∀ session index, scope.current session = some index ↔
    ∃ b : Nat, log[b]? = some (.began id index session) ∧ ∀ j, b < j → ∀ other, log[j]? ≠ some (.began id other session)

/-- What a scope has noted of the commands of its attempts. While it runs it has
noted all that is in the log; afterwards a request that was not over stays pending. -/
structure Books (log : List Entry) (id : Nat) (scope : Scope) : Prop where
  number : ∀ index attempt, scope.attempts[index]? = some attempt → ∀ number,
    attempt.transactionNumber = some number ↔ ∃ first, Starts log id index first number
  settled : ∀ index attempt, scope.attempts[index]? = some attempt → ∀ i command, Belongs log id index i command →
    (∃ j acknowledged, Completes log i command.request j acknowledged ∧
      (command.commandName = "commitTransaction" → acknowledged = true → attempt.committed = true)) ∨
    command.request ∈ attempt.pending ∧ (scope.running = true → Outstanding log i command)
  requests : scope.running = true → ∀ request index commandName, scope.requests request = some ⟨index, commandName⟩ ↔
    ∃ i command, Belongs log id index i command ∧ Outstanding log i command ∧ command.request = request ∧
      command.commandName = commandName
  aborted : ∀ index attempt, scope.attempts[index]? = some attempt → attempt.abortSucceeded = true →
    ∃ i command j, Belongs log id index i command ∧ command.commandName = "abortTransaction" ∧
      Completes log i command.request j true ∧
      ∀ i' command' j' acknowledged, Belongs log id index i' command' → command'.commandName = "abortTransaction" →
        Completes log i' command'.request j' acknowledged →
          j' ≤ j ∨ scope.running = false ∧ command'.request ∈ attempt.pending

/-- Two logs say the same of the attempts of a scope. -/
structure Same (log log' : List Entry) (id : Nat) : Prop where
  starts : ∀ index first number, Starts log' id index first number ↔ Starts log id index first number
  belongs : ∀ index i command, Belongs log' id index i command ↔ Belongs log id index i command
  completes : ∀ index i command j acknowledged, Belongs log id index i command →
    (Completes log' i command.request j acknowledged ↔ Completes log i command.request j acknowledged)
  outstanding : ∀ index i command, Belongs log id index i command → (Outstanding log' i command ↔ Outstanding log i command)

section

variable {log log' : List Entry} {id index i : Nat} {scope : Scope} {e : Entry} {command : Command}

theorem Belongs.lt (h : Belongs log id index i command) : i < log.length := h.within.lt

theorem Outstanding.lt (h : Outstanding log i command) : i < log.length := (List.getElem?_eq_some_iff.mp h.here).1

theorem Books.frame (same : Same log log' id) (h : Books log id scope) : Books log' id scope where
  number index attempt here number := by
    simp only [same.starts]
    exact h.number index attempt here number
  settled index attempt here i command belongs := by
    rw [same.belongs] at belongs
    simp only [same.completes _ _ _ _ _ belongs, same.outstanding _ _ _ belongs]
    exact h.settled index attempt here i command belongs
  requests running request index commandName := by
    rw [h.requests running]
    refine exists_congr fun i => exists_congr fun command => ?_
    rw [same.belongs]
    refine and_congr_right fun belongs => ?_
    rw [same.outstanding _ _ _ belongs]
  aborted index attempt here succeeded := by
    obtain ⟨i, command, j, belongs, abort, completes, last⟩ := h.aborted index attempt here succeeded
    refine ⟨i, command, j, (same.belongs _ _ _).mpr belongs, abort, (same.completes _ _ _ _ _ belongs).mpr completes, ?_⟩
    intro i' command' j' acknowledged belongs' abort' completes'
    rw [same.belongs] at belongs'
    exact last i' command' j' acknowledged belongs' abort' ((same.completes _ _ _ _ _ belongs').mp completes')

/-- An entry that completes nothing leaves what is over as it is. -/
theorem completes_append (quiet : ∀ request any, e ≠ .completed request any) {j : Nat} {request : RequestKey}
    {acknowledged : Bool} : Completes (log ++ [e]) i request j acknowledged ↔ Completes log i request j acknowledged := by
  refine ⟨fun h => ?_, .append⟩
  rcases completes_cases h with old | ⟨_, last, _⟩
  · exact old
  · exact absurd last (quiet _ _)

theorem outstanding_append (quiet : ∀ request any, e ≠ .completed request any) (bound : i < log.length) :
    Outstanding (log ++ [e]) i command ↔ Outstanding log i command :=
  ⟨(·.of_append bound), (·.append (quiet command.request))⟩

/-- An entry that starts nothing of a scope, and completes nothing. -/
theorem same_append (quiet : ∀ request any, e ≠ .completed request any)
    (none : ∀ index command, e = .started command → ¬Belongs (log ++ [e]) id index log.length command)
    (first : ∀ index number, ¬Starts (log ++ [e]) id index log.length number) : Same log (log ++ [e]) id where
  starts index i number := by
    refine ⟨fun h => ?_, fun h => (starts_append h.lt).mpr h⟩
    rcases starts_cases h with old | ⟨rfl, _⟩
    · exact old
    · exact absurd h (first index number)
  belongs index i command := by
    refine ⟨fun h => ?_, fun h => (belongs_append h.lt).mpr h⟩
    rcases belongs_cases h with old | ⟨rfl, last⟩
    · exact old
    · exact absurd h (none index command last)
  completes _ _ _ _ _ _ := completes_append quiet
  outstanding _ _ _ belongs := outstanding_append quiet belongs.lt

theorem same_quiet (quiet : ∀ request any, e ≠ .completed request any) (other : ∀ command, e ≠ .started command) :
    Same log (log ++ [e]) id := by
  refine same_append quiet (fun index command last => absurd last (other command)) fun index number h => ?_
  obtain ⟨command, within, _⟩ := h.starts
  exact other command (Option.some.inj (log_last.symm.trans within.here))

/-- A command that starts in a closed scope is in no attempt of it. -/
theorem same_closed {j : Nat} (closed : log[j]? = some (.closed id)) : Same log (log ++ [Entry.started command]) id := by
  have bound := (List.getElem?_eq_some_iff.mp closed).1
  have outside (index : Nat) (command' : Command) :
      ¬Within (log ++ [Entry.started command]) id index log.length command' :=
    fun within => within.unclosed j bound (log_mono closed)
  refine same_append nofun (fun index command' _ h => outside index command' h.within) fun index number h => ?_
  obtain ⟨command', within, _⟩ := h.starts
  exact outside index command' within

theorem Places.append (h : Places log id scope) (closed : e ≠ .closed id) (began : ∀ index session, e ≠ .began id index session) :
    Places (log ++ [e]) id scope where
  running := by
    rw [h.running]
    refine ⟨fun open' j here => ?_, fun open' j here => open' j (log_mono here)⟩
    rcases log_cases here with ⟨_, here⟩ | ⟨_, last⟩
    · exact open' j here
    · exact closed last
  known b index session here := by
    rcases log_cases here with ⟨_, here⟩ | ⟨_, last⟩
    · exact h.known b index session here
    · exact absurd last (began _ _)
  current running session index := by
    rw [h.current running]
    constructor <;> rintro ⟨b, here, newest⟩
    · refine ⟨b, log_mono here, fun j after other here' => ?_⟩
      rcases log_cases here' with ⟨_, here'⟩ | ⟨_, last⟩
      · exact newest j after other here'
      · exact began _ _ last
    · rcases log_cases here with ⟨_, here⟩ | ⟨_, last⟩
      · exact ⟨b, here, fun j after other here' => newest j after other (log_mono here')⟩
      · exact absurd last (began _ _)

/-- A command is within the current attempt of its session. -/
theorem Places.within (h : Places log id scope) (running : scope.running = true) :
    Within (log ++ [Entry.started command]) id index log.length command ↔ command.session.bind scope.current = some index ∧
      command.autocommit = some false ∧ command.txnNumber ≠ none := by
  constructor
  · intro within
    obtain ⟨b, session, here, bound, key, newest⟩ := within.began
    refine ⟨?_, within.transactional, within.numbered⟩
    rw [key, Option.bind_some, h.current running]
    rw [log_of_lt bound] at here
    refine ⟨b, here, fun j after other here' => ?_⟩
    exact newest j after (List.getElem?_eq_some_iff.mp here').1 other (log_mono here')
  · rintro ⟨bound, transactional, numbered⟩
    obtain ⟨session, key, current⟩ := Option.bind_eq_some_iff.mp bound
    obtain ⟨b, here, newest⟩ := (h.current running _ _).mp current
    have lt := (List.getElem?_eq_some_iff.mp here).1
    refine ⟨log_last, transactional, numbered, fun j before closed => ?_, b, session, log_mono here, lt, key, ?_⟩
    · rw [log_of_lt before] at closed
      exact h.running.mp running j closed
    · intro j after before other here'
      rw [log_of_lt before] at here'
      exact newest j after other here'

/-! ## A command starts -/

theorem Scope.started_cases (scope : Scope) (command : Command) :
    (∃ index number attempt, command.session.bind scope.current = some index ∧ command.txnNumber = some number ∧
      scope.attempts[index]? = some attempt ∧ command.autocommit = some false ∧
      (attempt.transactionNumber = some number ∨ command.startTransaction = true ∧ attempt.transactionNumber = none) ∧
      scope.started command = { scope with
        attempts := scope.attempts.set index (attempt.track number command.request)
        requests := Function.update scope.requests command.request (some ⟨index, command.commandName⟩) }) ∨
    scope.started command = scope ∧ ∀ index number attempt, command.session.bind scope.current = some index →
      command.txnNumber = some number → scope.attempts[index]? = some attempt → command.autocommit = some false →
      ¬(attempt.transactionNumber = some number ∨ command.startTransaction = true ∧ attempt.transactionNumber = none) := by
  unfold started
  split
  next index number current key =>
    split
    next attempt here =>
      split
      next own => exact .inl ⟨index, number, attempt, current, key, here, own.1, own.2, rfl⟩
      next other =>
        refine .inr ⟨rfl, fun index' number' attempt' current' key' here' transactional own => other ?_⟩
        cases current.symm.trans current'
        cases key.symm.trans key'
        cases here.symm.trans here'
        exact ⟨transactional, own⟩
    next absent =>
      refine .inr ⟨rfl, fun index' number' attempt' current' key' here' => ?_⟩
      cases current.symm.trans current'
      rw [absent] at here'
      cases here'
  next none => exact .inr ⟨rfl, fun index number _ current key => absurd key (none index number current)⟩

/-- The command is of the transaction of the attempt that is current for its
session. -/
theorem Books.tracks (h : Books log id scope) {index : Nat} {attempt : Attempt} {number : String} (here : scope.attempts[index]? = some attempt)
    (within : Within (log ++ [Entry.started command]) id index log.length command) (key : command.txnNumber = some number) :
    Belongs (log ++ [Entry.started command]) id index log.length command ↔
      attempt.transactionNumber = some number ∨ command.startTransaction = true ∧ attempt.transactionNumber = none := by
  constructor
  · rintro ⟨first, number', starts, _, _, key'⟩
    cases key.symm.trans key'
    rcases starts_cases starts with old | ⟨_, none, c, last, _, starting, _⟩
    · exact .inl ((h.number index attempt here number).mpr ⟨first, old⟩)
    · cases last
      refine .inr ⟨starting, ?_⟩
      cases noted : attempt.transactionNumber with
      | none => rfl
      | some number' =>
        obtain ⟨first, old⟩ := (h.number index attempt here number').mp noted
        exact absurd old (none first number')
  · rintro (noted | ⟨starting, noted⟩)
    · obtain ⟨first, starts⟩ := (h.number index attempt here number).mp noted
      exact ⟨first, number, (starts_append starts.lt).mpr starts, Nat.le_of_lt starts.lt, within, key⟩
    · refine ⟨log.length, number, starts_last within starting key fun first number' starts => ?_, Nat.le_refl _, within, key⟩
      have noted' := (h.number index attempt here number').mpr ⟨first, starts⟩
      rw [noted] at noted'
      cases noted'

/-- A command that no attempt tracks changes no book. -/
theorem Books.ignored (places : Places log id scope) (h : Books log id scope) (running : scope.running = true)
    (other : ∀ index number attempt, command.session.bind scope.current = some index → command.txnNumber = some number →
      scope.attempts[index]? = some attempt → command.autocommit = some false →
        ¬(attempt.transactionNumber = some number ∨ command.startTransaction = true ∧ attempt.transactionNumber = none)) :
    Books (log ++ [Entry.started command]) id scope := by
  have quiet : ∀ request any, Entry.started command ≠ .completed request any := nofun
  have outside (index : Nat) : ¬Belongs (log ++ [Entry.started command]) id index log.length command := by
    intro belongs
    obtain ⟨current, transactional, numbered⟩ := (places.within running).mp belongs.within
    obtain ⟨number, key⟩ := Option.ne_none_iff_exists'.mp numbered
    obtain ⟨attempt, here⟩ : ∃ attempt, scope.attempts[index]? = some attempt := by
      obtain ⟨session, _, current⟩ := Option.bind_eq_some_iff.mp current
      obtain ⟨b, began, _⟩ := (places.current running _ _).mp current
      exact ⟨_, List.getElem?_eq_getElem (places.known b index session began)⟩
    exact other index number attempt current key here transactional ((h.tracks here belongs.within key).mp belongs)
  refine h.frame (same_append quiet ?_ ?_)
  · rintro index c ⟨⟩
    exact outside index
  · intro index number starts
    obtain ⟨c, within, _, key⟩ := starts.starts
    cases log_last.symm.trans within.here
    exact outside index ⟨log.length, number, starts, Nat.le_refl _, within, key⟩

theorem Books.started (places : Places log id scope) (h : Books log id scope) (running : scope.running = true)
    (fresh : ∀ i command', Outstanding log i command' → command'.request ≠ command.request) :
    Books (log ++ [Entry.started command]) id (scope.started command) := by
  have quiet : ∀ request any, Entry.started command ≠ .completed request any := nofun
  rcases scope.started_cases command with ⟨index, number, attempt, current, key, here, transactional, own, eq⟩ |
    ⟨eq, other⟩
  · have numbered : command.txnNumber ≠ none := by simp [key]
    have within : Within (log ++ [Entry.started command]) id index log.length command :=
      (places.within running).mpr ⟨current, transactional, numbered⟩
    have belongs := (h.tracks here within key).mpr own
    have last : Outstanding (log ++ [Entry.started command]) log.length command := by
      refine ⟨log_last, fun j after any past => ?_⟩
      have bound := (List.getElem?_eq_some_iff.mp past).1
      simp at bound
      omega
    -- a command that is new is this one, of this attempt
    have new {index' i : Nat} {c : Command} (belongs' : Belongs (log ++ [Entry.started command]) id index' i c) :
        Belongs log id index' i c ∨ i = log.length ∧ c = command ∧ index' = index := by
      rcases belongs_cases belongs' with old | ⟨rfl, same⟩
      · exact .inl old
      · cases same
        have current' := ((places.within running).mp belongs'.within).1
        exact .inr ⟨rfl, rfl, Option.some.inj (current'.symm.trans current)⟩
    rw [eq]
    refine ⟨fun index' attempt' here' number' => ?_, fun index' attempt' here' i c belongs' => ?_,
      fun _ request index' name => ?_, fun index' attempt' here' succeeded => ?_⟩
    · by_cases same : index = index'
      · subst same
        rw [List.getElem?_set_self (List.getElem?_eq_some_iff.mp here).1] at here'
        cases here'
        obtain ⟨first, number'', starts, _, _, key'⟩ := belongs
        cases key.symm.trans key'
        constructor
        · rintro ⟨⟩
          exact ⟨first, starts⟩
        · rintro ⟨first', starts'⟩
          exact congrArg some (starts.unique starts').2
      · rw [List.getElem?_set_ne same] at here'
        rw [h.number index' attempt' here' number']
        refine exists_congr fun first => ⟨fun starts => (starts_append starts.lt).mpr starts, fun starts => ?_⟩
        rcases starts_cases starts with old | ⟨rfl, _, c, last, within', _⟩
        · exact old
        · cases last
          have current' := ((places.within running).mp within').1
          exact absurd (Option.some.inj (current.symm.trans current')) same
    · rcases new belongs' with old | ⟨rfl, rfl, rfl⟩
      · have settle (attempt'' : Attempt) (here'' : scope.attempts[index']? = some attempt'')
            (committed : attempt''.committed = true → attempt'.committed = true)
            (pending : ∀ request ∈ attempt''.pending, request ∈ attempt'.pending) :
            (∃ j acknowledged, Completes (log ++ [Entry.started command]) i c.request j acknowledged ∧
              (c.commandName = "commitTransaction" → acknowledged = true → attempt'.committed = true)) ∨
            c.request ∈ attempt'.pending ∧ (scope.running = true → Outstanding (log ++ [Entry.started command]) i c) := by
          rcases h.settled index' attempt'' here'' i c old with ⟨j, acknowledged, completes, commits⟩ | ⟨mem, open'⟩
          · exact .inl ⟨j, acknowledged, completes.append, fun commit yes => committed (commits commit yes)⟩
          · exact .inr ⟨pending _ mem, fun running => (open' running).append (quiet _)⟩
        by_cases same : index = index'
        · subst same
          rw [List.getElem?_set_self (List.getElem?_eq_some_iff.mp here).1] at here'
          cases here'
          exact settle attempt here (fun yes => yes) fun request mem => List.mem_insert_of_mem mem
        · rw [List.getElem?_set_ne same] at here'
          exact settle attempt' here' (fun yes => yes) fun _ mem => mem
      · rw [List.getElem?_set_self (List.getElem?_eq_some_iff.mp here).1] at here'
        cases here'
        exact .inr ⟨List.mem_insert_self, fun _ => last⟩
    · dsimp only
      by_cases same : request = command.request
      · subst same
        rw [Function.update_self]
        constructor
        · rintro ⟨⟩
          exact ⟨log.length, command, belongs, last, rfl, rfl⟩
        · rintro ⟨i, c, belongs', open', same, rfl⟩
          rcases new belongs' with old | ⟨rfl, rfl, rfl⟩
          · exact absurd same (fresh i c ((outstanding_append quiet old.lt).mp open'))
          · rfl
      · rw [Function.update_of_ne same, h.requests running]
        refine exists_congr fun i => exists_congr fun c => ⟨?_, ?_⟩
        · rintro ⟨belongs', open', rest⟩
          exact ⟨(belongs_append belongs'.lt).mpr belongs', open'.append (quiet _), rest⟩
        · rintro ⟨belongs', open', rfl, rest⟩
          rcases new belongs' with old | ⟨rfl, rfl, rfl⟩
          · exact ⟨old, (outstanding_append quiet old.lt).mp open', rfl, rest⟩
          · exact absurd rfl same
    · have noted : ∃ attempt'', scope.attempts[index']? = some attempt'' ∧ attempt''.abortSucceeded = true := by
        by_cases same : index = index'
        · subst same
          rw [List.getElem?_set_self (List.getElem?_eq_some_iff.mp here).1] at here'
          cases here'
          exact ⟨attempt, here, succeeded⟩
        · rw [List.getElem?_set_ne same] at here'
          exact ⟨attempt', here', succeeded⟩
      obtain ⟨attempt'', here'', succeeded⟩ := noted
      obtain ⟨i, c, j, belongs', abort, completes, newest⟩ := h.aborted index' attempt'' here'' succeeded
      refine ⟨i, c, j, (belongs_append belongs'.lt).mpr belongs', abort, completes.append, ?_⟩
      intro i' c' j' acknowledged belongs'' abort' completes'
      rw [completes_append quiet] at completes'
      rcases new belongs'' with old | ⟨rfl, _⟩
      · rcases newest i' c' j' acknowledged old abort' completes' with le | ⟨stopped, _⟩
        · exact .inl le
        · exact absurd running (by simp [stopped])
      · have bound := (List.getElem?_eq_some_iff.mp completes'.here).1
        exact absurd completes'.after (Nat.not_lt.mpr (Nat.le_of_lt bound))
  · rw [eq]
    exact h.ignored places running other

/-! ## A command is over -/

theorem Within.unique {index' : Nat} {command' : Command} (h : Within log id index i command)
    (h' : Within log id index' i command') : index = index' := by
  obtain ⟨b, session, here, before, key, newest⟩ := h.began
  obtain ⟨b', session', here', before', key', newest'⟩ := h'.began
  cases h.here.symm.trans h'.here
  cases key.symm.trans key'
  rcases Nat.lt_trichotomy b b' with lt | rfl | lt
  · exact absurd here' (newest b' lt before' _)
  · cases here.symm.trans here'
    rfl
  · exact absurd here (newest' b lt before _)

theorem starts_quiet {first : Nat} {number : String} (other : ∀ command, e ≠ .started command) :
    Starts (log ++ [e]) id index first number ↔ Starts log id index first number := by
  refine ⟨fun h => ?_, fun h => (starts_append h.lt).mpr h⟩
  rcases starts_cases h with old | ⟨_, _, c, last, _⟩
  · exact old
  · exact absurd last (other c)

theorem belongs_quiet (other : ∀ command, e ≠ .started command) :
    Belongs (log ++ [e]) id index i command ↔ Belongs log id index i command := by
  refine ⟨fun h => ?_, fun h => (belongs_append h.lt).mpr h⟩
  rcases belongs_cases h with old | ⟨_, last⟩
  · exact old
  · exact absurd last (other command)

variable {request : RequestKey} {acknowledged : Bool}

theorem completes_last {j : Nat} {any : Bool} (here : log[i]? = some (.started command))
    (h : Completes (log ++ [Entry.completed request acknowledged]) i command.request j any) :
    Completes log i command.request j any ∨
      j = log.length ∧ acknowledged = any ∧ command.request = request ∧ Outstanding log i command := by
  rcases completes_cases h with old | ⟨rfl, last, later⟩
  · exact .inl old
  · cases last
    exact .inr ⟨rfl, rfl, rfl, here, later⟩

theorem outstanding_last (bound : i < log.length) :
    Outstanding (log ++ [Entry.completed request acknowledged]) i command ↔
      Outstanding log i command ∧ command.request ≠ request := by
  constructor
  · intro h
    refine ⟨h.of_append bound, fun same => ?_⟩
    subst same
    exact h.later log.length bound acknowledged log_last
  · rintro ⟨h, other⟩
    refine h.append fun any last => other ?_
    cases last
    rfl

theorem Scope.completed_cases (scope : Scope) (request : RequestKey) (commandName : String) (completion : Completion)
    (names : ∀ index name, scope.requests request = some ⟨index, name⟩ → name = commandName) :
    (∃ index, scope.requests request = some ⟨index, commandName⟩ ∧ scope.completed request commandName completion =
      { scope with
        requests := Function.update scope.requests request none
        attempts := scope.attempts.modify index (·.completed request commandName completion) }) ∨
    scope.requests request = none ∧ scope.completed request commandName completion = scope := by
  unfold completed
  split
  next entry here =>
    obtain rfl := names entry.attempt entry.commandName here
    rw [if_pos rfl]
    exact .inl ⟨entry.attempt, here, rfl⟩
  next none => exact .inr ⟨none, rfl⟩

/-- A request that no attempt has noted ends. -/
theorem Books.unnoted (h : Books log id scope) (running : scope.running = true) (none : scope.requests request = none) :
    Books (log ++ [Entry.completed request acknowledged]) id scope := by
  have other : ∀ command, Entry.completed request acknowledged ≠ .started command := nofun
  have unowned {index i : Nat} {c : Command} (belongs : Belongs log id index i c) (open' : Outstanding log i c) :
      c.request ≠ request := by
    intro same
    have entry := (h.requests running request index c.commandName).mpr ⟨i, c, belongs, open', same, rfl⟩
    rw [none] at entry
    cases entry
  refine h.frame ⟨fun _ _ _ => starts_quiet other, fun _ _ _ => belongs_quiet other, fun index i c j any belongs => ?_,
    fun index i c belongs => ?_⟩
  · refine ⟨fun completes => ?_, .append⟩
    rcases completes_last belongs.within.here completes with old | ⟨_, _, same, open'⟩
    · exact old
    · exact absurd same (unowned belongs open')
  · rw [outstanding_last belongs.lt]
    exact and_iff_left_of_imp (unowned belongs)

theorem Books.completed {completion : Completion} {commandName : String} (h : Books log id scope)
    (running : scope.running = true)
    (unique : ∀ i i' command command', Outstanding log i command → Outstanding log i' command' →
      command.request = command'.request → i = i')
    (names : ∀ i command, Outstanding log i command → command.request = request → command.commandName = commandName) :
    Books (log ++ [Entry.completed request completion.acknowledged]) id (scope.completed request commandName completion) := by
  have other : ∀ command, Entry.completed request completion.acknowledged ≠ .started command := nofun
  have named (index : Nat) (name : String) (entry : scope.requests request = some ⟨index, name⟩) : name = commandName := by
    obtain ⟨i, c, _, open', same, rfl⟩ := (h.requests running _ _ _).mp entry
    exact names i c open' same
  rcases scope.completed_cases request commandName completion named with ⟨index, entry, eq⟩ | ⟨none, eq⟩
  · obtain ⟨i₀, c₀, belongs₀, open₀, same₀, name₀⟩ := (h.requests running _ _ _).mp entry
    -- the request that is over belongs to this attempt
    have owner {index' i : Nat} {c : Command} (belongs : Belongs log id index' i c) (open' : Outstanding log i c)
        (same : c.request = request) : index' = index ∧ c = c₀ := by
      obtain rfl := unique i i₀ c c₀ open' open₀ (same.trans same₀.symm)
      cases open'.here.symm.trans open₀.here
      exact ⟨belongs.within.unique belongs₀.within, rfl⟩
    have attempts (index' : Nat) : (scope.attempts.modify index (·.completed request commandName completion))[index']? =
        if index = index' then scope.attempts[index']?.map (·.completed request commandName completion)
        else scope.attempts[index']? := by
      rw [List.getElem?_modify]
      split <;> simp
    rw [eq]
    refine ⟨fun index' attempt' here' number => ?_, fun index' attempt' here' i c belongs => ?_,
      fun _ request' index' name => ?_, fun index' attempt' here' succeeded => ?_⟩
    · dsimp only at here'
      rw [attempts] at here'
      simp only [starts_quiet other]
      split at here'
      next =>
        obtain ⟨attempt, here, rfl⟩ := Option.map_eq_some_iff.mp here'
        exact h.number index' attempt here number
      next => exact h.number index' attempt' here' number
    · dsimp only at here'
      rw [attempts] at here'
      rw [belongs_quiet other] at belongs
      split at here'
      next same =>
        subst same
        obtain ⟨attempt, here, rfl⟩ := Option.map_eq_some_iff.mp here'
        rcases h.settled index attempt here i c belongs with ⟨j, any, completes, commits⟩ | ⟨mem, open'⟩
        · refine .inl ⟨j, any, completes.append, fun commit yes => ?_⟩
          simp [Attempt.completed, commits commit yes]
        · by_cases same : c.request = request
          · subst same
            refine .inl ⟨log.length, completion.acknowledged, (open' running).completes, fun commit yes => ?_⟩
            have name := names i c (open' running) rfl
            simp [Attempt.completed, ← name, commit, yes]
          · refine .inr ⟨?_, fun _ => (outstanding_last belongs.lt).mpr ⟨open' running, same⟩⟩
            exact List.mem_filter.mpr ⟨mem, by simpa using same⟩
      next differ =>
        rcases h.settled index' attempt' here' i c belongs with ⟨j, any, completes, commits⟩ | ⟨mem, open'⟩
        · exact .inl ⟨j, any, completes.append, commits⟩
        · refine .inr ⟨mem, fun _ => (outstanding_last belongs.lt).mpr ⟨open' running, fun same => ?_⟩⟩
          exact differ (owner belongs (open' running) same).1.symm
    · dsimp only
      simp only [belongs_quiet other]
      by_cases same : request' = request
      · subst same
        rw [Function.update_self]
        refine ⟨nofun, ?_⟩
        rintro ⟨i, c, belongs, open', same, _⟩
        exact absurd same ((outstanding_last belongs.lt).mp open').2
      · rw [Function.update_of_ne same, h.requests running]
        refine exists_congr fun i => exists_congr fun c => and_congr_right fun belongs => ?_
        rw [outstanding_last belongs.lt]
        constructor
        · rintro ⟨open', rfl, name⟩
          exact ⟨⟨open', same⟩, rfl, name⟩
        · rintro ⟨⟨open', _⟩, rfl, name⟩
          exact ⟨open', rfl, name⟩
    · dsimp only at here'
      rw [attempts] at here'
      simp only [belongs_quiet other]
      by_cases this : index = index' ∧ commandName = "abortTransaction"
      · obtain ⟨rfl, abort⟩ := this
        rw [if_pos rfl] at here'
        obtain ⟨attempt, here, rfl⟩ := Option.map_eq_some_iff.mp here'
        have yes : completion.acknowledged = true := by simpa [Attempt.completed, abort] using succeeded
        refine ⟨i₀, c₀, log.length, belongs₀, name₀.trans abort, ?_, fun i' c' j' any _ _ completes' => .inl ?_⟩
        · rw [← same₀, ← yes]
          exact open₀.completes
        · have bound := (List.getElem?_eq_some_iff.mp completes'.here).1
          rw [List.length_append, List.length_singleton] at bound
          omega
      · have noted : ∃ attempt, scope.attempts[index']? = some attempt ∧ attempt.abortSucceeded = true := by
          split at here'
          next same =>
            obtain ⟨attempt, here, rfl⟩ := Option.map_eq_some_iff.mp here'
            have noAbort : commandName ≠ "abortTransaction" := fun abort => this ⟨same, abort⟩
            exact ⟨attempt, here, by simpa [Attempt.completed, noAbort] using succeeded⟩
          next => exact ⟨attempt', here', succeeded⟩
        obtain ⟨attempt, here, succeeded⟩ := noted
        obtain ⟨i, c, j, belongs, abort, completes, newest⟩ := h.aborted index' attempt here succeeded
        refine ⟨i, c, j, belongs, abort, completes.append, fun i' c' j' any belongs' abort' completes' => .inl ?_⟩
        rcases completes_last belongs'.within.here completes' with old | ⟨_, _, same, open'⟩
        · rcases newest i' c' j' any belongs' abort' old with le | ⟨stopped, _⟩
          · exact le
          · exact absurd running (by simp [stopped])
        · obtain ⟨rfl, rfl⟩ := owner belongs' open' same
          exact absurd ⟨rfl, name₀.symm.trans abort'⟩ this
  · rw [eq]
    exact h.unnoted running none

/-- A scope that is closed notes nothing of requests that end later. -/
theorem Books.late (h : Books log id scope) (stopped : scope.running = false) :
    Books (log ++ [Entry.completed request acknowledged]) id scope := by
  have other : ∀ command, Entry.completed request acknowledged ≠ .started command := nofun
  have idle : scope.running ≠ true := by simp [stopped]
  refine ⟨fun index attempt here number => ?_, fun index attempt here i c belongs => ?_,
    fun running => absurd running idle, fun index attempt here succeeded => ?_⟩
  · simp only [starts_quiet other]
    exact h.number index attempt here number
  · rw [belongs_quiet other] at belongs
    rcases h.settled index attempt here i c belongs with ⟨j, any, completes, commits⟩ | ⟨mem, _⟩
    · exact .inl ⟨j, any, completes.append, commits⟩
    · exact .inr ⟨mem, fun running => absurd running idle⟩
  · simp only [belongs_quiet other]
    obtain ⟨i, c, j, belongs, abort, completes, newest⟩ := h.aborted index attempt here succeeded
    refine ⟨i, c, j, belongs, abort, completes.append, fun i' c' j' any belongs' abort' completes' => ?_⟩
    rcases completes_last belongs'.within.here completes' with old | ⟨_, _, _, open'⟩
    · exact newest i' c' j' any belongs' abort' old
    · rcases h.settled index attempt here i' c' belongs' with ⟨j, any, past, _⟩ | ⟨mem, _⟩
      · exact absurd past.here (open'.later j past.after any)
      · exact .inr ⟨stopped, mem⟩

/-! ## Scopes and attempts -/

theorem Books.begin (places : Places log id scope) (h : Books log id scope) (session : String) :
    Books (log ++ [Entry.began id scope.attempts.length session]) id (scope.begin session) := by
  have same : Same log (log ++ [Entry.began id scope.attempts.length session]) id := same_quiet nofun nofun
  have framed := h.frame same
  have none {i : Nat} {c : Command} (within : Within log id scope.attempts.length i c) : False := by
    obtain ⟨b, session, here, _⟩ := within.began
    exact Nat.lt_irrefl _ (places.known b _ session here)
  have split {index : Nat} {attempt : Attempt} (here : (scope.attempts ++ [Attempt.initial])[index]? = some attempt) :
      scope.attempts[index]? = some attempt ∨ index = scope.attempts.length ∧ attempt = .initial := by
    rcases Nat.lt_or_ge index scope.attempts.length with bound | bound
    · exact .inl ((List.getElem?_append_left bound).symm.trans here)
    · rw [List.getElem?_append_right bound, List.getElem?_singleton] at here
      split at here
      · cases here
        exact .inr ⟨by omega, rfl⟩
      · cases here
  refine ⟨fun index attempt here number => ?_, fun index attempt here i c belongs => ?_,
    framed.requests, fun index attempt here succeeded => ?_⟩
  · rcases split here with old | ⟨rfl, rfl⟩
    · exact framed.number index attempt old number
    · refine ⟨nofun, fun ⟨first, starts⟩ => ?_⟩
      rw [same.starts] at starts
      obtain ⟨c, within, _⟩ := starts.starts
      exact (none within).elim
  · rcases split here with old | ⟨rfl, rfl⟩
    · exact framed.settled index attempt old i c belongs
    · rw [same.belongs] at belongs
      exact (none belongs.within).elim
  · rcases split here with old | ⟨rfl, rfl⟩
    · exact framed.aborted index attempt old succeeded
    · cases succeeded

theorem Places.begin (h : Places log id scope) (session : String) :
    Places (log ++ [Entry.began id scope.attempts.length session]) id (scope.begin session) where
  running := by
    refine h.running.trans ⟨fun open' j here => ?_, fun open' j here => open' j (log_mono here)⟩
    rcases log_cases here with ⟨_, here⟩ | ⟨_, last⟩
    · exact open' j here
    · cases last
  known b index session' here := by
    simp only [Scope.begin, List.length_append, List.length_singleton]
    rcases log_cases here with ⟨_, here⟩ | ⟨_, last⟩
    · exact Nat.lt_succ_of_lt (h.known b index session' here)
    · cases last
      exact Nat.lt_succ_self _
  current running session' index := by
    simp only [Scope.begin]
    by_cases same : session' = session
    · subst same
      rw [Function.update_self]
      constructor
      · rintro ⟨⟩
        refine ⟨log.length, log_last, fun j after other here => ?_⟩
        have bound := (List.getElem?_eq_some_iff.mp here).1
        simp at bound
        omega
      · rintro ⟨b, here, newest⟩
        rcases log_cases here with ⟨bound, _⟩ | ⟨_, last⟩
        · exact absurd log_last (newest log.length bound _)
        · cases last
          rfl
    · rw [Function.update_of_ne same, h.current running]
      constructor <;> rintro ⟨b, here, newest⟩
      · refine ⟨b, log_mono here, fun j after other here' => ?_⟩
        rcases log_cases here' with ⟨_, here'⟩ | ⟨_, last⟩
        · exact newest j after other here'
        · cases last
          exact same rfl
      · rcases log_cases here with ⟨_, here⟩ | ⟨_, last⟩
        · exact ⟨b, here, fun j after other here' => newest j after other (log_mono here')⟩
        · cases last
          exact absurd rfl same

theorem Books.finish (h : Books log id scope) (running : scope.running = true) :
    Books (log ++ [Entry.closed id]) id { scope with running := false } := by
  have same : Same log (log ++ [Entry.closed id]) id := same_quiet nofun nofun
  have framed := h.frame same
  refine ⟨framed.number, fun index attempt here i c belongs => ?_, nofun, fun index attempt here succeeded => ?_⟩
  · exact (framed.settled index attempt here i c belongs).imp_right fun ⟨mem, _⟩ => ⟨mem, nofun⟩
  · obtain ⟨i, c, j, belongs, abort, completes, newest⟩ := framed.aborted index attempt here succeeded
    refine ⟨i, c, j, belongs, abort, completes, fun i' c' j' any belongs' abort' completes' => .inl ?_⟩
    refine (newest i' c' j' any belongs' abort' completes').resolve_right fun ⟨stopped, _⟩ => ?_
    exact absurd running (by simp [stopped])

theorem Places.finish (h : Places log id scope) : Places (log ++ [Entry.closed id]) id { scope with running := false } where
  running := ⟨nofun, fun open' => absurd log_last (open' log.length)⟩
  known b index session here := by
    rcases log_cases here with ⟨_, here⟩ | ⟨_, last⟩
    · exact h.known b index session here
    · cases last
  current := nofun

end

end Fluo.Mongoose.RollbackObserver
