import Mathlib.Data.Nat.Find
import Fluo.Lib.Run
import Fluo.Mongoose.RollbackObserver

/-!
# What a log says about an attempt

The commands of an attempt, what became of them and when they amount to a
rollback, read off the log of what was reported. Nothing here refers to what the
observer has noted.
-/

namespace Fluo.Mongoose.RollbackObserver

/-- A transaction command of the session of an attempt that has started in its
scope, behind `beginAttempt` and before a newer attempt of the session. -/
structure Within (log : List Entry) (scope attempt i : Nat) (command : Command) : Prop where
  here : log[i]? = some (.started command)
  transactional : command.autocommit = some false
  numbered : command.txnNumber ≠ none
  unclosed : ∀ j < i, log[j]? ≠ some (.closed scope)
  began : ∃ b session, log[b]? = some (.began scope attempt session) ∧ b < i ∧ command.session = some session ∧
    ∀ j, b < j → j < i → ∀ other, log[j]? ≠ some (.began scope other session)

/-- The first command of an attempt that starts a transaction, and its number. -/
structure Starts (log : List Entry) (scope attempt first : Nat) (number : String) : Prop where
  starts : ∃ command, Within log scope attempt first command ∧ command.startTransaction = true ∧
    command.txnNumber = some number
  before : ∀ j < first, ∀ command, Within log scope attempt j command → command.startTransaction = false

def Belongs (log : List Entry) (scope attempt i : Nat) (command : Command) : Prop :=
  ∃ first number, Starts log scope attempt first number ∧ first ≤ i ∧ Within log scope attempt i command ∧
    command.txnNumber = some number

/-- The request that starts at `i` is over at `j`. -/
structure Completes (log : List Entry) (i : Nat) (request : RequestKey) (j : Nat) (acknowledged : Bool) : Prop where
  after : i < j
  here : log[j]? = some (.completed request acknowledged)
  first : ∀ k, i < k → k < j → ∀ any, log[k]? ≠ some (.completed request any)

/-- The request that starts at `i` is not over. -/
structure Outstanding (log : List Entry) (i : Nat) (command : Command) : Prop where
  here : log[i]? = some (.started command)
  later : ∀ j, i < j → ∀ any, log[j]? ≠ some (.completed command.request any)

/-- An attempt was rolled back: all its commands are over, no commit was
acknowledged and the last abort was. -/
structure RolledBack (log : List Entry) (scope attempt : Nat) : Prop where
  settled : ∀ i command, Belongs log scope attempt i command →
    ∃ j acknowledged, Completes log i command.request j acknowledged
  uncommitted : ∀ i command j, Belongs log scope attempt i command → command.commandName = "commitTransaction" →
    ¬Completes log i command.request j true
  aborted : ∃ i command j, Belongs log scope attempt i command ∧ command.commandName = "abortTransaction" ∧
    Completes log i command.request j true ∧
    ∀ i' command' j' acknowledged, Belongs log scope attempt i' command' → command'.commandName = "abortTransaction" →
      Completes log i' command'.request j' acknowledged → j' ≤ j

section

variable {log : List Entry} {e : Entry} {scope attempt i j : Nat} {command : Command} {number : String}

theorem log_last : (log ++ [e])[log.length]? = some e := by simp

theorem log_of_lt (bound : i < log.length) : (log ++ [e])[i]? = log[i]? := List.getElem?_append_left bound

/-- What a longer log has was there or is its last entry. -/
theorem log_cases {f : Entry} (h : (log ++ [e])[i]? = some f) : (i < log.length ∧ log[i]? = some f) ∨
    (i = log.length ∧ e = f) := by
  rcases Nat.lt_trichotomy i log.length with bound | rfl | bound
  · exact .inl ⟨bound, (log_of_lt bound).symm.trans h⟩
  · exact .inr ⟨rfl, Option.some.inj (log_last.symm.trans h)⟩
  · rw [List.getElem?_eq_none (by simp; omega)] at h
    cases h

theorem log_mono {f : Entry} (h : log[i]? = some f) : (log ++ [e])[i]? = some f :=
  (log_of_lt (List.getElem?_eq_some_iff.mp h).1).trans h

theorem Within.lt (h : Within log scope attempt i command) : i < log.length :=
  (List.getElem?_eq_some_iff.mp h.here).1

/-- What is within an attempt depends on the log up to there. -/
theorem Within.congr {log' : List Entry} (same : ∀ j ≤ i, log'[j]? = log[j]?) (h : Within log scope attempt i command) :
    Within log' scope attempt i command where
  here := (same i (Nat.le_refl i)).trans h.here
  transactional := h.transactional
  numbered := h.numbered
  unclosed j before := (same j (Nat.le_of_lt before)).symm ▸ h.unclosed j before
  began := by
    obtain ⟨b, session, here, before, key, newest⟩ := h.began
    refine ⟨b, session, (same b (Nat.le_of_lt before)).trans here, before, key, fun j after lt other => ?_⟩
    rw [same j (Nat.le_of_lt lt)]
    exact newest j after lt other

theorem within_append (bound : i < log.length) :
    Within (log ++ [e]) scope attempt i command ↔ Within log scope attempt i command :=
  ⟨.congr fun _ le => (log_of_lt (Nat.lt_of_le_of_lt le bound)).symm,
    .congr fun _ le => log_of_lt (Nat.lt_of_le_of_lt le bound)⟩

/-- A longer log has one more command within an attempt at most, its last entry. -/
theorem within_cases (h : Within (log ++ [e]) scope attempt i command) :
    Within log scope attempt i command ∨ i = log.length ∧ e = .started command := by
  rcases log_cases h.here with ⟨bound, _⟩ | last
  · exact .inl ((within_append bound).mp h)
  · exact .inr last

theorem Starts.lt (h : Starts log scope attempt i number) : i < log.length := by
  obtain ⟨_, within, _⟩ := h.starts
  exact within.lt

theorem Starts.unique {number' : String} (h : Starts log scope attempt i number)
    (h' : Starts log scope attempt j number') : i = j ∧ number = number' := by
  obtain ⟨c, within, starts, key⟩ := h.starts
  obtain ⟨c', within', starts', key'⟩ := h'.starts
  have same : i = j := by
    rcases Nat.lt_trichotomy i j with lt | eq | lt
    · exact absurd starts (by simp [h'.before i lt c within])
    · exact eq
    · exact absurd starts' (by simp [h.before j lt c' within'])
  subst same
  have commands := within.here.symm.trans within'.here
  cases commands
  exact ⟨rfl, Option.some.inj (key.symm.trans key')⟩

theorem starts_append (bound : i < log.length) :
    Starts (log ++ [e]) scope attempt i number ↔ Starts log scope attempt i number := by
  constructor <;> rintro ⟨⟨c, within, starts⟩, before⟩
  · exact ⟨⟨c, (within_append bound).mp within, starts⟩,
      fun j lt c' within' => before j lt c' ((within_append (Nat.lt_trans lt bound)).mpr within')⟩
  · exact ⟨⟨c, (within_append bound).mpr within, starts⟩,
      fun j lt c' within' => before j lt c' ((within_append (Nat.lt_trans lt bound)).mp within')⟩

theorem starts_of_within (h : Within log scope attempt i command) (starts : command.startTransaction = true) :
    ∃ first number, Starts log scope attempt first number := by
  classical
  have some : ∃ j, ∃ c, Within log scope attempt j c ∧ c.startTransaction = true := ⟨i, command, h, starts⟩
  obtain ⟨c, within, starts⟩ := Nat.find_spec some
  obtain ⟨number, key⟩ := Option.ne_none_iff_exists'.mp within.numbered
  refine ⟨Nat.find some, number, ⟨c, within, starts, key⟩, fun j lt c' within' => ?_⟩
  have not := Nat.find_min some lt
  cases starting : c'.startTransaction with
  | false => rfl
  | true => exact absurd ⟨c', within', starting⟩ not

theorem starts_cases (h : Starts (log ++ [e]) scope attempt i number) : Starts log scope attempt i number ∨
    i = log.length ∧ (∀ first number, ¬Starts log scope attempt first number) ∧
      ∃ c, e = .started c ∧ Within (log ++ [e]) scope attempt i c ∧ c.startTransaction = true ∧ c.txnNumber = some number := by
  obtain ⟨c, within, starts, key⟩ := h.starts
  rcases within_cases within with old | ⟨rfl, last⟩
  · exact .inl ((starts_append old.lt).mp h)
  · refine .inr ⟨rfl, fun first number' earlier => ?_, c, last, within, starts, key⟩
    obtain ⟨c', within', starts', _⟩ := earlier.starts
    have not := h.before first earlier.lt c' ((within_append earlier.lt).mpr within')
    simp [starts'] at not

theorem starts_last (h : Within (log ++ [e]) scope attempt log.length command) (starts : command.startTransaction = true)
    (key : command.txnNumber = some number) (none : ∀ first number, ¬Starts log scope attempt first number) :
    Starts (log ++ [e]) scope attempt log.length number where
  starts := ⟨command, h, starts, key⟩
  before j lt c within := by
    cases starting : c.startTransaction with
    | false => rfl
    | true =>
      obtain ⟨first, number', earlier⟩ := starts_of_within ((within_append lt).mp within) starting
      exact absurd earlier (none first number')

theorem Belongs.within (h : Belongs log scope attempt i command) : Within log scope attempt i command := by
  obtain ⟨_, _, _, _, within, _⟩ := h
  exact within

theorem belongs_append (bound : i < log.length) :
    Belongs (log ++ [e]) scope attempt i command ↔ Belongs log scope attempt i command := by
  constructor <;> rintro ⟨first, number, starts, le, within, key⟩
  · exact ⟨first, number, (starts_append (Nat.lt_of_le_of_lt le bound)).mp starts, le, (within_append bound).mp within, key⟩
  · exact ⟨first, number, (starts_append (Nat.lt_of_le_of_lt le bound)).mpr starts, le, (within_append bound).mpr within, key⟩

theorem belongs_cases (h : Belongs (log ++ [e]) scope attempt i command) :
    Belongs log scope attempt i command ∨ i = log.length ∧ e = .started command := by
  rcases within_cases h.within with within | last
  · exact .inl ((belongs_append within.lt).mp h)
  · exact .inr last

/-! ## Completions -/

variable {request : RequestKey} {acknowledged : Bool}

theorem Completes.unique {j' : Nat} {acknowledged' : Bool} (h : Completes log i request j acknowledged)
    (h' : Completes log i request j' acknowledged') : j = j' ∧ acknowledged = acknowledged' := by
  have same : j = j' := by
    rcases Nat.lt_trichotomy j j' with lt | eq | lt
    · exact absurd h.here (h'.first j h.after lt _)
    · exact eq
    · exact absurd h'.here (h.first j' h'.after lt _)
  subst same
  have entries := h.here.symm.trans h'.here
  cases entries
  exact ⟨rfl, rfl⟩

theorem Completes.append (h : Completes log i request j acknowledged) :
    Completes (log ++ [e]) i request j acknowledged where
  after := h.after
  here := log_mono h.here
  first k after lt any := by
    have bound := (List.getElem?_eq_some_iff.mp h.here).1
    rw [log_of_lt (Nat.lt_trans lt bound)]
    exact h.first k after lt any

theorem completes_cases (h : Completes (log ++ [e]) i request j acknowledged) :
    Completes log i request j acknowledged ∨ j = log.length ∧ e = .completed request acknowledged ∧
      ∀ k, i < k → ∀ any, log[k]? ≠ some (.completed request any) := by
  rcases log_cases h.here with ⟨bound, here⟩ | ⟨rfl, last⟩
  · refine .inl ⟨h.after, here, fun k after lt any => ?_⟩
    rw [← log_of_lt (e := e) (Nat.lt_trans lt bound)]
    exact h.first k after lt any
  · refine .inr ⟨rfl, last, fun k after any here => ?_⟩
    have bound := (List.getElem?_eq_some_iff.mp here).1
    exact h.first k after bound any (log_mono here)

theorem Outstanding.completes (h : Outstanding log i command) :
    Completes (log ++ [Entry.completed command.request acknowledged]) i command.request log.length acknowledged where
  after := (List.getElem?_eq_some_iff.mp h.here).1
  here := log_last
  first k after lt any := by
    rw [log_of_lt lt]
    exact h.later k after any

theorem Outstanding.append (h : Outstanding log i command) (other : ∀ any, e ≠ .completed command.request any) :
    Outstanding (log ++ [e]) i command where
  here := log_mono h.here
  later j after any here := by
    rcases log_cases here with ⟨_, here⟩ | ⟨_, last⟩
    · exact h.later j after any here
    · exact other any last

theorem Outstanding.of_append (h : Outstanding (log ++ [e]) i command) (bound : i < log.length) :
    Outstanding log i command where
  here := (log_of_lt bound).symm.trans h.here
  later j after any here := h.later j after any (log_mono here)

end

end Fluo.Mongoose.RollbackObserver
