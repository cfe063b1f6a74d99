import Mathlib.Data.List.Count
import Mathlib.Data.List.Induction
import Mathlib.Logic.Function.Basic

/-!
# Fixed-window counters

A counter for each key: a hit opens a window of a given length when none is open
for its key, and is counted in the open window otherwise. The log of the hits
says what a counter has counted.
-/

namespace Fluo.FixedWindow

variable {κ : Type}

structure Window where
  count : Nat
  resetAt : Nat
  deriving DecidableEq

/-- A hit; the length is that of the window it may open. -/
structure Hit (κ : Type) where
  key : κ
  now : Nat
  length : Nat

/-- Count a hit, in a new window unless the given one is open. -/
def count (window : Option Window) (hit : Hit κ) : Window :=
  match window with
  | none => ⟨1, hit.now + hit.length⟩
  | some w => if w.resetAt ≤ hit.now then ⟨1, hit.now + hit.length⟩ else ⟨w.count + 1, w.resetAt⟩

/-- An entry without an open window is as good as none. -/
theorem count_of_closed {w : Window} {hit : Hit κ} (closed : w.resetAt ≤ hit.now) :
    count (some w) hit = count none hit := by
  simp [count, closed]

theorem count_pos (window : Option Window) (hit : Hit κ) : 0 < (count window hit).count := by
  cases window with
  | none => exact Nat.one_pos
  | some w =>
    rw [count]
    split
    · exact Nat.one_pos
    · exact Nat.succ_pos _

structure Counted (κ : Type) where
  hit : Hit κ
  window : Window

/-- The counted hits of a window; it is known by its key and its end. -/
def inWindow [DecidableEq κ] (key : κ) (resetAt : Nat) (c : Counted κ) : Bool :=
  c.hit.key = key && c.window.resetAt = resetAt

variable [DecidableEq κ]

/-- What the counter says of a hit, given the hits before it. -/
structure Exact (before : List (Counted κ)) (c : Counted κ) : Prop where
  /-- The number of hits in this window, with this one. -/
  counts : c.window.count = before.countP (inWindow c.hit.key c.window.resetAt) + 1
  lasts : c.hit.now < c.window.resetAt
  opens : c.window.count = 1 →
    c.window.resetAt = c.hit.now + c.hit.length ∧
      ∀ b ∈ before, b.hit.key = c.hit.key → b.window.resetAt ≤ c.hit.now
  goesOn : ∀ b ∈ before, b.hit.key = c.hit.key → c.hit.now < b.window.resetAt → b.window.resetAt = c.window.resetAt

/-- Every hit of the log was counted exactly. -/
def AllExact (log : List (Counted κ)) : Prop :=
  ∀ before c after, log = before ++ c :: after → Exact before c

/-- The counters after a log of hits, at some time: a counter is that of the last
window of its key, and all windows before that one are closed. -/
structure Holds (clock : Nat) (windows : κ → Option Window) (log : List (Counted κ)) : Prop where
  unused : ∀ key, windows key = none → ∀ b ∈ log, b.hit.key ≠ key
  used : ∀ key w, windows key = some w →
    w.count = log.countP (inWindow key w.resetAt) ∧
      ∀ b ∈ log, b.hit.key = key → b.window.resetAt = w.resetAt ∨ b.window.resetAt ≤ clock
  counted : ∀ key w, windows key = some w → 0 < w.count

theorem allExact_nil : AllExact ([] : List (Counted κ)) := by
  intro before c after split
  cases before <;> cases split

theorem allExact_snoc {log : List (Counted κ)} {c : Counted κ} (all : AllExact log) (last : Exact log c) :
    AllExact (log ++ [c]) := by
  intro before d after split
  rcases List.eq_nil_or_concat after with rfl | ⟨after, e, rfl⟩
  · obtain ⟨rfl, same⟩ := List.append_inj' split rfl
    cases same
    exact last
  · rw [List.concat_eq_append, ← List.cons_append, ← List.append_assoc] at split
    exact all before d after (List.append_inj' split rfl).1

theorem holds_empty (clock : Nat) : Holds clock (fun _ => none : κ → Option Window) [] where
  unused := nofun
  used := nofun
  counted := nofun

theorem countP_other {log : List (Counted κ)} {key : κ} {resetAt : Nat}
    (other : ∀ b ∈ log, b.hit.key = key → b.window.resetAt ≠ resetAt) : log.countP (inWindow key resetAt) = 0 := by
  rw [List.countP_eq_zero]
  intro b mem here
  rw [inWindow, Bool.and_eq_true, decide_eq_true_eq, decide_eq_true_eq] at here
  exact other b mem here.1 here.2

section Hit

variable {clock : Nat} {windows : κ → Option Window} {log : List (Counted κ)} {hit : Hit κ}

/-- The windows of the hit's key that are open are the one of its counter. -/
theorem Holds.open_eq (holds : Holds clock windows log) (later : clock ≤ hit.now) {b : Counted κ} (mem : b ∈ log)
    (same : b.hit.key = hit.key) (isOpen : hit.now < b.window.resetAt) :
    ∃ w, windows hit.key = some w ∧ b.window.resetAt = w.resetAt := by
  cases found : windows hit.key with
  | none => exact absurd same (holds.unused _ found b mem)
  | some w =>
    rcases (holds.used _ w found).2 b mem same with eq | closed
    · exact ⟨w, rfl, eq⟩
    · omega

theorem Holds.exact (holds : Holds clock windows log) (later : clock ≤ hit.now) (length : 0 < hit.length) :
    Exact log ⟨hit, count (windows hit.key) hit⟩ := by
  by_cases isOpen : ∃ w, windows hit.key = some w ∧ hit.now < w.resetAt
  · obtain ⟨w, found, inside⟩ := isOpen
    have goesOn : count (windows hit.key) hit = ⟨w.count + 1, w.resetAt⟩ := by
      rw [found, count, if_neg (Nat.not_le.mpr inside)]
    have positive := holds.counted _ w found
    rw [goesOn]
    refine ⟨congrArg (· + 1) (holds.used _ w found).1, inside, fun one => ?_, fun b mem same isOpen => ?_⟩
    · have : w.count + 1 = 1 := one
      omega
    · obtain ⟨v, found', eq⟩ := holds.open_eq later mem same isOpen
      rw [found] at found'
      cases found'
      exact eq
  · have opens : count (windows hit.key) hit = ⟨1, hit.now + hit.length⟩ := by
      cases found : windows hit.key with
      | none => rfl
      | some w => exact if_pos (Nat.not_lt.mp fun inside => isOpen ⟨w, found, inside⟩)
    have closed (b : Counted κ) (mem : b ∈ log) (same : b.hit.key = hit.key) : b.window.resetAt ≤ hit.now := by
      by_contra above
      obtain ⟨w, found, eq⟩ := holds.open_eq later mem same (Nat.not_le.mp above)
      exact isOpen ⟨w, found, by omega⟩
    rw [opens]
    refine ⟨?_, Nat.lt_add_of_pos_right length, fun _ => ⟨rfl, closed⟩, fun b mem same above => ?_⟩
    · dsimp only
      rw [countP_other fun b mem same eq => ?_]
      have before := closed b mem same
      rw [eq] at before
      omega
    · have before := closed b mem same
      dsimp only at above
      omega

theorem inWindow_self (c : Counted κ) : inWindow c.hit.key c.window.resetAt c = true := by
  simp [inWindow]

theorem inWindow_of_ne {key : κ} {c : Counted κ} (other : c.hit.key ≠ key) (resetAt : Nat) :
    inWindow key resetAt c = false := by
  simp [inWindow, other]

theorem Holds.counts (holds : Holds clock windows log) (later : clock ≤ hit.now) (length : 0 < hit.length) :
    Holds hit.now (Function.update windows hit.key (some (count (windows hit.key) hit)))
      (log ++ [⟨hit, count (windows hit.key) hit⟩]) := by
  have last := holds.exact later length
  refine ⟨fun key none => ?_, fun key w found => ?_, fun key w found => ?_⟩
  · have other : key ≠ hit.key := by
      rintro rfl
      rw [Function.update_self] at none
      cases none
    rw [Function.update_of_ne other] at none
    intro b mem
    rcases List.mem_append.mp mem with mem | mem
    · exact holds.unused key none b mem
    · cases List.mem_singleton.mp mem
      exact Ne.symm other
  · by_cases same : key = hit.key
    · subst same
      rw [Function.update_self] at found
      cases found
      refine ⟨?_, fun b mem same => ?_⟩
      · rw [List.countP_append, List.countP_singleton, if_pos (inWindow_self (Counted.mk hit _))]
        exact last.counts
      · rcases List.mem_append.mp mem with mem | mem
        · by_cases isOpen : hit.now < b.window.resetAt
          · exact .inl (last.goesOn b mem same isOpen)
          · exact .inr (Nat.not_lt.mp isOpen)
        · cases List.mem_singleton.mp mem
          exact .inl rfl
    · rw [Function.update_of_ne same] at found
      obtain ⟨counts, others⟩ := holds.used key w found
      refine ⟨?_, fun b mem eq => ?_⟩
      · rw [List.countP_append, List.countP_singleton, if_neg ?_]
        · exact counts
        · rw [inWindow_of_ne (Ne.symm same)]
          exact Bool.false_ne_true
      · rcases List.mem_append.mp mem with mem | mem
        · exact (others b mem eq).imp id fun closed => Nat.le_trans closed later
        · cases List.mem_singleton.mp mem
          exact absurd eq.symm same
  · by_cases same : key = hit.key
    · subst same
      rw [Function.update_self] at found
      cases found
      exact count_pos _ hit
    · rw [Function.update_of_ne same] at found
      exact holds.counted key w found

end Hit

/-- Of the hits of one window, at most so many have a count within a limit. -/
theorem countP_within (limit : Nat) {log : List (Counted κ)} (exact_ : AllExact log) (key : κ) (resetAt : Nat) :
    log.countP (fun c => inWindow key resetAt c && decide (c.window.count ≤ limit)) ≤ limit := by
  have bounded : log.countP (fun c => inWindow key resetAt c && decide (c.window.count ≤ limit)) ≤
      min limit (log.countP (inWindow key resetAt)) := by
    induction log using List.reverseRecOn with
    | nil => exact Nat.zero_le _
    | append_singleton log c ih =>
      have before := ih fun b d after split => exact_ b d (after ++ [c]) (by rw [split]; simp)
      have last := (exact_ log c [] rfl).counts
      rw [List.countP_append, List.countP_append, List.countP_singleton, List.countP_singleton]
      cases here : inWindow key resetAt c with
      | false => simpa using before
      | true =>
        rw [inWindow, Bool.and_eq_true, decide_eq_true_eq, decide_eq_true_eq] at here
        rw [here.1, here.2] at last
        by_cases within : c.window.count ≤ limit
        · simp only [within, decide_true, Bool.and_self, if_true]
          omega
        · simp only [within, decide_false, Bool.and_false, Bool.false_eq_true, if_false, if_true]
          omega
  omega

end Fluo.FixedWindow
