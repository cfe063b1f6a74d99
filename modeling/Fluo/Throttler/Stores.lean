import Fluo.Lib.FixedWindow
import Fluo.Lib.JsString
import Fluo.Lib.OrderedMap
import Mathlib.Data.Nat.Log

/-!
# The throttler stores

The in-memory store with its lazy sweep, and the Redis store with its script and
keys that expire. Both count as fixed-window counters do.
-/

namespace Fluo.Throttler

open Js FixedWindow

structure ThrottlerStoreEntry where
  count : Nat
  resetAt : Nat
  retryAfterMs : Option Nat

structure ThrottlerConsumeInput where
  now : Nat
  ttlSeconds : Nat

/-- What `consume` makes of the state of a store. -/
structure ThrottlerStore (σ : Type) where
  consume : σ → JsString → ThrottlerConsumeInput → σ × ThrottlerStoreEntry

/-! ## In memory -/

def consumeWindow (entry : Option Window) (input : ThrottlerConsumeInput) : Window :=
  let resetAt := input.now + input.ttlSeconds * 1000
  match entry with
  | none => ⟨1, resetAt⟩
  | some entry => if entry.resetAt ≤ input.now then ⟨1, resetAt⟩ else ⟨entry.count + 1, entry.resetAt⟩

structure MemoryStore where
  map : OrderedMap JsString Window
  nextSweepAt : Nat

/-- The entries that are not expired, and when the next of them will be. -/
def sweepExpiredEntries (map : OrderedMap JsString Window) (now : Nat) : OrderedMap JsString Window × Nat :=
  let kept := map.filter fun _ entry => !decide (entry.resetAt ≤ now)
  let nextSweepAt := kept.values.foldl (fun next entry => some (min entry.resetAt (next.getD entry.resetAt))) none
  (kept, nextSweepAt.getD 0)

def MemoryStore.sweep (s : MemoryStore) (now : Nat) : MemoryStore :=
  if s.nextSweepAt ≤ now then
    let (map, nextSweepAt) := sweepExpiredEntries s.map now
    ⟨map, nextSweepAt⟩
  else s

def createMemoryThrottlerStore : ThrottlerStore MemoryStore where
  consume s key input :=
    let s := s.sweep input.now
    let nextEntry := consumeWindow (s.map.get key) input
    (⟨s.map.set key nextEntry,
      if s.nextSweepAt = 0 then nextEntry.resetAt else min s.nextSweepAt nextEntry.resetAt⟩,
      ⟨nextEntry.count, nextEntry.resetAt, none⟩)

/-! ## In Redis -/

/-- The `cjson` of the script: the text of a record with a count and a reset time,
and the fields of a text, as far as they are numbers. -/
structure Cjson where
  Text : Type
  encode : Nat → Nat → Text
  decode : Text → Option Nat × Option Nat

/-- `%.14g`: a number is written with fourteen digits, the rest is rounded half to even. -/
def significant (n : Nat) : Nat :=
  let unit := 10 ^ (Nat.log 10 n - 13)
  let digits := n / unit
  if unit < 2 * (n % unit) ∨ unit = 2 * (n % unit) ∧ digits % 2 = 1 then (digits + 1) * unit else digits * unit

/-- `cjson` with the precision that Redis leaves it. -/
def redisCjson : Cjson where
  Text := Nat × Nat
  encode count resetAt := (significant count, significant resetAt)
  decode t := (some t.1, some t.2)

structure Redis (cjson : Cjson) where
  /-- The keys with their values and the deadlines of `PX`. -/
  keys : JsString → Option (cjson.Text × Nat)
  /-- The keys that are given up before the n-th call, if their deadline is over. -/
  expired : Nat → JsString → Bool
  calls : Nat

section Redis

variable {cjson : Cjson}

def Redis.expire (redis : Redis cjson) (now : Nat) : Redis cjson :=
  { redis with keys := fun key => (redis.keys key).filter fun value => !(redis.expired redis.calls key && decide (value.2 ≤ now)) }

/-- `CONSUME_LUA`, with `TIME` in milliseconds. -/
def consumeLua (redis : Redis cjson) (key : JsString) (ttlMs now : Nat) : Redis cjson × Nat × Nat × Nat :=
  let (count, resetAt) :=
    match redis.keys key with
    | none => (1, now + ttlMs)
    | some (raw, _) =>
      let count := (cjson.decode raw).1.getD 0
      let resetAt := (cjson.decode raw).2.getD (now + ttlMs)
      if resetAt ≤ now then (1, now + ttlMs) else (count + 1, resetAt)
  let ttlMsLeft := max (resetAt - now) 1
  ({ redis with keys := Function.update redis.keys key (some (cjson.encode count resetAt, now + ttlMsLeft)) },
    count, resetAt, ttlMsLeft)

/-- The store of a Redis whose clock reads the time of the input. -/
def redisThrottlerStore (cjson : Cjson) : ThrottlerStore (Redis cjson) where
  consume redis key input :=
    let (redis, count, resetAt, retryAfterMs) :=
      consumeLua (redis.expire input.now) key (input.ttlSeconds * 1000) input.now
    ({ redis with calls := redis.calls + 1 }, ⟨count, resetAt, some retryAfterMs⟩)

end Redis

/-! ## Both are window counters -/

abbrev Windows := JsString → Option Window

def windowStore : ThrottlerStore Windows where
  consume windows key input :=
    let window := FixedWindow.count (windows key) ⟨key, input.now, input.ttlSeconds * 1000⟩
    (Function.update windows key (some window), ⟨window.count, window.resetAt, none⟩)

/-- A store whose states stand for counters, at times that never go back. -/
structure Simulates {σ : Type} (store : ThrottlerStore σ) (stands : Nat → σ → Windows → Prop) : Prop where
  entry : ∀ {clock s windows} key input, stands clock s windows → clock ≤ input.now →
    (store.consume s key input).2.count = (windowStore.consume windows key input).2.count ∧
      (store.consume s key input).2.resetAt = (windowStore.consume windows key input).2.resetAt
  state : ∀ {clock s windows} key input, stands clock s windows → clock ≤ input.now →
    stands input.now (store.consume s key input).1 (windowStore.consume windows key input).1
  /-- What it says of the time left is what the reset time says. -/
  retry : ∀ s key input retryAfterMs, (store.consume s key input).2.retryAfterMs = some retryAfterMs →
    retryAfterMs = max ((store.consume s key input).2.resetAt - input.now) 1

/-- An entry is that of the counter, or both say that no window is open. -/
def Agrees (clock : Nat) (entry window : Option Window) : Prop :=
  entry = window ∨ entry = none ∧ ∀ w, window = some w → w.resetAt ≤ clock

theorem Agrees.later {clock now : Nat} {entry window : Option Window} (agrees : Agrees clock entry window)
    (later : clock ≤ now) : Agrees now entry window :=
  agrees.imp id fun ⟨absent, closed⟩ => ⟨absent, fun w is => Nat.le_trans (closed w is) later⟩

theorem consumeWindow_eq (entry : Option Window) (key : JsString) (input : ThrottlerConsumeInput) :
    consumeWindow entry input = FixedWindow.count entry ⟨key, input.now, input.ttlSeconds * 1000⟩ := by
  cases entry <;> rfl

theorem Agrees.count {clock : Nat} {entry window : Option Window} (agrees : Agrees clock entry window)
    {hit : Hit JsString} (later : clock ≤ hit.now) : FixedWindow.count entry hit = FixedWindow.count window hit := by
  rcases agrees with rfl | ⟨rfl, closed⟩
  · rfl
  · cases window with
    | none => rfl
    | some w => exact (count_of_closed (Nat.le_trans (closed w rfl) later)).symm

def MemoryStore.Stands (clock : Nat) (s : MemoryStore) (windows : Windows) : Prop :=
  ∀ key, Agrees clock (s.map.get key) (windows key)

theorem MemoryStore.Stands.sweep {clock now : Nat} {s : MemoryStore} {windows : Windows} (stands : s.Stands clock windows)
    (later : clock ≤ now) : (s.sweep now).Stands now windows := by
  intro key
  have agrees := (stands key).later later
  rw [MemoryStore.sweep]
  split
  · dsimp only [sweepExpiredEntries]
    cases found : s.map.get key with
    | none =>
      have gone : (s.map.filter fun _ entry => !decide (entry.resetAt ≤ now)).get key = none := by
        cases kept : (s.map.filter fun _ entry => !decide (entry.resetAt ≤ now)).get key with
        | none => rfl
        | some w =>
          rw [OrderedMap.get_filter_some, found] at kept
          cases kept.1
      rw [gone, ← found]
      exact agrees
    | some w =>
      by_cases closed : w.resetAt ≤ now
      · refine .inr ⟨?_, fun v is => ?_⟩
        · cases kept : (s.map.filter fun _ entry => !decide (entry.resetAt ≤ now)).get key with
          | none => rfl
          | some v =>
            rw [OrderedMap.get_filter_some, found] at kept
            obtain ⟨same, isOpen⟩ := kept
            cases same
            simp [closed] at isOpen
        · rcases agrees with same | ⟨none, -⟩
          · rw [found, is] at same
            cases same
            exact closed
          · rw [found] at none
            cases none
      · have kept : (s.map.filter fun _ entry => !decide (entry.resetAt ≤ now)).get key = some w :=
          OrderedMap.get_filter_some.mpr ⟨found, by simp [closed]⟩
        rw [kept, ← found]
        exact agrees
  · exact agrees

theorem memoryStore_simulates : Simulates createMemoryThrottlerStore MemoryStore.Stands where
  entry key input stands later := by
    have agrees := stands.sweep later key
    have same := (consumeWindow_eq _ key input).trans (agrees.count (Nat.le_refl input.now))
    exact ⟨congrArg Window.count same, congrArg Window.resetAt same⟩
  state {clock s windows} key input stands later := by
    have swept := stands.sweep later
    have same := (consumeWindow_eq _ key input).trans ((swept key).count (Nat.le_refl input.now))
    intro other
    dsimp only [createMemoryThrottlerStore, windowStore]
    rw [OrderedMap.get_set, same]
    by_cases here : other = key
    · subst here
      rw [if_pos rfl, Function.update_self]
      exact .inl rfl
    · rw [if_neg here, Function.update_of_ne here]
      exact swept other
  retry := nofun

theorem significant_of_lt {n : Nat} (few : n < 10 ^ 14) : significant n = n := by
  have small : Nat.log 10 n - 13 = 0 := by
    have := Nat.log_lt_of_lt_pow' (b := 10) (by decide) few
    omega
  simp [significant, small, Nat.mod_one]

theorem significant_pos {n : Nat} (pos : 0 < n) : 0 < significant n := by
  have unit_pos : 0 < 10 ^ (Nat.log 10 n - 13) := Nat.pow_pos (by decide)
  have le : 10 ^ (Nat.log 10 n - 13) ≤ n :=
    (Nat.pow_le_pow_right (by decide) (Nat.sub_le _ _)).trans (Nat.pow_log_le_self 10 (Nat.pos_iff_ne_zero.mp pos))
  have digits_pos : 0 < n / 10 ^ (Nat.log 10 n - 13) := Nat.div_pos le unit_pos
  rw [significant]
  split
  · exact Nat.mul_pos (Nat.succ_pos _) unit_pos
  · exact Nat.mul_pos digits_pos unit_pos

/-- The script reads of a window what it needs: of an open one what was to be written,
of a closed one that it is closed. -/
def ReadBack (w : Window) (now : Nat) : Prop :=
  if now < w.resetAt then significant w.count = w.count ∧ significant w.resetAt = w.resetAt
  else significant w.resetAt ≤ now

/-- A key holds the text of its counter until its window is closed, or is gone. -/
def Redis.Stands (clock : Nat) (redis : Redis redisCjson) (windows : Windows) : Prop :=
  ∀ key,
    (∃ w deadline, redis.keys key = some (redisCjson.encode w.count w.resetAt, deadline) ∧ windows key = some w ∧
        w.resetAt ≤ deadline) ∨
      redis.keys key = none ∧ ∀ w, windows key = some w → w.resetAt ≤ clock

theorem Redis.Stands.expire {clock now : Nat} {redis : Redis redisCjson} {windows : Windows}
    (stands : redis.Stands clock windows) (later : clock ≤ now) : (redis.expire now).Stands now windows := by
  intro key
  rcases stands key with ⟨w, deadline, held, is, closes⟩ | ⟨gone, closed⟩
  · by_cases dropped : (redis.expired redis.calls key && decide (deadline ≤ now)) = true
    · refine .inr ⟨?_, fun v is' => ?_⟩
      · show (redis.keys key).filter _ = none
        rw [held, Option.filter_some, dropped]
        rfl
      · rw [is] at is'
        cases is'
        rw [Bool.and_eq_true, decide_eq_true_eq] at dropped
        omega
    · refine .inl ⟨w, deadline, ?_, is, closes⟩
      show (redis.keys key).filter _ = _
      rw [held, Option.filter_some, eq_false_of_ne_true dropped]
      rfl
  · refine .inr ⟨?_, fun w is => Nat.le_trans (closed w is) later⟩
    show (redis.keys key).filter _ = none
    rw [gone]
    rfl

def consumed (redis : Redis redisCjson) (key : JsString) (now : Nat) (w : Window) : Redis redisCjson × Nat × Nat × Nat :=
  ({ redis with
      keys := Function.update redis.keys key (some (redisCjson.encode w.count w.resetAt, now + max (w.resetAt - now) 1)) },
    w.count, w.resetAt, max (w.resetAt - now) 1)

/-- The script counts in the window that the key stands for, if it can read it. -/
theorem consumeLua_eq {redis : Redis redisCjson} {windows : Windows} {now : Nat} (stands : redis.Stands now windows)
    (key : JsString) (ttlMs : Nat) (legible : ∀ w, windows key = some w → ReadBack w now) :
    consumeLua redis key ttlMs now = consumed redis key now (FixedWindow.count (windows key) ⟨key, now, ttlMs⟩) := by
  rcases stands key with ⟨w, deadline, held, is, -⟩ | ⟨gone, closed⟩
  · have reads := legible w is
    rw [ReadBack] at reads
    split at reads
    · next isOpen =>
      have notOver : ¬ w.resetAt ≤ now := Nat.not_le.mpr isOpen
      simp [consumeLua, consumed, held, is, redisCjson, reads.1, reads.2, FixedWindow.count, notOver]
    · next isClosed =>
      have over_ : w.resetAt ≤ now := Nat.not_lt.mp isClosed
      simp [consumeLua, consumed, held, is, redisCjson, reads, FixedWindow.count, over_]
  · cases is : windows key with
    | none => simp [consumeLua, consumed, gone, FixedWindow.count]
    | some w => simp [consumeLua, consumed, gone, FixedWindow.count, closed w is]

theorem redisStore_counts {redis : Redis redisCjson} {windows : Windows} {clock : Nat} (stands : redis.Stands clock windows)
    (key : JsString) (input : ThrottlerConsumeInput) (later : clock ≤ input.now)
    (legible : ∀ w, windows key = some w → ReadBack w input.now) :
    let next := (redisThrottlerStore redisCjson).consume redis key input
    let counted := windowStore.consume windows key input
    next.2.count = counted.2.count ∧ next.2.resetAt = counted.2.resetAt ∧ next.1.Stands input.now counted.1 := by
  have expired := stands.expire later
  have script := consumeLua_eq expired key (input.ttlSeconds * 1000) legible
  dsimp only [redisThrottlerStore]
  rw [script]
  refine ⟨rfl, rfl, fun other => ?_⟩
  by_cases here : other = key
  · subst here
    refine .inl ⟨_, _, Function.update_self _ _ _, Function.update_self _ _ _, ?_⟩
    omega
  · simp only [windowStore, consumed, Function.update_of_ne here]
    exact expired other

theorem redisStore_retry (s : Redis redisCjson) (key : JsString) (input : ThrottlerConsumeInput) (retryAfterMs : Nat)
    (is : ((redisThrottlerStore redisCjson).consume s key input).2.retryAfterMs = some retryAfterMs) :
    retryAfterMs = max (((redisThrottlerStore redisCjson).consume s key input).2.resetAt - input.now) 1 := by
  dsimp only [redisThrottlerStore, consumeLua] at is ⊢
  exact (Option.some.inj is).symm

/-- Redis has not given up any key: each counter has its text. -/
structure Redis.Holds (redis : Redis redisCjson) (windows : Windows) : Prop where
  kept : ∀ n key, redis.expired n key = false
  text : ∀ key, (redis.keys key).map Prod.fst = (windows key).map fun w => redisCjson.encode w.count w.resetAt
  counted : ∀ key w, windows key = some w → 0 < w.count

/-- A script that counts as the counter does has read its window back. -/
theorem redisStore_readBack {redis : Redis redisCjson} {windows : Windows} (holds : redis.Holds windows) (key : JsString)
    (input : ThrottlerConsumeInput)
    (sameCount : ((redisThrottlerStore redisCjson).consume redis key input).2.count = (windowStore.consume windows key input).2.count)
    (sameReset :
      ((redisThrottlerStore redisCjson).consume redis key input).2.resetAt = (windowStore.consume windows key input).2.resetAt)
    {w : Window} (is : windows key = some w) : ReadBack w input.now := by
  have counted := holds.counted key w is
  have positive := significant_pos counted
  have text := holds.text key
  rw [is] at text
  obtain ⟨⟨raw, deadline⟩, held, rfl⟩ := Option.map_eq_some_iff.mp text
  have stored : (redis.expire input.now).keys key = some (redisCjson.encode w.count w.resetAt, deadline) := by
    show (redis.keys key).filter _ = _
    rw [held, Option.filter_some, holds.kept]
    rfl
  have entry : ((redisThrottlerStore redisCjson).consume redis key input).2.count =
        (if significant w.resetAt ≤ input.now then 1 else significant w.count + 1) ∧
      ((redisThrottlerStore redisCjson).consume redis key input).2.resetAt =
        (if significant w.resetAt ≤ input.now then input.now + input.ttlSeconds * 1000 else significant w.resetAt) := by
    dsimp only [redisThrottlerStore, consumeLua]
    rw [stored]
    dsimp only [redisCjson, Option.getD_some]
    by_cases over_ : significant w.resetAt ≤ input.now
    · simp only [over_, if_true, and_self]
    · simp only [over_, if_false, and_self]
  rw [entry.1] at sameCount
  rw [entry.2] at sameReset
  simp only [windowStore, is, FixedWindow.count] at sameCount sameReset
  rw [ReadBack]
  by_cases closed : w.resetAt ≤ input.now
  · rw [if_neg (Nat.not_lt.mpr closed)]
    -- a window that seems open would be counted on
    by_contra above
    simp only [closed, above, if_true, if_false] at sameCount
    omega
  · rw [if_pos (Nat.not_le.mp closed)]
    have reads : ¬ significant w.resetAt ≤ input.now := by
      intro over_
      simp only [closed, over_, if_true, if_false] at sameCount
      omega
    simp only [closed, reads, if_false] at sameCount sameReset
    exact ⟨by omega, sameReset⟩

theorem Redis.Holds.consume {redis : Redis redisCjson} {windows : Windows} (holds : redis.Holds windows) (key : JsString)
    (input : ThrottlerConsumeInput)
    (sameCount : ((redisThrottlerStore redisCjson).consume redis key input).2.count = (windowStore.consume windows key input).2.count)
    (sameReset :
      ((redisThrottlerStore redisCjson).consume redis key input).2.resetAt = (windowStore.consume windows key input).2.resetAt) :
    ((redisThrottlerStore redisCjson).consume redis key input).1.Holds (windowStore.consume windows key input).1 where
  kept := holds.kept
  text other := by
    by_cases here : other = key
    · subst here
      dsimp only [redisThrottlerStore, consumeLua, windowStore] at sameCount sameReset ⊢
      rw [Function.update_self, Function.update_self, Option.map_some, Option.map_some, sameCount, sameReset]
    · have same := holds.text other
      dsimp only [redisThrottlerStore, consumeLua, windowStore]
      rw [Function.update_of_ne here, Function.update_of_ne here, ← same]
      show ((redis.keys other).filter _).map _ = _
      cases redis.keys other with
      | none => rfl
      | some value =>
        rw [Option.filter_some, holds.kept]
        rfl
  counted other v is := by
    by_cases here : other = key
    · subst here
      dsimp only [windowStore] at is
      rw [Function.update_self] at is
      cases is
      exact count_pos _ _
    · dsimp only [windowStore] at is
      rw [Function.update_of_ne here] at is
      exact holds.counted other v is

end Fluo.Throttler
