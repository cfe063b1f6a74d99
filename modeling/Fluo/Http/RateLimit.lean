import Fluo.Lib.OrderedMap
import Fluo.Lib.Run

/-!
# The rate limit middleware

Requests of one middleware instance over the in-memory store. Each runs from
one `await` to the next: it reads the clock and evicts, gets its entry, opens
a window or counts itself, and is then passed to `next()` or rejected. Times
are whole milliseconds; a fractional window or limit acts like a whole one.
-/

namespace Fluo.Http.RateLimit

variable {κ : Type} [DecidableEq κ]

structure RateLimitStoreEntry where
  count : Nat
  resetAt : Int
  deriving DecidableEq, Repr

structure RateLimitStore (κ : Type) [DecidableEq κ] where
  map : OrderedMap κ RateLimitStoreEntry
  nextSweepAt : Int

namespace RateLimitStore

def get (store : RateLimitStore κ) (key : κ) : Option RateLimitStoreEntry := store.map.get key

def set (store : RateLimitStore κ) (key : κ) (entry : RateLimitStoreEntry) : RateLimitStore κ :=
  { store with map := store.map.set key entry }

/-- The new count, 0 when there is no entry. -/
def increment (store : RateLimitStore κ) (key : κ) : RateLimitStore κ × Nat :=
  match store.map.get key with
  | none => (store, 0)
  | some entry =>
    ({ store with map := store.map.set key { entry with count := entry.count + 1 } }, entry.count + 1)

/-- The earliest `resetAt` that is left, 0 when nothing is left. -/
def nextSweep (map : OrderedMap κ RateLimitStoreEntry) : Int :=
  match map.values.map RateLimitStoreEntry.resetAt with
  | [] => 0
  | first :: rest => rest.foldl min first

def evict (store : RateLimitStore κ) (now : Int) : RateLimitStore κ :=
  if now < store.nextSweepAt then store
  else
    let map := store.map.filter fun _ entry => now < entry.resetAt
    ⟨map, nextSweep map⟩

theorem evict_get {store : RateLimitStore κ} {now : Int} {key : κ} {entry : RateLimitStoreEntry}
    (h : (store.evict now).get key = some entry) : store.get key = some entry := by
  unfold evict at h
  split at h
  · exact h
  · exact (OrderedMap.get_filter_some.mp h).1

theorem get_set (store : RateLimitStore κ) (key j : κ) (entry : RateLimitStoreEntry) :
    (store.set key entry).get j = if j = key then some entry else store.get j :=
  OrderedMap.get_set store.map key entry j

theorem increment_some {store : RateLimitStore κ} {key : κ} {entry : RateLimitStoreEntry}
    (h : store.get key = some entry) :
    store.increment key = (store.set key { entry with count := entry.count + 1 }, entry.count + 1) := by
  unfold increment
  rw [show store.map.get key = some entry from h]
  rfl

end RateLimitStore

inductive Stage
  | evicted
  | got (entry : Option RateLimitStoreEntry)
  | opened
  | counted (count : Nat) (resetAt : Int)
  | next
  | tooMany (retryAfter : Int)
  deriving DecidableEq, Repr

/-- A request; `opens` records that it has opened a window. -/
structure Request (κ : Type) where
  key : κ
  now : Int
  stage : Stage
  opens : Bool
  deriving DecidableEq, Repr

structure RateLimitOptions where
  limit : Int
  windowMs : Int

structure Sys (κ : Type) [DecidableEq κ] where
  store : RateLimitStore κ
  clock : Int
  requests : List (Request κ)

inductive Event (κ : Type)
  | handle (key : κ) (now : Int)
  | resume (i : Nat)

namespace Sys

variable (options : RateLimitOptions)

/-- `Math.ceil(ms / 1000)`. -/
def ceilSeconds (ms : Int) : Int := -((-ms) / 1000)

/-- Whether a request that got `entry` opens a window. -/
def startsWindow (now : Int) : Option RateLimitStoreEntry → Bool
  | none => true
  | some entry => entry.resetAt ≤ now

/-- One request goes on to its next `await`. -/
def resume (store : RateLimitStore κ) (r : Request κ) : RateLimitStore κ × Request κ :=
  match r.stage with
  | .evicted => (store, { r with stage := .got (store.get r.key) })
  | .got none => (store.set r.key ⟨1, r.now + options.windowMs⟩, { r with stage := .opened, opens := true })
  | .got (some entry) =>
    if entry.resetAt ≤ r.now then
      (store.set r.key ⟨1, r.now + options.windowMs⟩, { r with stage := .opened, opens := true })
    else
      let result := store.increment r.key
      (result.1, { r with stage := .counted result.2 entry.resetAt })
  | .opened =>
    (store, { r with stage := if options.limit < 1 then .tooMany (ceilSeconds options.windowMs) else .next })
  | .counted count resetAt =>
    (store, { r with stage :=
      if options.limit < count then .tooMany (ceilSeconds (resetAt - r.now)) else .next })
  | .next | .tooMany _ => (store, r)

def step (s : Sys κ) : Event κ → Option (Sys κ)
  | .handle key now =>
    if s.clock ≤ now then
      some ⟨s.store.evict now, now, s.requests ++ [⟨key, now, .evicted, false⟩]⟩
    else none
  | .resume i =>
    match s.requests[i]? with
    | none => none
    | some r =>
      let result := resume options s.store r
      some { s with store := result.1, requests := s.requests.set i result.2 }

/-- A fresh middleware at a reading of the clock. -/
def initial (clock : Int) : Sys κ := ⟨⟨OrderedMap.empty, 0⟩, clock, []⟩

/-- The reading of a request lies in the window opened at `start`. -/
def InWindow (start now : Int) : Prop := start ≤ now ∧ now < start + options.windowMs

instance (start now : Int) : Decidable (InWindow options start now) :=
  inferInstanceAs (Decidable (_ ∧ _))

def passed (s : Sys κ) (key : κ) (start : Int) : Nat :=
  s.requests.countP fun r => r.key = key ∧ r.stage = .next ∧ InWindow options start r.now

/-- Some request has opened a window for the key at this reading. -/
def Opens (s : Sys κ) (key : κ) (start : Int) : Prop :=
  ∃ q ∈ s.requests, q.opens = true ∧ q.key = key ∧ q.now = start

/-- No window lets more than `limit` requests through; a negative limit lets
none. -/
def AdmitsAtMost (s : Sys κ) : Prop :=
  ∀ key start, s.Opens key start → (s.passed options key start : Int) ≤ max options.limit 0

instance (s : Sys κ) (key : κ) (start : Int) : Decidable (s.Opens key start) :=
  inferInstanceAs (Decidable (∃ q ∈ s.requests, _))

/-- A request is decided against the window its reading lies in: it opens one
when every earlier one is over, and counts itself in one that is open. -/
def Decides (s : Sys κ) (r : Request κ) : Prop :=
  match r.stage with
  | .got entry =>
    if startsWindow r.now entry = true then
      ∀ q ∈ s.requests, q.opens = true → q.key = r.key → q.now + options.windowMs ≤ r.now
    else ∃ e ∈ s.store.get r.key, InWindow options (e.resetAt - options.windowMs) r.now
  | _ => True

instance (s : Sys κ) (r : Request κ) : Decidable (s.Decides options r) := by
  unfold Decides
  split <;> infer_instance

def Settled (s : Sys κ) : Event κ → Prop
  | .handle _ _ => True
  | .resume i => ∀ r ∈ s.requests[i]?, s.Decides options r

instance (s : Sys κ) : (e : Event κ) → Decidable (s.Settled options e)
  | .handle _ _ => isTrue trivial
  | .resume i => inferInstanceAs (Decidable (∀ r ∈ s.requests[i]?, _))

/-! ## What a request may still do -/

def Admitted (r : Request κ) : Bool :=
  match r.stage with
  | .opened => 1 ≤ options.limit
  | .counted count _ => (count : Int) ≤ options.limit
  | .next => true
  | _ => false

def admitted (s : Sys κ) (key : κ) (start : Int) : Nat :=
  s.requests.countP fun r => Admitted options r ∧ r.key = key ∧ InWindow options start r.now

structure Fair (s : Sys κ) : Prop where
  apart : ∀ key a b, s.Opens key a → s.Opens key b →
    a = b ∨ a + options.windowMs ≤ b ∨ b + options.windowMs ≤ a
  /-- An admitted request lies in a window, or opened one. -/
  inside : ∀ r ∈ s.requests, Admitted options r = true →
    ∃ a, s.Opens r.key a ∧ (InWindow options a r.now ∨ a = r.now)
  /-- An entry counts the admitted requests of its window. -/
  counted : ∀ key e, s.store.get key = some e →
    ∃ a, s.Opens key a ∧ e.resetAt = a + options.windowMs ∧ s.admitted options key a ≤ e.count
  limited : ∀ key a, s.Opens key a → (s.admitted options key a : Int) ≤ max options.limit 0

variable {options} {s : Sys κ} {i : Nat} {r r' : Request κ} {store : RateLimitStore κ}

/-! ## One request is replaced -/

theorem opens_replace (store : RateLimitStore κ) (r' : Request κ) (hr : s.requests[i]? = some r) (key : r'.key = r.key) (now : r'.now = r.now)
    (opens : r.opens = true → r'.opens = true) (k : κ) (a : Int) :
    Opens { s with store, requests := s.requests.set i r' } k a ↔
      s.Opens k a ∨ r'.opens = true ∧ r.key = k ∧ r.now = a := by
  have hi : i < s.requests.length := (List.getElem?_eq_some_iff.mp hr).1
  constructor
  · rintro ⟨q, hq, ho, hk, ha⟩
    rcases List.mem_or_eq_of_mem_set hq with hq | rfl
    · exact .inl ⟨q, hq, ho, hk, ha⟩
    · exact .inr ⟨ho, key ▸ hk, now ▸ ha⟩
  · rintro (⟨q, hq, ho, hk, ha⟩ | ⟨ho, hk, ha⟩)
    · obtain ⟨j, hj⟩ := List.getElem?_of_mem hq
      by_cases e : i = j
      · subst e
        have hqr : q = r := Option.some.inj (hj.symm.trans hr)
        subst hqr
        exact ⟨r', List.mem_set hi r', opens ho, key.trans hk, now.trans ha⟩
      · have hj' : (s.requests.set i r')[j]? = some q := by rw [List.getElem?_set_ne e]; exact hj
        exact ⟨q, List.mem_of_getElem? hj', ho, hk, ha⟩
    · exact ⟨r', List.mem_set hi r', ho, key.trans hk, now.trans ha⟩

theorem admitted_replace (options : RateLimitOptions) (store : RateLimitStore κ) (r' : Request κ)
    (hr : s.requests[i]? = some r) (key : r'.key = r.key) (now : r'.now = r.now)
    (k : κ) (a : Int) :
    admitted options { s with store, requests := s.requests.set i r' } k a +
        (if Admitted options r ∧ r.key = k ∧ InWindow options a r.now then 1 else 0) =
      s.admitted options k a +
        (if Admitted options r' ∧ r.key = k ∧ InWindow options a r.now then 1 else 0) := by
  obtain ⟨hi, rfl⟩ := List.getElem?_eq_some_iff.mp hr
  unfold admitted
  rw [List.countP_set hi]
  simp only [key, now, decide_eq_true_eq]
  have counted : (if Admitted options s.requests[i] ∧ s.requests[i].key = k ∧
      InWindow options a s.requests[i].now then 1 else 0) ≤ s.requests.countP fun r =>
        decide (Admitted options r ∧ r.key = k ∧ InWindow options a r.now) := by
    split
    · rename_i h
      exact List.countP_pos_iff.mpr ⟨s.requests[i], List.getElem_mem hi, decide_eq_true h⟩
    · exact Nat.zero_le _
  omega

/-- A request that neither opens a window nor changes whether it is admitted. -/
theorem Fair.same (h : Fair options s) (hr : s.requests[i]? = some r) (key : r'.key = r.key)
    (now : r'.now = r.now) (opens : r'.opens = r.opens) (same : Admitted options r' = Admitted options r) :
    Fair options { s with requests := s.requests.set i r' } := by
  have old (k : κ) (a : Int) : Opens { s with requests := s.requests.set i r' } k a ↔ s.Opens k a := by
    rw [opens_replace _ _ hr key now (fun e => opens.trans e) k a]
    constructor
    · rintro (h | ⟨ho, hk, ha⟩)
      · exact h
      · exact ⟨r, List.mem_of_getElem? hr, opens.symm.trans ho, hk, ha⟩
    · exact .inl
  have tally (k : κ) (a : Int) :
      admitted options { s with requests := s.requests.set i r' } k a = s.admitted options k a := by
    have := admitted_replace options s.store r' hr key now k a
    rw [same] at this
    exact Nat.add_right_cancel this
  constructor
  · intro k a b ha hb
    exact h.apart k a b ((old k a).mp ha) ((old k b).mp hb)
  · intro q hq hadm
    rcases List.mem_or_eq_of_mem_set hq with hq | rfl
    · obtain ⟨a, ha, hin⟩ := h.inside q hq hadm
      exact ⟨a, (old _ a).mpr ha, hin⟩
    · obtain ⟨a, ha, hin⟩ := h.inside r (List.mem_of_getElem? hr) (same ▸ hadm)
      rw [key, now]
      exact ⟨a, (old _ a).mpr ha, hin⟩
  · intro k e he
    obtain ⟨a, ha, hreset, hcount⟩ := h.counted k e he
    exact ⟨a, (old k a).mpr ha, hreset, by rw [tally]; exact hcount⟩
  · intro k a ha
    rw [tally]
    exact h.limited k a ((old k a).mp ha)

/-- A request opens a window when every earlier one is over. -/
theorem Fair.open (h : Fair options s) (hr : s.requests[i]? = some r) (fresh : Admitted options r = false)
    (past : ∀ start, s.Opens r.key start → start + options.windowMs ≤ r.now) :
    Fair options { s with
      store := s.store.set r.key ⟨1, r.now + options.windowMs⟩
      requests := s.requests.set i { r with stage := .opened, opens := true } } := by
  have opens := opens_replace (s.store.set r.key ⟨1, r.now + options.windowMs⟩) { r with stage := .opened, opens := true } hr rfl rfl (fun _ => rfl)
  have tally := admitted_replace options (s.store.set r.key ⟨1, r.now + options.windowMs⟩)
    { r with stage := .opened, opens := true } hr rfl rfl
  have admits : Admitted options { r with stage := .opened, opens := true } = decide (1 ≤ options.limit) := rfl
  simp only [fresh, admits, Bool.false_eq_true, false_and, ↓reduceIte, Nat.add_zero, decide_eq_true_eq] at tally
  -- Nobody was admitted yet with a reading in the new window.
  have empty : s.admitted options r.key r.now = 0 := by
    refine List.countP_eq_zero.mpr fun q hq hadm => ?_
    obtain ⟨hadm, hkey, from_now, before⟩ := of_decide_eq_true hadm
    obtain ⟨a, ha, hin⟩ := h.inside q hq hadm
    have := past a (hkey ▸ ha)
    rcases hin with ⟨-, hlt⟩ | rfl <;> omega
  -- The new reading lies in no earlier window.
  have other (a : Int) (ha : s.Opens r.key a) : ¬ InWindow options a r.now := by
    have := past a ha
    rintro ⟨-, hlt⟩
    omega
  constructor
  · intro k a b ha hb
    rcases (opens k a).mp ha with ha | ⟨-, hk, rfl⟩ <;> rcases (opens k b).mp hb with hb | ⟨-, hk', rfl⟩
    · exact h.apart k a b ha hb
    · exact .inr (.inl (past a (hk' ▸ ha)))
    · exact .inr (.inr (past b (hk ▸ hb)))
    · exact .inl rfl
  · intro q hq hadm
    rcases List.mem_or_eq_of_mem_set hq with hq | rfl
    · obtain ⟨a, ha, hin⟩ := h.inside q hq hadm
      exact ⟨a, (opens _ a).mpr (.inl ha), hin⟩
    · exact ⟨r.now, (opens _ _).mpr (.inr ⟨rfl, rfl, rfl⟩), .inr rfl⟩
  · intro k e he
    simp only [RateLimitStore.get_set] at he
    split at he
    · rename_i hk
      subst hk
      cases he
      refine ⟨r.now, (opens _ _).mpr (.inr ⟨rfl, rfl, rfl⟩), rfl, ?_⟩
      rw [tally, empty]
      split
      · exact Nat.le_refl 1
      · exact Nat.zero_le _
    · rename_i hk
      obtain ⟨a, ha, hreset, hcount⟩ := h.counted k e he
      refine ⟨a, (opens k a).mpr (.inl ha), hreset, ?_⟩
      have := tally k a
      rw [if_neg (fun c => hk c.2.1.symm)] at this
      omega
  · intro k a ha
    rw [tally]
    rcases (opens k a).mp ha with ha | ⟨-, rfl, rfl⟩
    · have := h.limited k a ha
      rw [if_neg]
      · exact this
      · rintro ⟨-, rfl, hin⟩
        exact other a ha hin
    · rw [empty]
      by_cases one : 1 ≤ options.limit ∧ r.key = r.key ∧ InWindow options r.now r.now
      · rw [if_pos one]
        have := one.1
        omega
      · rw [if_neg one]
        omega

/-- A request counts itself in the window its reading lies in. -/
theorem Fair.count (h : Fair options s) (hr : s.requests[i]? = some r) (fresh : Admitted options r = false)
    {e : RateLimitStoreEntry} (he : s.store.get r.key = some e)
    (hin : InWindow options (e.resetAt - options.windowMs) r.now) (resetAt : Int) :
    Fair options { s with
      store := s.store.set r.key { e with count := e.count + 1 }
      requests := s.requests.set i { r with stage := .counted (e.count + 1) resetAt } } := by
  have opens (k : κ) (a : Int) : Opens { s with
      store := s.store.set r.key { e with count := e.count + 1 }
      requests := s.requests.set i { r with stage := .counted (e.count + 1) resetAt } } k a ↔ s.Opens k a := by
    rw [opens_replace _ { r with stage := .counted (e.count + 1) resetAt } hr rfl rfl id k a]
    exact or_iff_left_of_imp fun ⟨ho, hk, ha⟩ => ⟨r, List.mem_of_getElem? hr, ho, hk, ha⟩
  have tally := admitted_replace options (s.store.set r.key { e with count := e.count + 1 })
    { r with stage := .counted (e.count + 1) resetAt } hr rfl rfl
  have admits : Admitted options { r with stage := .counted (e.count + 1) resetAt } =
      decide (((e.count + 1 : Nat) : Int) ≤ options.limit) := rfl
  simp only [fresh, admits, Bool.false_eq_true, false_and, ↓reduceIte, Nat.add_zero, decide_eq_true_eq] at tally
  obtain ⟨start, hstart, hreset, hcount⟩ := h.counted r.key e he
  have within : InWindow options start r.now := by
    have : e.resetAt - options.windowMs = start := by omega
    exact this ▸ hin
  -- The reading lies in the window of the entry only.
  have only (a : Int) (ha : s.Opens r.key a) (hin : InWindow options a r.now) : a = start := by
    have := h.apart r.key a start ha hstart
    obtain ⟨ha₁, ha₂⟩ := hin
    obtain ⟨hs₁, hs₂⟩ := within
    omega
  constructor
  · intro k a b ha hb
    exact h.apart k a b ((opens k a).mp ha) ((opens k b).mp hb)
  · intro q hq hadm
    rcases List.mem_or_eq_of_mem_set hq with hq | rfl
    · obtain ⟨a, ha, hin⟩ := h.inside q hq hadm
      exact ⟨a, (opens _ a).mpr ha, hin⟩
    · exact ⟨start, (opens _ _).mpr hstart, .inl within⟩
  · intro k e' he'
    simp only [RateLimitStore.get_set] at he'
    split at he'
    · rename_i hk
      subst hk
      cases he'
      refine ⟨start, (opens _ _).mpr hstart, hreset, ?_⟩
      have := tally r.key start
      split at this <;> simp only [] <;> omega
    · rename_i hk
      obtain ⟨a, ha, hreset', hcount'⟩ := h.counted k e' he'
      refine ⟨a, (opens k a).mpr ha, hreset', ?_⟩
      have := tally k a
      rw [if_neg (fun c => hk c.2.1.symm)] at this
      omega
  · intro k a ha
    have ha := (opens k a).mp ha
    have old := h.limited k a ha
    have := tally k a
    split at this
    · rename_i c
      obtain ⟨hlimit, rfl, hin⟩ := c
      have := only a ha hin
      subst this
      omega
    · omega

/-! ## The invariant is kept -/

theorem Fair.initial (clock : Int) : Fair options (initial clock : Sys κ) where
  apart key a b := by rintro ⟨q, hq, -⟩; cases hq
  inside r hr := by cases hr
  counted key e he := by cases he
  limited key a := by rintro ⟨q, hq, -⟩; cases hq

theorem Fair.handle (h : Fair options s) (key : κ) (now : Int) :
    Fair options ⟨s.store.evict now, now, s.requests ++ [⟨key, now, .evicted, false⟩]⟩ := by
  have opens (k : κ) (a : Int) :
      Opens ⟨s.store.evict now, now, s.requests ++ [⟨key, now, .evicted, false⟩]⟩ k a ↔ s.Opens k a := by
    constructor
    · rintro ⟨q, hq, ho, hk, ha⟩
      rcases List.mem_append.mp hq with hq | hq
      · exact ⟨q, hq, ho, hk, ha⟩
      · rw [List.mem_singleton.mp hq] at ho
        cases ho
    · rintro ⟨q, hq, rest⟩
      exact ⟨q, List.mem_append_left _ hq, rest⟩
  have tally (k : κ) (a : Int) : admitted options
      ⟨s.store.evict now, now, s.requests ++ [⟨key, now, .evicted, false⟩]⟩ k a = s.admitted options k a := by
    simp [admitted, List.countP_append, Admitted]
  constructor
  · intro k a b ha hb
    exact h.apart k a b ((opens k a).mp ha) ((opens k b).mp hb)
  · intro q hq hadm
    rcases List.mem_append.mp hq with hq | hq
    · obtain ⟨a, ha, hin⟩ := h.inside q hq hadm
      exact ⟨a, (opens _ a).mpr ha, hin⟩
    · rw [List.mem_singleton.mp hq] at hadm
      cases hadm
  · intro k e he
    obtain ⟨a, ha, hreset, hcount⟩ := h.counted k e (RateLimitStore.evict_get he)
    exact ⟨a, (opens k a).mpr ha, hreset, by rw [tally]; exact hcount⟩
  · intro k a ha
    rw [tally]
    exact h.limited k a ((opens k a).mp ha)

theorem Fair.step {e : Event κ} {t : Sys κ} (settled : s.Settled options e) (h : Fair options s)
    (hs : Sys.step options s e = some t) : Fair options t := by
  cases e with
  | handle key now =>
    simp only [Sys.step, Option.ite_none_right_eq_some, Option.some.injEq] at hs
    obtain ⟨-, rfl⟩ := hs
    exact h.handle key now
  | resume i =>
    simp only [Sys.step] at hs
    cases hr : s.requests[i]? with
    | none => rw [hr] at hs; cases hs
    | some r =>
      rw [hr] at hs
      cases hs
      have decides := settled r hr
      obtain ⟨key, now, stage, opens⟩ := r
      cases stage with
      | evicted => exact h.same hr rfl rfl rfl rfl
      | got entry =>
        have past (all : ∀ q ∈ s.requests, q.opens = true → q.key = key → q.now + options.windowMs ≤ now)
            (start : Int) : s.Opens key start → start + options.windowMs ≤ now := by
          rintro ⟨q, hq, ho, hk, rfl⟩
          exact all q hq ho hk
        cases entry with
        | none => exact h.open hr rfl (past decides)
        | some entry =>
          by_cases expired : entry.resetAt ≤ now
          · simp only [Decides, startsWindow, expired, decide_true, ↓reduceIte] at decides
            simp only [resume, if_pos expired]
            exact h.open hr rfl (past decides)
          · simp only [Decides, startsWindow, expired, decide_false, Bool.false_eq_true, ↓reduceIte] at decides
            obtain ⟨e, he, hin⟩ := decides
            simp only [resume, if_neg expired, RateLimitStore.increment_some he]
            exact h.count hr rfl he hin entry.resetAt
      | opened =>
        refine h.same hr rfl rfl rfl ?_
        by_cases past : options.limit < 1
        · have : ¬ 1 ≤ options.limit := by omega
          simp [resume, Admitted, past, this]
        · have : 1 ≤ options.limit := by omega
          simp [resume, Admitted, past, this]
      | counted count resetAt =>
        refine h.same hr rfl rfl rfl ?_
        by_cases past : options.limit < count
        · have : ¬ (count : Int) ≤ options.limit := by omega
          simp [resume, Admitted, past, this]
        · have : (count : Int) ≤ options.limit := by omega
          simp [resume, Admitted, past, this]
      | next => exact h.same hr rfl rfl rfl rfl
      | tooMany retryAfter => exact h.same hr rfl rfl rfl rfl

theorem passed_le (options : RateLimitOptions) (s : Sys κ) (key : κ) (start : Int) :
    s.passed options key start ≤ s.admitted options key start := by
  refine List.countP_mono_left fun r _ h => ?_
  obtain ⟨hkey, hnext, hin⟩ := of_decide_eq_true h
  exact decide_eq_true ⟨by rw [Admitted, hnext], hkey, hin⟩

/-- In a run whose requests are all decided against the window of their own
reading, no window lets more than `limit` requests through. -/
theorem admits_at_most {clock : Int} {es : List (Event κ)} {s : Sys κ}
    (settled : Run.Throughout (step options) (Settled options) (Sys.initial clock) es)
    (h : Run.run (step options) (Sys.initial clock) es = some s) : s.AdmitsAtMost options := by
  have fair : Fair options s := Run.keeps_throughout (fun _ _ _ => Fair.step) (.initial clock) settled h
  intro key start opened
  have := fair.limited key start opened
  have := passed_le options s key start
  omega

/-- One request after the other: the second finds the window full. -/
def sequentialRun : List (Event String) :=
  .handle "a" 0 :: List.replicate 3 (.resume 0) ++ .handle "a" 5 :: List.replicate 3 (.resume 1)

theorem sequential_admits_at_most : ∃ s, Run.run (step ⟨1, 10⟩) (Sys.initial 0) sequentialRun = some s ∧
    s.AdmitsAtMost ⟨1, 10⟩ ∧ s.requests.map Request.stage = [.next, .tooMany 1] := by
  have run := Option.eq_some_of_isSome
    (o := Run.run (step ⟨1, 10⟩) (Sys.initial 0) sequentialRun) (by decide)
  exact ⟨_, run, admits_at_most (by decide) run, by decide⟩

/-- Both requests get no entry before either opens a window. -/
def racingRun : List (Event String) :=
  [.handle "a" 0, .handle "a" 0, .resume 0, .resume 1, .resume 0, .resume 1, .resume 0, .resume 1]

theorem racing_requests_exceed_limit :
    ∃ s, Run.run (step ⟨1, 10⟩) (Sys.initial 0) racingRun = some s ∧ ¬ s.AdmitsAtMost ⟨1, 10⟩ := by
  have run := Option.eq_some_of_isSome
    (o := Run.run (step ⟨1, 10⟩) (Sys.initial 0) racingRun) (by decide)
  refine ⟨_, run, fun bounded => ?_⟩
  have := bounded "a" 0 (by decide)
  revert this
  decide

end Sys

end Fluo.Http.RateLimit
