import Mathlib.Data.List.Basic

/-!
# Properties along a prototype chain

Objects are numbered in the order in which they are made, so a prototype comes
before its heirs. A property is read from the nearest object of the chain that has
it as its own. Two ways to update it are compared: writing to the record that a
read finds (`writeFound`), and writing to a copy of it (`writeOwn`). The second
gives every object the updates of its chain and no others; the first does so
exactly as long as no object updates what it inherits.
-/

namespace Fluo.Prototypes

structure Hierarchy where
  parent : Nat → Option Nat
  earlier : ∀ c p, parent c = some p → p < c

variable {α : Type} (H : Hierarchy)

def chainFrom : Nat → Nat → List Nat
  | 0, _ => []
  | n + 1, c =>
    c :: match H.parent c with
      | none => []
      | some p => chainFrom n p

/-- The object, its prototype, the prototype of that, and so on. -/
def chain (c : Nat) : List Nat := chainFrom H (c + 1) c

def lookupFrom (own : Nat → Option α) : Nat → Nat → Option (Nat × α)
  | 0, _ => none
  | n + 1, c =>
    match own c with
    | some r => some (c, r)
    | none =>
      match H.parent c with
      | none => none
      | some p => lookupFrom own n p

/-- The property as a read finds it, with the object that has it. -/
def lookup (own : Nat → Option α) (c : Nat) : Option (Nat × α) := lookupFrom H own (c + 1) c

def read (own : Nat → Option α) (c : Nat) : Option α := (lookup H own c).map Prod.snd

def assign (own : Nat → Option α) (c : Nat) (r : α) : Nat → Option α := fun a => if a = c then some r else own a

def writeFound (empty : α) (own : Nat → Option α) (c : Nat) (f : α → α) : Nat → Option α :=
  match lookup H own c with
  | some (a, r) => assign own a (f r)
  | none => assign own c (f empty)

def writeOwn (empty : α) (own : Nat → Option α) (c : Nat) (f : α → α) : Nat → Option α :=
  assign own c (f ((read H own c).getD empty))

/-- All updates of one object, in order. -/
def writeAll (write : (Nat → Option α) → Nat → (α → α) → Nat → Option α) (own : Nat → Option α) (c : Nat)
    (updates : List (α → α)) : Nat → Option α :=
  updates.foldl (fun own f => write own c f) own

/-- The own properties when the first objects are made. -/
def made (write : (Nat → Option α) → Nat → (α → α) → Nat → Option α) (updates : Nat → List (α → α)) :
    Nat → Nat → Option α
  | 0 => fun _ => none
  | n + 1 => writeAll write (made write updates n) n (updates n)

def applyAll (updates : List (α → α)) (r : α) : α := updates.foldl (fun r f => f r) r

/-- The updates of the chain, the root's first; nothing when there are none. -/
def intended (empty : α) (updates : Nat → List (α → α)) (c : Nat) : Option α :=
  if (chain H c).reverse.flatMap updates = [] then none
  else some (applyAll ((chain H c).reverse.flatMap updates) empty)

def Separate (updates : Nat → List (α → α)) (n : Nat) : Prop :=
  ∀ c < n, ∀ a ∈ chain H c, a ≠ c → updates a ≠ [] → updates c = []

variable {H}

/-! ## Chains and lookups -/

theorem chainFrom_succ (n c : Nat) : chainFrom H (n + 1) c = c :: match H.parent c with
    | none => []
    | some p => chainFrom H n p := rfl

theorem lookupFrom_succ (own : Nat → Option α) (n c : Nat) : lookupFrom H own (n + 1) c = match own c with
    | some r => some (c, r)
    | none => match H.parent c with
      | none => none
      | some p => lookupFrom H own n p := rfl

theorem chainFrom_eq {n m c : Nat} (hn : c < n) (hm : c < m) : chainFrom H n c = chainFrom H m c := by
  induction n generalizing m c with
  | zero => omega
  | succ n ih =>
    cases m with
    | zero => omega
    | succ m =>
      rw [chainFrom_succ, chainFrom_succ]
      cases e : H.parent c with
      | none => rfl
      | some p =>
        have lt := H.earlier c p e
        simp only [ih (m := m) (show p < n by omega) (by omega)]

theorem chain_root {c : Nat} (h : H.parent c = none) : chain H c = [c] := by
  rw [chain, chainFrom_succ, h]

theorem chain_heir {c p : Nat} (h : H.parent c = some p) : chain H c = c :: chain H p := by
  rw [chain, chainFrom_succ, h]
  exact congrArg (c :: ·) (chainFrom_eq (H.earlier c p h) (Nat.lt_succ_self p))

theorem lookupFrom_eq {own : Nat → Option α} {n m c : Nat} (hn : c < n) (hm : c < m) :
    lookupFrom H own n c = lookupFrom H own m c := by
  induction n generalizing m c with
  | zero => omega
  | succ n ih =>
    cases m with
    | zero => omega
    | succ m =>
      rw [lookupFrom_succ, lookupFrom_succ]
      cases own c with
      | some r => rfl
      | none =>
        cases e : H.parent c with
        | none => rfl
        | some p =>
          have lt := H.earlier c p e
          exact ih (by omega) (by omega)

theorem lookup_own {own : Nat → Option α} {c : Nat} {r : α} (h : own c = some r) : lookup H own c = some (c, r) := by
  rw [lookup, lookupFrom_succ, h]

theorem lookup_root {own : Nat → Option α} {c : Nat} (h : own c = none) (root : H.parent c = none) :
    lookup H own c = none := by
  rw [lookup, lookupFrom_succ, h, root]

theorem lookup_heir {own : Nat → Option α} {c p : Nat} (h : own c = none) (heir : H.parent c = some p) :
    lookup H own c = lookup H own p := by
  rw [lookup, lookupFrom_succ, h, heir]
  exact lookupFrom_eq (H.earlier c p heir) (Nat.lt_succ_self p)

theorem chain_induction {P : Nat → Prop} (root : ∀ c, H.parent c = none → P c)
    (heir : ∀ c p, H.parent c = some p → P p → P c) (c : Nat) : P c := by
  induction c using Nat.strongRecOn with
  | ind c ih =>
    cases e : H.parent c with
    | none => exact root c e
    | some p => exact heir c p e (ih p (H.earlier c p e))

theorem mem_chain_self (c : Nat) : c ∈ chain H c := by
  exact List.mem_cons_self

theorem le_of_mem_chain {a c : Nat} (h : a ∈ chain H c) : a ≤ c := by
  induction c using chain_induction (H := H) with
  | root c root => simp [chain_root root] at h; omega
  | heir c p heir ih =>
    rw [chain_heir heir, List.mem_cons] at h
    have := H.earlier c p heir
    rcases h with rfl | h
    · omega
    · exact Nat.le_trans (ih h) (by omega)

theorem lookup_congr {own own' : Nat → Option α} {c : Nat} (same : ∀ a ∈ chain H c, own a = own' a) :
    lookup H own c = lookup H own' c := by
  induction c using chain_induction (H := H) with
  | root c root =>
    have e := same c (mem_chain_self c)
    cases h : own c with
    | none => rw [lookup_root h root, lookup_root (e ▸ h) root]
    | some r => rw [lookup_own h, lookup_own (e ▸ h)]
  | heir c p heir ih =>
    have e := same c (mem_chain_self c)
    cases h : own c with
    | none =>
      rw [lookup_heir h heir, lookup_heir (e ▸ h) heir]
      exact ih fun a ha => same a (by rw [chain_heir heir]; exact List.mem_cons_of_mem c ha)
    | some r => rw [lookup_own h, lookup_own (e ▸ h)]

theorem lookup_some {own : Nat → Option α} {c a : Nat} {r : α} (h : lookup H own c = some (a, r)) :
    a ∈ chain H c ∧ own a = some r := by
  induction c using chain_induction (H := H) with
  | root c root =>
    cases e : own c with
    | none => rw [lookup_root e root] at h; cases h
    | some r' =>
      rw [lookup_own e] at h
      cases h
      exact ⟨mem_chain_self _, e⟩
  | heir c p heir ih =>
    cases e : own c with
    | none =>
      rw [lookup_heir e heir] at h
      rw [chain_heir heir]
      exact ⟨List.mem_cons_of_mem c (ih h).1, (ih h).2⟩
    | some r' =>
      rw [lookup_own e] at h
      cases h
      exact ⟨mem_chain_self _, e⟩

theorem lookup_eq_none {own : Nat → Option α} {c : Nat} :
    lookup H own c = none ↔ ∀ a ∈ chain H c, own a = none := by
  constructor
  · intro h a ha
    induction c using chain_induction (H := H) with
    | root c root =>
      rw [chain_root root, List.mem_singleton] at ha
      subst ha
      cases e : own a with
      | none => rfl
      | some r => rw [lookup_own e] at h; cases h
    | heir c p heir ih =>
      cases e : own c with
      | some r => rw [lookup_own e] at h; cases h
      | none =>
        rw [lookup_heir e heir] at h
        rw [chain_heir heir, List.mem_cons] at ha
        rcases ha with rfl | ha
        · exact e
        · exact ih h ha
  · intro h
    rw [@lookup_congr _ _ own (fun _ => none) c h]
    cases e : lookup H (fun _ => (none : Option α)) c with
    | none => rfl
    | some found => exact absurd (lookup_some e).2 nofun

/-! ## Copies -/

variable {empty : α} {own : Nat → Option α} {updates : Nat → List (α → α)}

@[simp] theorem assign_same (c : Nat) (r : α) : assign own c r c = some r := by
  simp [assign]

theorem assign_other {a c : Nat} (r : α) (h : a ≠ c) : assign own c r a = own a := by
  simp [assign, h]

theorem assign_assign (c : Nat) (r r' : α) : assign (assign own c r) c r' = assign own c r' := by
  funext a
  by_cases h : a = c <;> simp [assign, h]

@[simp] theorem read_assign_same (c : Nat) (r : α) : read H (assign own c r) c = some r := by
  simp [read, lookup_own (@assign_same _ own c r)]

theorem read_congr {own' : Nat → Option α} {c : Nat} (same : ∀ a ∈ chain H c, own a = own' a) :
    read H own c = read H own' c := by
  rw [read, read, lookup_congr same]

theorem writeAll_own (c : Nat) (fs : List (α → α)) (h : fs ≠ []) :
    writeAll (writeOwn H empty) own c fs = assign own c (applyAll fs ((read H own c).getD empty)) := by
  have later : ∀ (fs : List (α → α)) (r : α),
      writeAll (writeOwn H empty) (assign own c r) c fs = assign own c (applyAll fs r) := by
    intro fs
    induction fs with
    | nil => exact fun r => rfl
    | cons f rest ih =>
      intro r
      rw [writeAll, List.foldl_cons, writeOwn, read_assign_same, Option.getD_some, assign_assign]
      exact ih (f r)
  cases fs with
  | nil => exact absurd rfl h
  | cons f rest =>
    rw [writeAll, List.foldl_cons]
    exact later rest _

theorem made_own_apply {n : Nat} (a : Nat) (h : made (writeOwn H empty) updates n a ≠ none) :
    a < n ∧ updates a ≠ [] := by
  induction n with
  | zero => exact absurd rfl h
  | succ n ih =>
    rw [made] at h
    by_cases e : updates n = []
    · rw [e] at h
      exact ⟨Nat.lt_succ_of_lt (ih h).1, (ih h).2⟩
    · rw [writeAll_own n _ e] at h
      by_cases same : a = n
      · subst same
        exact ⟨Nat.lt_succ_self a, e⟩
      · rw [assign_other _ same] at h
        exact ⟨Nat.lt_succ_of_lt (ih h).1, (ih h).2⟩

theorem made_own_succ {n a : Nat} (h : a < n) :
    made (writeOwn H empty) updates (n + 1) a = made (writeOwn H empty) updates n a := by
  rw [made]
  by_cases e : updates n = []
  · rw [e]
    rfl
  · rw [writeAll_own n _ e, assign_other _ (by omega)]

theorem intended_root {c : Nat} (root : H.parent c = none) :
    intended H empty updates c = if updates c = [] then none else some (applyAll (updates c) empty) := by
  simp [intended, chain_root root]

theorem intended_heir {c p : Nat} (heir : H.parent c = some p) :
    intended H empty updates c = if updates c = [] then intended H empty updates p
      else some (applyAll (updates c) ((intended H empty updates p).getD empty)) := by
  have split : (chain H c).reverse.flatMap updates = (chain H p).reverse.flatMap updates ++ updates c := by
    simp [chain_heir heir, List.flatMap_append]
  unfold intended
  rw [split]
  by_cases own : updates c = []
  · simp [own]
  · by_cases above : (chain H p).reverse.flatMap updates = []
    · simp [own, above]
    · simp [own, above, applyAll, List.foldl_append]

theorem intended_congr {updates' : Nat → List (α → α)} {c : Nat} (same : ∀ a ∈ chain H c, updates a = updates' a) :
    intended H empty updates c = intended H empty updates' c := by
  have all : (chain H c).reverse.flatMap updates = (chain H c).reverse.flatMap updates' :=
    List.flatMap_congr fun a ha => same a (List.mem_reverse.mp ha)
  rw [intended, intended, all]

theorem read_made_own (n c : Nat) (h : c < n) :
    read H (made (writeOwn H empty) updates n) c = intended H empty updates c := by
  induction n generalizing c with
  | zero => omega
  | succ n ih =>
    have older : ∀ a < n, read H (made (writeOwn H empty) updates (n + 1)) a = intended H empty updates a := by
      intro a ha
      rw [← ih a ha]
      exact read_congr fun b hb => made_own_succ (Nat.lt_of_le_of_lt (le_of_mem_chain hb) ha)
    rcases Nat.lt_succ_iff_lt_or_eq.mp h with h | rfl
    · exact older c h
    have fresh : made (writeOwn H empty) updates c c = none := by
      by_contra some
      exact absurd (made_own_apply c some).1 (Nat.lt_irrefl c)
    rw [made]
    cases e : H.parent c with
    | none =>
      rw [intended_root e]
      by_cases idle : updates c = []
      · rw [if_pos idle, idle]
        simp [writeAll, read, lookup_root fresh e]
      · rw [if_neg idle, writeAll_own c _ idle, read_assign_same]
        simp [read, lookup_root fresh e]
    | some p =>
      have below := H.earlier c p e
      have inherited : read H (made (writeOwn H empty) updates c) c = intended H empty updates p := by
        rw [← ih p below, read, read, lookup_heir fresh e]
      rw [intended_heir e, ← inherited]
      by_cases idle : updates c = []
      · rw [if_pos idle, idle]
        rfl
      · rw [if_neg idle, writeAll_own c _ idle, read_assign_same]

/-! ## Records that are found -/

theorem writeFound_eq {c : Nat} (h : ∀ a r, lookup H own c = some (a, r) → a = c) (f : α → α) :
    writeFound H empty own c f = writeOwn H empty own c f := by
  unfold writeFound writeOwn read
  cases e : lookup H own c with
  | none => rfl
  | some found =>
    obtain ⟨a, r⟩ := found
    obtain rfl := h a r e
    rfl

theorem writeAll_found {c : Nat} (h : ∀ a r, lookup H own c = some (a, r) → a = c) (fs : List (α → α)) :
    writeAll (writeFound H empty) own c fs = writeAll (writeOwn H empty) own c fs := by
  induction fs generalizing own with
  | nil => rfl
  | cons f rest ih =>
    rw [writeAll, List.foldl_cons, writeFound_eq h, writeAll, List.foldl_cons]
    refine ih fun a r found => ?_
    rw [writeOwn, lookup_own (assign_same c _)] at found
    cases found
    rfl

/-- As long as no object updates what it inherits, writing to what is found is as
good as a copy. -/
theorem made_found_eq (n : Nat) (separate : Separate H updates n) :
    made (writeFound H empty) updates n = made (writeOwn H empty) updates n := by
  induction n with
  | zero => rfl
  | succ n ih =>
    have before : Separate H updates n := fun c hc => separate c (Nat.lt_succ_of_lt hc)
    rw [made, made, ih before]
    by_cases idle : updates n = []
    · rw [idle]
      rfl
    refine writeAll_found (fun a r found => ?_) _
    obtain ⟨mem, has⟩ := lookup_some found
    have some : made (writeOwn H empty) updates n a ≠ none := by
      rw [has]
      nofun
    have used := (made_own_apply a some).2
    by_contra other
    exact idle (separate n (Nat.lt_succ_self n) a mem other used)

/-! ## What leaks otherwise -/

theorem lookup_assign {a c : Nat} {r r' : α} (h : lookup H own c = some (a, r)) :
    lookup H (assign own a r') c = some (a, r') := by
  induction c using chain_induction (H := H) with
  | root c root =>
    cases e : own c with
    | none => rw [lookup_root e root] at h; cases h
    | some _ =>
      rw [lookup_own e] at h
      cases h
      exact lookup_own (assign_same _ _)
  | heir c p heir ih =>
    cases e : own c with
    | none =>
      rw [lookup_heir e heir] at h
      have other : c ≠ a := by
        rintro rfl
        rw [(lookup_some h).2] at e
        cases e
      rw [lookup_heir (by rw [assign_other _ other, e]) heir]
      exact ih h
    | some _ =>
      rw [lookup_own e] at h
      cases h
      exact lookup_own (assign_same _ _)

/-- A write lands on what is found, or on the object itself. -/
theorem writeFound_cases (H : Hierarchy) (empty : α) (own : Nat → Option α) (c : Nat) (f : α → α) :
    (∃ a r, lookup H own c = some (a, r) ∧ writeFound H empty own c f = assign own a (f r)) ∨
      lookup H own c = none ∧ writeFound H empty own c f = assign own c (f empty) := by
  unfold writeFound
  cases lookup H own c with
  | none => exact Or.inr ⟨rfl, rfl⟩
  | some found => exact Or.inl ⟨found.1, found.2, rfl, rfl⟩

theorem writeAll_found_at {a c : Nat} {r : α} (fs : List (α → α)) (h : lookup H own c = some (a, r)) :
    lookup H (writeAll (writeFound H empty) own c fs) c = some (a, applyAll fs r) ∧
      writeAll (writeFound H empty) own c fs = assign own a (applyAll fs r) := by
  induction fs generalizing own r with
  | nil =>
    refine ⟨h, funext fun b => ?_⟩
    by_cases e : b = a
    · rw [e, assign_same]
      exact (lookup_some h).2
    · rw [assign_other _ e]
      rfl
  | cons f rest ih =>
    have once : writeFound H empty own c f = assign own a (f r) := by simp [writeFound, h]
    rw [writeAll, List.foldl_cons, once]
    have rest := @ih (assign own a (f r)) (f r) (lookup_assign h)
    rw [assign_assign] at rest
    exact rest

theorem writeFound_mono {c a : Nat} {f : α → α} (h : own a ≠ none) : writeFound H empty own c f a ≠ none := by
  rcases writeFound_cases H empty own c f with ⟨b, x, -, e⟩ | ⟨-, e⟩
  all_goals
    rw [e, assign]
    split
    · nofun
    · exact h

theorem writeAll_mono {c a : Nat} (fs : List (α → α)) (h : own a ≠ none) :
    writeAll (writeFound H empty) own c fs a ≠ none := by
  induction fs generalizing own with
  | nil => exact h
  | cons f rest ih => exact ih (writeFound_mono h)

/-- What holds of the records, and of all that an update writes, holds after it. -/
theorem writeAll_found_keeps {P : Nat → α → Prop} {c : Nat} (fs : List (α → α))
    (writes : ∀ f ∈ fs, ∀ a r, P a r ∨ a = c → P a (f r)) (keeps : ∀ a r, own a = some r → P a r) (a : Nat) (r : α)
    (h : writeAll (writeFound H empty) own c fs a = some r) : P a r := by
  induction fs generalizing own with
  | nil => exact keeps a r h
  | cons f rest ih =>
    refine ih (fun f hf => writes f (List.mem_cons_of_mem _ hf)) (fun a r h => ?_) h
    change writeFound H empty own c f a = some r at h
    have writes := writes f List.mem_cons_self
    rcases writeFound_cases H empty own c f with ⟨b, x, found, e⟩ | ⟨-, e⟩
    · rw [e] at h
      by_cases same : a = b
      · subst same
        rw [assign_same] at h
        exact Option.some.inj h ▸ writes a x (Or.inl (keeps a x (lookup_some found).2))
      · rw [assign_other _ same] at h
        exact keeps a r h
    · rw [e] at h
      by_cases same : a = c
      · subst same
        rw [assign_same] at h
        exact Option.some.inj h ▸ writes a empty (Or.inr rfl)
      · rw [assign_other _ same] at h
        exact keeps a r h

/-- A record belongs to an object with updates, and an update has written it. -/
theorem made_found_some {Q : α → Prop} (n : Nat) (writes : ∀ c < n, ∀ f ∈ updates c, ∀ r, Q (f r)) (a : Nat) (r : α)
    (h : made (writeFound H empty) updates n a = some r) : updates a ≠ [] ∧ a < n ∧ Q r := by
  induction n generalizing a r with
  | zero => cases h
  | succ n ih =>
    refine writeAll_found_keeps (P := fun a r => updates a ≠ [] ∧ a < n + 1 ∧ Q r) (updates n) ?_ ?_ a r h
    · intro f hf a r before
      refine ⟨?_, ?_, writes n (Nat.lt_succ_self n) f hf r⟩
      · rcases before with before | rfl
        · exact before.1
        · exact List.ne_nil_of_mem hf
      · rcases before with before | rfl
        · exact before.2.1
        · exact Nat.lt_succ_self a
    · intro a r h
      have before := ih (fun c hc => writes c (Nat.lt_succ_of_lt hc)) a r h
      exact ⟨before.1, Nat.lt_succ_of_lt before.2.1, before.2.2⟩

theorem lookup_made_found {n c : Nat} (h : c < n) (used : updates c ≠ []) :
    lookup H (made (writeFound H empty) updates n) c ≠ none := by
  induction n with
  | zero => omega
  | succ n ih =>
    intro nothing
    have without := lookup_eq_none.mp nothing
    rcases Nat.lt_succ_iff_lt_or_eq.mp h with h | rfl
    · refine ih h (lookup_eq_none.mpr fun a ha => ?_)
      by_contra some
      exact writeAll_mono (updates n) some (without a ha)
    cases e : updates c with
    | nil => exact used e
    | cons f rest =>
      have first : ∃ a ∈ chain H c, writeFound H empty (made (writeFound H empty) updates c) c f a ≠ none := by
        rcases writeFound_cases H empty (made (writeFound H empty) updates c) c f with
          ⟨a, r, found, e⟩ | ⟨-, e⟩
        · exact ⟨a, (lookup_some found).1, by rw [e, assign_same]; nofun⟩
        · exact ⟨c, mem_chain_self c, by rw [e, assign_same]; nofun⟩
      obtain ⟨a, ha, some⟩ := first
      have later := without a ha
      rw [made, e] at later
      exact writeAll_mono rest some later

/-- Above an object without own record, some other object of its chain finds the
same as it does. -/
theorem exists_lookup_eq {c : Nat} (fresh : own c = none) (used : ∀ a, own a ≠ none → updates a ≠ [])
    (h : ∃ a ∈ chain H c, a ≠ c ∧ updates a ≠ []) :
    ∃ a ∈ chain H c, a ≠ c ∧ updates a ≠ [] ∧ lookup H own c = lookup H own a := by
  induction c using chain_induction (H := H) with
  | root c root =>
    obtain ⟨a, ha, other, -⟩ := h
    rw [chain_root root, List.mem_singleton] at ha
    exact absurd ha other
  | heir c p heir ih =>
    have below := H.earlier c p heir
    by_cases near : updates p = []
    · have none : own p = none := by
        by_contra some
        exact used p some near
      obtain ⟨a, ha, other, writes⟩ := h
      rw [chain_heir heir, List.mem_cons] at ha
      have ha := ha.resolve_left other
      have notp : a ≠ p := fun e => writes (e ▸ near)
      obtain ⟨b, hb, -, writes, same⟩ := ih none ⟨a, ha, notp, writes⟩
      refine ⟨b, by rw [chain_heir heir]; exact List.mem_cons_of_mem c hb, ?_, writes, ?_⟩
      · have := le_of_mem_chain hb
        omega
      · rw [lookup_heir fresh heir, same]
    · refine ⟨p, by rw [chain_heir heir]; exact List.mem_cons_of_mem c (mem_chain_self p), by omega, near, ?_⟩
      exact lookup_heir fresh heir

/-- Updates of what is inherited reach another object of the chain. -/
theorem writeFound_leaks {n : Nat} (h : ∃ a ∈ chain H n, a ≠ n ∧ updates a ≠ []) :
    ∃ a ∈ chain H n, a ≠ n ∧ updates a ≠ [] ∧
      ∃ r, read H (made (writeFound H empty) updates (n + 1)) a = some (applyAll (updates n) r) := by
  have some (a : Nat) (h : made (writeFound H empty) updates n a ≠ none) : updates a ≠ [] ∧ a < n := by
    obtain ⟨r, e⟩ := Option.ne_none_iff_exists'.mp h
    have := made_found_some (Q := fun _ => True) n (fun _ _ _ _ _ => trivial) a r e
    exact ⟨this.1, this.2.1⟩
  have fresh : made (writeFound H empty) updates n n = none := by
    by_contra has
    exact absurd (some n has).2 (Nat.lt_irrefl n)
  obtain ⟨a, ha, other, writes, same⟩ := exists_lookup_eq fresh (fun a h => (some a h).1) h
  refine ⟨a, ha, other, writes, ?_⟩
  have below : a < n := Nat.lt_of_le_of_ne (le_of_mem_chain ha) other
  cases e : lookup H (made (writeFound H empty) updates n) a with
  | none => exact absurd e (lookup_made_found below writes)
  | some found =>
    obtain ⟨b, r⟩ := found
    refine ⟨r, ?_⟩
    rw [made, (writeAll_found_at (updates n) (same.trans e)).2, read, lookup_assign e]
    rfl

end Fluo.Prototypes
