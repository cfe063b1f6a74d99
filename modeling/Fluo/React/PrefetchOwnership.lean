import Fluo.React.Prefetch
import Mathlib.Data.List.Perm.Subperm

/-!
# Ownership of prefetched loads

Whatever the store is asked and whenever its loads complete, it keeps few loads
and results, hands a result out once and only for what it was loaded for, and
aborts a load only at the word of its last owner or of who ends the speculation.
-/

namespace Fluo.React.Prefetch

open Js Code

/-! ## Keys -/

theorem keyText_injective {generation generation' : Nat} {scope scope' address address' : JsString}
    (clean : 0 ∉ address) (clean' : 0 ∉ address')
    (same : keyText generation scope address = keyText generation' scope' address') :
    generation = generation' ∧ scope = scope' ∧ address = address' := by
  have free (n : Nat) : colon ∉ digitsIn 10 n := by
    intro mem
    have digit := List.all_eq_true.mp (digitsIn_all (by omega) (p := isDigit) (fun d less => digitChar_decimal less) n) _ mem
    exact absurd digit (by decide)
  have stop (l : JsString) : Stops (· = colon) (colon :: l) := rfl
  obtain ⟨digits, rest⟩ := readable_word _ _ _ _ (free generation) (free generation') (stop _) (stop _) same
  have numbers := congrArg (numberIn 10) digits
  rw [numberIn_digitsIn (by omega) (by omega), numberIn_digitsIn (by omega) (by omega)] at numbers
  have parts : (scope ++ 0 :: address) ++ 0 :: text "v2" = (scope' ++ 0 :: address') ++ 0 :: text "v2" := by
    simpa only [List.append_assoc, List.cons_append] using (List.cons.inj rest).2
  have parts := List.append_cancel_right parts
  have addresses := append_sep_injective clean clean' parts
  rw [addresses] at parts
  exact ⟨numbers, List.append_cancel_right parts, addresses⟩

/-- The load was made for the same session generation, scope and destination. -/
def MadeFor (load : Load) (boundary : Boundary) (destination : Url) : Prop :=
  load.generation = boundary.sessionGeneration ∧
    boundary.environment.bind (·.prefetchScope) = some load.scope ∧
    load.destination.address = destination.address

theorem scopedKey_some {boundary : Boundary} {destination : Url} {key scope : JsString}
    (h : scopedKey boundary destination = some (key, scope)) :
    boundary.environment.bind (·.prefetchScope) = some scope ∧
      key = keyText boundary.sessionGeneration scope destination.address := by
  rw [scopedKey] at h
  split at h
  · cases h
  · next environment connected =>
    split at h
    · cases h
    · next scope' inScope =>
      split at h
      · cases h
      · split at h
        · cases h
        · cases h
          exact ⟨by rw [connected, Option.bind_some, inScope], rfl⟩

def Load.Keyed (load : Load) : Prop := load.key = keyText load.generation load.scope load.destination.address

theorem Load.Keyed.madeFor {load : Load} (keyed : load.Keyed) {boundary : Boundary} {destination : Url}
    (same : keyFor boundary destination = some load.key) : MadeFor load boundary destination := by
  obtain ⟨⟨key, scope⟩, found, rfl⟩ := Option.map_eq_some_iff.mp same
  obtain ⟨inScope, written⟩ := scopedKey_some found
  obtain ⟨generations, scopes, addresses⟩ :=
    keyText_injective load.destination.clean destination.clean (keyed.symm.trans written)
  exact ⟨generations, scopes ▸ inScope, addresses⟩

/-! ## The invariant -/

variable {Time : Type}

/-- What holds of a load whether or not the store still knows it. -/
structure Load.Sound (load : Load) : Prop where
  alone : load.stored = true → load.aborted = false ∧ load.discarded = false ∧ load.adopted = false
  taken : load.handed ≤ 1
  kept : 0 < load.handed → load.stored = true

/-- What holds of a load that is registered. -/
structure Load.Pending (load : Load) : Prop where
  running : load.through = false
  held : load.discarded = false
  unstored : load.stored = false
  aborts : load.aborted = true → load.adopted = true
  owned : load.owners ≠ []

structure Inv (s : Store Time) : Prop where
  few : s.prefetched.entries.length ≤ 4
  bounded : s.cached.entries.length ≤ 32
  keyed : ∀ i < s.loads.size, (s.loads.get i).Keyed
  sound : ∀ i, (s.loads.get i).Sound
  pending : ∀ {key i}, s.prefetched.get key = some i →
    i < s.loads.size ∧ (s.loads.get i).key = key ∧ (s.loads.get i).Pending
  waiting : ∀ {key completed}, s.cached.get key = some completed →
    completed.result < s.loads.size ∧ (s.loads.get completed.result).key = key ∧
      (s.loads.get completed.result).stored = true ∧ (s.loads.get completed.result).handed = 0

theorem entries_le {κ ν μ : Type} [DecidableEq κ] {m : OrderedMap κ ν} {m' : OrderedMap κ μ}
    (sub : ∀ k, m.has k = true → m'.has k = true) : m.entries.length ≤ m'.entries.length := by
  have le := (m.distinct.subperm fun k mem => OrderedMap.mem_keys.mpr (sub k (OrderedMap.mem_keys.mp mem)) :
    m.keys.Subperm m'.keys).length_le
  simpa only [OrderedMap.keys, List.length_map] using le

theorem Inv.initial : Inv (.initial : Store Time) where
  few := Nat.zero_le 4
  bounded := Nat.zero_le 32
  keyed := nofun
  sound _ := ⟨nofun, Nat.zero_le 1, nofun⟩
  pending := nofun
  waiting := nofun

theorem Inv.forget {s : Store Time} (h : Inv s) {prefetched : OrderedMap JsString Nat}
    {cached : OrderedMap JsString (CompletedPrefetch Time)}
    (fewer : ∀ {key i}, prefetched.get key = some i → s.prefetched.get key = some i)
    (less : ∀ {key completed}, cached.get key = some completed → s.cached.get key = some completed) :
    Inv { s with prefetched := prefetched, cached := cached } where
  few := by
    refine (entries_le fun k known => ?_).trans h.few
    obtain ⟨i, got⟩ := Option.isSome_iff_exists.mp known
    exact Option.isSome_iff_exists.mpr ⟨i, fewer got⟩
  bounded := by
    refine (entries_le fun k known => ?_).trans h.bounded
    obtain ⟨completed, got⟩ := Option.isSome_iff_exists.mp known
    exact Option.isSome_iff_exists.mpr ⟨completed, less got⟩
  keyed := h.keyed
  sound := h.sound
  pending got := h.pending (fewer got)
  waiting got := h.waiting (less got)

/-- What a change of one load has to keep. -/
structure Fits (s : Store Time) (i : Nat) (load : Load) : Prop where
  made : (s.loads.get i).key = load.key ∧ ((s.loads.get i).Keyed → load.Keyed)
  sound : load.Sound
  pending : ∀ {key}, s.prefetched.get key = some i → load.Pending
  waiting : ∀ {key completed}, s.cached.get key = some completed → completed.result = i →
    load.stored = true ∧ load.handed = 0

theorem Inv.modify {s : Store Time} (h : Inv s) {i : Nat} {f : Load → Load} (fits : Fits s i (f (s.loads.get i))) :
    Inv { s with loads := s.loads.modify i f } where
  few := h.few
  bounded := h.bounded
  keyed j less := by
    rw [Heap.get_modify]
    split
    · next same => exact fits.made.2 (same ▸ h.keyed j less)
    · exact h.keyed j less
  sound j := by
    rw [Heap.get_modify]
    split
    · exact fits.sound
    · exact h.sound j
  pending {key j} got := by
    obtain ⟨less, named, pending⟩ := h.pending got
    refine ⟨less, ?_⟩
    dsimp only
    rw [Heap.get_modify]
    split
    · next same =>
      subst same
      exact ⟨fits.made.1.symm.trans named, fits.pending got⟩
    · exact ⟨named, pending⟩
  waiting {key completed} got := by
    obtain ⟨less, named, stored, unhanded⟩ := h.waiting got
    refine ⟨less, ?_⟩
    dsimp only
    rw [Heap.get_modify]
    split
    · next same =>
      obtain ⟨stored, unhanded⟩ := fits.waiting got same
      exact ⟨fits.made.1.symm.trans (same ▸ named), stored, unhanded⟩
    · exact ⟨named, stored, unhanded⟩

/-! ## What the operations keep -/

variable {s : Store Time}

theorem Inv.unregistered (h : Inv s) {key : JsString} {i : Nat} (got : s.prefetched.get key = some i) {key' : JsString}
    (other : (s.prefetched.erase key).get key' = some i) : False := by
  rw [OrderedMap.get_erase] at other
  split at other
  · cases other
  · next differs => exact differs ((h.pending other).2.1.symm.trans (h.pending got).2.1)

theorem Inv.uncached (h : Inv s) {i : Nat} (unstored : (s.loads.get i).stored = false) {key : JsString}
    {completed : CompletedPrefetch Time} (got : s.cached.get key = some completed) : completed.result ≠ i := by
  rintro rfl
  rw [(h.waiting got).2.2.1] at unstored
  cases unstored

theorem erase_get {ν : Type} {m : OrderedMap JsString ν} {key k : JsString} {v : ν}
    (got : (m.erase key).get k = some v) : m.get k = some v := by
  rw [OrderedMap.get_erase] at got
  split at got
  · cases got
  · exact got

theorem Load.Sound.of_unstored {load : Load} (sound : load.Sound) (unstored : load.stored = false) {load' : Load}
    (unstored' : load'.stored = false) (handed : load'.handed = load.handed) : load'.Sound where
  alone stored := by
    rw [unstored'] at stored
    cases stored
  taken := handed ▸ sound.taken
  kept pos := by
    rw [sound.kept (handed ▸ pos)] at unstored
    cases unstored

theorem Inv.drop (h : Inv s) {key : JsString} {i : Nat} (got : s.prefetched.get key = some i) : Inv (s.drop key i) := by
  have unstored := (h.pending got).2.2.unstored
  have forgot : Inv { s with prefetched := s.prefetched.erase key } := h.forget erase_get id
  refine forgot.modify ⟨⟨rfl, id⟩, (h.sound i).of_unstored unstored unstored rfl, fun other => ?_, fun stored same => ?_⟩
  · exact (h.unregistered got other).elim
  · exact absurd same (h.uncached unstored stored)

theorem discardEntries_inv (except : Option JsString) (l : List (JsString × Nat)) {s : Store Time} (h : Inv s)
    (distinct : (l.map Prod.fst).Nodup) (standing : ∀ entry ∈ l, s.prefetched.get entry.1 = some entry.2) :
    Inv (l.foldl (Store.discardEntry except) s) := by
  induction l generalizing s with
  | nil => exact h
  | cons entry l ih =>
    obtain ⟨fresh, distinct⟩ := List.nodup_cons.mp distinct
    rw [List.foldl_cons]
    rw [Store.discardEntry]
    split
    · exact ih h distinct fun other mem => standing other (List.mem_cons_of_mem entry mem)
    · refine ih (h.drop (standing entry List.mem_cons_self)) distinct fun other mem => ?_
      have differs : other.1 ≠ entry.1 := fun same => fresh (same ▸ List.mem_map_of_mem mem)
      rw [Store.drop, OrderedMap.get_erase, if_neg differs]
      exact standing other (List.mem_cons_of_mem entry mem)

theorem Inv.discard (h : Inv s) (except : Option JsString) : Inv (s.discard except) :=
  discardEntries_inv except _ h s.prefetched.distinct fun _ mem => OrderedMap.mem_entries.mp mem

theorem Inv.invalidate (h : Inv s) : Inv s.invalidate :=
  (h.forget id nofun : Inv { s with cached := .empty }).discard none

theorem Inv.detach (h : Inv s) : Inv s.detach := by
  have let_go (l : List Nat) (loads : Heap Load) (inv : Inv (⟨.empty, .empty, loads⟩ : Store Time))
      (unstored : ∀ i ∈ l, (loads.get i).stored = false) :
      Inv (⟨.empty, .empty, l.foldl (fun loads i => loads.modify i fun load => { load with discarded := true }) loads⟩ :
        Store Time) := by
    induction l generalizing loads with
    | nil => exact inv
    | cons i l ih =>
      have here := unstored i List.mem_cons_self
      rw [List.foldl_cons]
      refine ih _ (inv.modify ⟨⟨rfl, id⟩, (inv.sound i).of_unstored here here rfl, nofun, nofun⟩) fun j mem => ?_
      rw [Heap.get_modify_proj loads i _ (·.stored) rfl]
      exact unstored j (List.mem_cons_of_mem i mem)
  have forgot : Inv (⟨.empty, .empty, s.loads⟩ : Store Time) := h.forget nofun nofun
  refine let_go _ _ forgot fun i mem => ?_
  obtain ⟨key, got⟩ := OrderedMap.mem_values.mp mem
  exact (h.pending got).2.2.unstored

theorem trimmed_get {cached : OrderedMap JsString (CompletedPrefetch Time)} {key : JsString}
    {completed : CompletedPrefetch Time} (got : (Store.trimmed cached).get key = some completed) :
    cached.get key = some completed := by
  rw [Store.trimmed] at got
  split at got
  · exact erase_get got
  · exact got

theorem trimmed_length {cached : OrderedMap JsString (CompletedPrefetch Time)} (few : cached.entries.length ≤ 33) :
    (Store.trimmed cached).entries.length ≤ 32 := by
  rw [Store.trimmed]
  split
  · next many =>
    obtain ⟨⟨key, completed⟩, rest, shape⟩ : ∃ e rest, cached.entries = e :: rest :=
      List.exists_cons_of_length_pos (by omega)
    have head : cached.keys.headD [] = key := by rw [OrderedMap.keys, shape]; rfl
    have shorter : (cached.erase key).entries.length ≤ rest.length := by
      show (cached.entries.filter _).length ≤ _
      rw [shape, List.filter_cons_of_neg (by simp)]
      exact List.length_filter_le _ _
    have total : cached.entries.length = rest.length + 1 := by rw [shape, List.length_cons]
    rw [head]
    omega
  · next fits => omega

theorem set_length {ν : Type} (m : OrderedMap JsString ν) (key : JsString) (v : ν) :
    (m.set key v).entries.length ≤ m.entries.length + 1 := by
  have keys := OrderedMap.write_keys key v m.entries
  have lengths := congrArg List.length keys
  rw [List.length_map] at lengths
  show (OrderedMap.write key v m.entries).length ≤ _
  rw [lengths]
  split
  · rw [List.length_map]
    omega
  · rw [List.length_append, List.length_map, List.length_singleton]

theorem Inv.cancel (h : Inv s) (boundary : Boundary) (destination : Url) (owner : Nat) :
    Inv (s.cancel boundary destination owner) := by
  rw [Store.cancel]
  split
  · exact h
  · next key named =>
    split
    · exact h
    · next i got =>
      split
      · exact h
      · have pending := (h.pending got).2.2
        have sound := h.sound i
        have uncached {key' : JsString} {completed : CompletedPrefetch Time} (stored : s.cached.get key' = some completed) :=
          h.uncached pending.unstored stored
        dsimp only
        split
        · have forgot : Inv { s with prefetched := s.prefetched.erase key } := h.forget erase_get id
          have left : Inv ({ s with
              prefetched := s.prefetched.erase key
              loads := s.loads.modify i fun load => { load with owners := load.owners.erase owner } } : Store Time) :=
            forgot.modify ⟨⟨rfl, id⟩, sound.of_unstored pending.unstored pending.unstored rfl,
              fun other => (h.unregistered got other).elim, fun stored same => absurd same (uncached stored)⟩
          refine left.modify ⟨⟨rfl, id⟩, ?_, fun other => (h.unregistered got other).elim,
            fun stored same => absurd same (uncached stored)⟩
          dsimp only
          rw [Heap.get_modify_self]
          exact sound.of_unstored pending.unstored pending.unstored rfl
        · next left =>
          rw [Heap.get_modify_self] at left
          exact h.modify ⟨⟨rfl, id⟩, sound.of_unstored pending.unstored pending.unstored rfl,
            fun _ => ⟨pending.running, pending.held, pending.unstored, pending.aborts, left⟩,
            fun stored same => absurd same (uncached stored)⟩

theorem Inv.abort (h : Inv s) (i : Nat) : Inv (s.abort i) := by
  rw [Store.abort]
  split
  · next gone =>
    have sound := h.sound i
    have unstored : (s.loads.get i).stored = false := by
      by_contra stored
      obtain ⟨-, held, unadopted⟩ := sound.alone (by simpa using stored)
      rw [held, unadopted] at gone
      simp at gone
    refine h.modify ⟨⟨rfl, id⟩, sound.of_unstored unstored unstored rfl, fun got => ?_,
      fun stored same => absurd same (h.uncached unstored stored)⟩
    have pending := (h.pending got).2.2
    refine ⟨pending.running, pending.held, pending.unstored, fun _ => gone.resolve_right ?_, pending.owned⟩
    rw [pending.held]
    exact Bool.false_ne_true
  · exact h

theorem addOwner_ne_nil {owner : Nat} {owners : List Nat} (some_ : owners ≠ []) : Store.addOwner owner owners ≠ [] := by
  rw [Store.addOwner]
  split
  · exact some_
  · exact List.append_ne_nil_of_left_ne_nil some_ _

theorem Inv.register (h : Inv s) {load : Load} {owner : Nat} {throws : Bool} (keyed : load.Keyed)
    (fresh : load.adopted = false ∧ load.aborted = false ∧ load.discarded = false ∧ load.stored = false ∧
      load.handed = 0 ∧ load.through = false) (owned : load.owners ≠ []) : Inv (s.register load owner throws) := by
  obtain ⟨unadopted, unaborted, held, unstored, unhanded, running⟩ := fresh
  rw [Store.register]
  split
  · next i got =>
    have pending := (h.pending got).2.2
    exact h.modify ⟨⟨rfl, id⟩, (h.sound i).of_unstored pending.unstored pending.unstored rfl,
      fun _ => ⟨pending.running, pending.held, pending.unstored, pending.aborts, addOwner_ne_nil pending.owned⟩,
      fun stored same => absurd same (h.uncached pending.unstored stored)⟩
  · next unknown =>
    split
    · exact h
    · next room =>
      split
      · exact h
      · have old {i : Nat} (less : i < s.loads.size) : (s.loads.push load).get i = s.loads.get i :=
          Heap.get_push_lt load less
        refine ⟨?_, h.bounded, fun i less => ?_, fun i => ?_, fun {key i} got => ?_, fun {key completed} got => ?_⟩
        · dsimp only
          rw [OrderedMap.entries_set_of_absent _ unknown, List.length_append, List.length_singleton]
          omega
        · dsimp only at less ⊢
          rw [Heap.get_push]
          split
          · exact keyed
          · exact h.keyed i (by rw [Heap.push_size] at less; omega)
        · dsimp only
          rw [Heap.get_push]
          split
          · refine ⟨fun stored => ?_, by omega, fun pos => by omega⟩
            rw [unstored] at stored
            cases stored
          · exact h.sound i
        · dsimp only at got ⊢
          rw [OrderedMap.get_set] at got
          split at got
          · next same =>
            cases got
            rw [Heap.get_push_self]
            refine ⟨Nat.lt_succ_self _, same.symm, running, held, unstored, fun aborted => ?_, owned⟩
            rw [unaborted] at aborted
            cases aborted
          · obtain ⟨less, rest⟩ := h.pending got
            rw [old less]
            exact ⟨Nat.lt_succ_of_lt less, rest⟩
        · obtain ⟨less, rest⟩ := h.waiting got
          dsimp only
          rw [old less]
          exact ⟨Nat.lt_succ_of_lt less, rest⟩

section

variable [LT Time] [DecidableLT Time]

theorem Inv.adopt (h : Inv s) (key : Option JsString) (now : Time) : Inv (s.adopt key now) := by
  unfold Store.adopt
  split
  · exact h
  · next key =>
    split
    · next i got =>
      have pending := (h.pending got).2.2
      refine h.modify ⟨⟨rfl, id⟩, (h.sound i).of_unstored pending.unstored pending.unstored rfl, fun _ => ?_,
        fun stored same => absurd same (h.uncached pending.unstored stored)⟩
      exact ⟨pending.running, pending.held, pending.unstored, fun _ => rfl, pending.owned⟩
    · next idle =>
      split
      · exact h
      · next completed got =>
        have forgot : Inv { s with cached := s.cached.erase key } := h.forget id erase_get
        dsimp only
        split
        · obtain ⟨less, named, stored, unhanded⟩ := h.waiting got
          have sound := h.sound completed.result
          refine forgot.modify ⟨⟨rfl, id⟩, ⟨sound.alone, ?_, fun _ => stored⟩, fun registered => ?_, fun cached same => ?_⟩
          · show (s.loads.get completed.result).handed + 1 ≤ 1
            omega
          · have unstored := (h.pending registered).2.2.unstored
            rw [stored] at unstored
            cases unstored
          · next key' completed' =>
            dsimp only at cached
            rw [OrderedMap.get_erase] at cached
            split at cached
            · cases cached
            · next differs =>
              have named' := (h.waiting cached).2.1
              rw [same] at named'
              exact absurd (named'.symm.trans named) differs
        · exact forgot

theorem Inv.prefetch (h : Inv s) (boundary : Boundary) (destination : Url) (owner : Nat) (now : Time) (throws : Bool) :
    Inv (s.prefetch boundary destination owner now throws) := by
  rw [Store.prefetch]
  split
  · exact h
  · next key scope found =>
    have keyed := (scopedKey_some found).2
    dsimp only
    split
    · exact h.register keyed ⟨rfl, rfl, rfl, rfl, rfl, rfl⟩ (List.cons_ne_nil _ _)
    · next completed got =>
      split
      · refine h.forget id fun {key' completed'} again => ?_
        rw [OrderedMap.get_set] at again
        split at again
        · next same => rw [same, got, ← again]
        · exact erase_get again
      · exact (h.forget id erase_get : Inv { s with cached := s.cached.erase key }).register keyed
          ⟨rfl, rfl, rfl, rfl, rfl, rfl⟩ (List.cons_ne_nil _ _)

theorem Inv.complete (h : Inv s) (i : Nat) (outcome : Outcome Time) (now : Time) : Inv (s.complete i outcome now) := by
  rw [Store.complete]
  dsimp only
  split
  · exact h
  · next runs =>
    obtain ⟨running, made⟩ := not_or.mp runs
    have sound := h.sound i
    have less : i < s.loads.size := by omega
    split
    · next replaced =>
      refine h.modify ⟨⟨rfl, id⟩, ⟨sound.alone, sound.taken, sound.kept⟩, fun {key} got => ?_, fun got same => ?_⟩
      · rw [(h.pending got).2.1] at replaced
        exact absurd got replaced
      · obtain ⟨-, -, stored, unhanded⟩ := h.waiting got
        exact same ▸ ⟨stored, unhanded⟩
    · next found =>
      have got := not_not.mp found
      have pending := (h.pending got).2.2
      have forgot : Inv { s with prefetched := s.prefetched.erase (s.loads.get i).key } := h.forget erase_get id
      have settled : Inv ({ s with
          prefetched := s.prefetched.erase (s.loads.get i).key
          loads := s.loads.modify i fun load => { load with through := true } } : Store Time) :=
        forgot.modify ⟨⟨rfl, id⟩, sound.of_unstored pending.unstored pending.unstored rfl,
          fun other => (h.unregistered got other).elim, fun stored same => absurd same (h.uncached pending.unstored stored)⟩
      split
      · next prefetchExpiresAt =>
        split
        · next kept =>
          obtain ⟨unadopted, unaborted, -⟩ := kept
          have unhanded : (s.loads.get i).handed = 0 := by
            by_contra pos
            have stored := sound.kept (by omega)
            rw [pending.unstored] at stored
            cases stored
          have here (j : Nat) : ((s.loads.modify i fun load => { load with through := true }).modify i
              fun load => { load with stored := true }).get j =
                if j = i then { s.loads.get i with through := true, stored := true } else s.loads.get j := by
            rw [Heap.get_modify]
            split
            · rw [Heap.get_modify_self]
            · next differs => rw [Heap.get_modify_ne _ _ differs]
          refine ⟨settled.few, trimmed_length ?_, fun j below => ?_, fun j => ?_, fun {key j} known => ?_,
            fun {key completed} known => ?_⟩
          · refine (set_length _ _ _).trans (Nat.succ_le_succ ?_)
            exact (entries_le fun k known => by
              obtain ⟨c, got⟩ := Option.isSome_iff_exists.mp known
              exact Option.isSome_iff_exists.mpr ⟨c, erase_get got⟩ : _ ≤ s.cached.entries.length).trans h.bounded
          · dsimp only at below ⊢
            rw [here]
            split
            · exact h.keyed i less
            · exact h.keyed j below
          · dsimp only
            rw [here]
            split
            · exact ⟨fun _ => ⟨by simpa using unaborted, pending.held, by simpa using unadopted⟩, sound.taken, fun _ => rfl⟩
            · exact h.sound j
          · have registered := erase_get known
            have differs : j ≠ i := by
              rintro rfl
              exact h.unregistered got known
            dsimp only
            rw [here, if_neg differs]
            exact h.pending registered
          · have known := trimmed_get known
            dsimp only
            rw [OrderedMap.get_set] at known
            split at known
            · next same =>
              cases known
              rw [here, if_pos rfl]
              exact ⟨less, same.symm, rfl, unhanded⟩
            · have old := erase_get known
              rw [here, if_neg (h.uncached pending.unstored old)]
              exact h.waiting old
        · exact settled
      · exact settled

theorem step_inv (h : Inv s) (action : Action Time) : Inv (step s action) := by
  cases action with
  | prefetch boundary destination owner now throws => exact h.prefetch boundary destination owner now throws
  | cancel boundary destination owner => exact h.cancel boundary destination owner
  | adopt key now => exact h.adopt key now
  | discard except => exact h.discard except
  | invalidate => exact h.invalidate
  | detach => exact h.detach
  | abort i => exact h.abort i
  | complete i outcome now => exact h.complete i outcome now

theorem run_inv (actions : List (Action Time)) : Inv (run actions) := by
  have from_ (l : List (Action Time)) {s : Store Time} (h : Inv s) : Inv (l.foldl step s) := by
    induction l generalizing s with
    | nil => exact h
    | cons action l ih => exact ih (step_inv h action)
  exact from_ actions .initial

end

/-! ## What the operations do to a load -/

/-- The operations that abort a load that runs, by what the store has noted of it. -/
def Ends (s : Store Time) (i : Nat) : Action Time → Prop
  | .cancel boundary destination owner => ∃ key, keyFor boundary destination = some key ∧
      s.prefetched.get key = some i ∧ (s.loads.get i).adopted = false ∧ (s.loads.get i).owners = [owner]
  | .discard except => ∃ key, s.prefetched.get key = some i ∧ some key ≠ except
  | .invalidate => ∃ key, s.prefetched.get key = some i
  | .abort j => j = i ∧ ((s.loads.get i).adopted = true ∨ (s.loads.get i).discarded = true)
  | _ => False

theorem discardEntries_aborted (except : Option JsString) (l : List (JsString × Nat)) (s : Store Time) (i : Nat) :
    ((l.foldl (Store.discardEntry except) s).loads.get i).aborted = true ↔
      (s.loads.get i).aborted = true ∨ ∃ key, (key, i) ∈ l ∧ some key ≠ except := by
  induction l generalizing s with
  | nil => simp
  | cons entry l ih =>
    obtain ⟨key, j⟩ := entry
    rw [List.foldl_cons, ih, Store.discardEntry]
    split
    · next same =>
      refine or_congr_right (exists_congr fun key' => and_congr_left fun differs => ?_)
      rw [List.mem_cons]
      refine ⟨.inr, fun mem => mem.resolve_left fun eq => ?_⟩
      exact differs ((Prod.mk.inj eq).1 ▸ same)
    · next differs =>
      rw [Store.drop]
      dsimp only
      rw [Heap.get_modify]
      split
      · next same =>
        exact ⟨fun _ => .inr ⟨key, same ▸ List.mem_cons_self, differs⟩, fun _ => .inl rfl⟩
      · next other =>
        refine or_congr_right (exists_congr fun key' => and_congr_left fun _ => ?_)
        rw [List.mem_cons]
        exact ⟨.inr, fun mem => mem.resolve_left fun eq => other (Prod.mk.inj eq).2⟩

theorem discard_aborted (s : Store Time) (except : Option JsString) (i : Nat) :
    ((s.discard except).loads.get i).aborted = true ↔
      (s.loads.get i).aborted = true ∨ ∃ key, s.prefetched.get key = some i ∧ some key ≠ except := by
  simp only [Store.discard, discardEntries_aborted, OrderedMap.mem_entries]

theorem modified_same {β : Type} (p : Load → β) {loads : Heap Load} {j : Nat} {f : Load → Load}
    (keeps : ∀ load, p (f load) = p load) (i : Nat) : p ((loads.modify j f).get i) = p (loads.get i) :=
  Heap.get_modify_proj loads j f p (keeps _) i

theorem discardEntries_same {β : Type} (p : Load → β)
    (drops : ∀ load : Load, p { load with aborted := true, discarded := true } = p load) (except : Option JsString)
    (l : List (JsString × Nat)) (s : Store Time) (i : Nat) :
    p ((l.foldl (Store.discardEntry except) s).loads.get i) = p (s.loads.get i) := by
  induction l generalizing s with
  | nil => rfl
  | cons entry l ih =>
    rw [List.foldl_cons, ih, Store.discardEntry]
    split
    · rfl
    · dsimp only [Store.drop]
      exact modified_same p drops i

theorem detached_same {β : Type} (p : Load → β) (keeps : ∀ load : Load, p { load with discarded := true } = p load)
    (l : List Nat) (loads : Heap Load) (i : Nat) :
    p ((l.foldl (fun loads i => loads.modify i fun load => { load with discarded := true }) loads).get i) =
      p (loads.get i) := by
  induction l generalizing loads with
  | nil => rfl
  | cons j l ih =>
    rw [List.foldl_cons, ih]
    exact modified_same p keeps i

/-- Registering changes nothing of a load that is there but its owners. -/
theorem register_same {β : Type} (p : Load → β) {load : Load} {owner : Nat} {throws : Bool}
    (keeps : ∀ (load : Load) (owners : List Nat), p { load with owners := owners } = p load) {i : Nat}
    (made : i < s.loads.size) : p ((s.register load owner throws).loads.get i) = p (s.loads.get i) := by
  rw [Store.register]
  split
  · dsimp only
    exact modified_same p (fun load => keeps load _) i
  · split
    · rfl
    · split
      · rfl
      · dsimp only
        rw [Heap.get_push_lt load made]

theorem cancel_same {β : Type} (p : Load → β) (keeps : ∀ (load : Load) (owners : List Nat), p { load with owners := owners } = p load)
    (drops : ∀ load : Load, p { load with aborted := true, discarded := true } = p load) (boundary : Boundary)
    (destination : Url) (owner : Nat) (i : Nat) :
    p ((s.cancel boundary destination owner).loads.get i) = p (s.loads.get i) := by
  rw [Store.cancel]
  split
  · rfl
  · split
    · rfl
    · split
      · rfl
      · dsimp only
        split
        · dsimp only [Store.drop]
          exact (modified_same p drops i).trans (modified_same p (fun load => keeps load _) i)
        · dsimp only
          exact modified_same p (fun load => keeps load _) i

theorem erase_eq_nil {owner : Nat} {owners : List Nat} (owned : owners ≠ []) :
    owners.erase owner = [] ↔ owners = [owner] := by
  rw [List.erase_eq_nil_iff]
  exact ⟨fun h => h.resolve_left owned, .inr⟩

theorem cancel_aborted (h : Inv s) {boundary : Boundary} {destination : Url} {owner i : Nat} (alive : (s.loads.get i).aborted = false) :
    ((s.cancel boundary destination owner).loads.get i).aborted = true ↔
      Ends s i (.cancel boundary destination owner) := by
  rw [Ends, Store.cancel]
  split
  · next unknown => simp [unknown, alive]
  · next key named =>
    simp only [named, Option.some.injEq, exists_eq_left']
    split
    · next unknown => simp [unknown, alive]
    · next j got =>
      simp only [got, Option.some.injEq]
      split
      · next adopted =>
        rw [alive]
        refine ⟨nofun, fun ⟨same, unadopted, _⟩ => ?_⟩
        rw [← same, adopted] at unadopted
        cases unadopted
      · next unadopted =>
        rw [Heap.get_modify_self]
        split
        · next last =>
          rw [Store.drop]
          dsimp only
          rw [Heap.get_modify]
          split
          · next same =>
            subst same
            exact ⟨fun _ => ⟨rfl, by simpa using unadopted, (erase_eq_nil (h.pending got).2.2.owned).mp last⟩, fun _ => rfl⟩
          · next other =>
            rw [Heap.get_modify_ne _ _ other, alive]
            exact ⟨nofun, fun ⟨same, _⟩ => absurd same.symm other⟩
        · next left =>
          have same := Heap.get_modify_proj s.loads j (fun load => { load with owners := load.owners.erase owner })
            (·.aborted) rfl i
          rw [same, alive]
          refine ⟨nofun, fun ⟨same, _, last⟩ => ?_⟩
          subst same
          exact absurd ((erase_eq_nil (h.pending got).2.2.owned).mpr last) left

variable [LT Time] [DecidableLT Time]

/-- Adopting and completing change nothing of a load but these fields. -/
theorem adopt_same {β : Type} (p : Load → β) (keeps : ∀ load : Load, p { load with adopted := true } = p load)
    (hands : ∀ load : Load, p { load with handed := load.handed + 1 } = p load) (key : Option JsString) (now : Time) (i : Nat) :
    p ((s.adopt key now).loads.get i) = p (s.loads.get i) := by
  unfold Store.adopt
  split
  · rfl
  · split
    · dsimp only
      exact modified_same p keeps i
    · split
      · rfl
      · dsimp only
        split
        · dsimp only
          exact modified_same p hands i
        · rfl

theorem complete_same {β : Type} (p : Load → β) (settles : ∀ load : Load, p { load with through := true } = p load)
    (stores : ∀ load : Load, p { load with stored := true } = p load) (j : Nat) (outcome : Outcome Time) (now : Time) (i : Nat) :
    p ((s.complete j outcome now).loads.get i) = p (s.loads.get i) := by
  have through : p ((s.loads.modify j fun load => { load with through := true }).get i) = p (s.loads.get i) :=
    modified_same p settles i
  rw [Store.complete]
  dsimp only
  split
  · rfl
  · split
    · exact through
    · split
      · split
        · dsimp only
          exact (modified_same p stores i).trans through
        · exact through
      · exact through

theorem prefetch_same {β : Type} (p : Load → β)
    (keeps : ∀ (load : Load) (owners : List Nat), p { load with owners := owners } = p load) {boundary : Boundary}
    {destination : Url} {owner : Nat} {now : Time} {throws : Bool} {i : Nat} (made : i < s.loads.size) :
    p ((s.prefetch boundary destination owner now throws).loads.get i) = p (s.loads.get i) := by
  rw [Store.prefetch]
  split
  · rfl
  · dsimp only
    split
    · exact register_same p keeps made
    · split
      · rfl
      · exact register_same p keeps made

theorem step_aborted (h : Inv s) {i : Nat} (made : i < s.loads.size) (alive : (s.loads.get i).aborted = false) (action : Action Time) :
    ((step s action).loads.get i).aborted = true ↔ Ends s i action := by
  have stays {s' : Store Time} (same : (s'.loads.get i).aborted = (s.loads.get i).aborted) :
      (s'.loads.get i).aborted = true ↔ False := by
    rw [same, alive]
    exact ⟨nofun, nofun⟩
  cases action with
  | prefetch boundary destination owner now throws =>
    exact stays (prefetch_same (·.aborted) (fun _ _ => rfl) made)
  | cancel boundary destination owner => exact cancel_aborted h alive
  | adopt key now => exact stays (adopt_same (·.aborted) (fun _ => rfl) (fun _ => rfl) key now i)
  | discard except =>
    refine (discard_aborted s except i).trans ?_
    rw [alive, Ends]
    simp
  | invalidate =>
    refine (discard_aborted _ none i).trans ?_
    rw [Ends]
    simp [alive]
  | detach => exact stays (detached_same (·.aborted) (fun _ => rfl) _ s.loads i)
  | abort j =>
    rw [step, Ends, Store.abort]
    split
    · next gone =>
      dsimp only
      rw [Heap.get_modify]
      split
      · next same => exact ⟨fun _ => ⟨same.symm, same ▸ gone⟩, fun _ => rfl⟩
      · next other =>
        rw [alive]
        exact ⟨nofun, fun ⟨same, _⟩ => absurd same.symm other⟩
    · next held =>
      rw [alive]
      exact ⟨nofun, fun ⟨same, gone⟩ => absurd (same ▸ gone) held⟩
  | complete j outcome now => exact stays (complete_same (·.aborted) (fun _ => rfl) (fun _ => rfl) j outcome now i)

/-- A result is handed out by `adopt` alone, in time. -/
theorem step_handed {i : Nat} (made : i < s.loads.size) {action : Action Time}
    (more : (s.loads.get i).handed < ((step s action).loads.get i).handed) :
    ∃ key now expiresAt, action = .adopt (some key) now ∧ s.cached.get key = some ⟨i, expiresAt⟩ ∧ now < expiresAt := by
  have stays {s' : Store Time} (same : (s'.loads.get i).handed = (s.loads.get i).handed)
      (more : (s.loads.get i).handed < (s'.loads.get i).handed) : False := by
    rw [same] at more
    exact Nat.lt_irrefl _ more
  cases action with
  | prefetch boundary destination owner now throws =>
    exact (stays (prefetch_same (·.handed) (fun _ _ => rfl) made) more).elim
  | cancel boundary destination owner =>
    exact (stays (cancel_same (·.handed) (fun _ _ => rfl) (fun _ => rfl) boundary destination owner i) more).elim
  | adopt key now =>
    change (s.loads.get i).handed < ((s.adopt key now).loads.get i).handed at more
    unfold Store.adopt at more
    split at more
    · exact absurd more (Nat.lt_irrefl _)
    · next key =>
      split at more
      · next j _ =>
        have same := Heap.get_modify_proj s.loads j (fun load => { load with adopted := true }) (·.handed) rfl i
        exact (stays same more).elim
      · split at more
        · exact absurd more (Nat.lt_irrefl _)
        · next completed got =>
          dsimp only at more
          split at more
          · next early =>
            by_cases same : completed.result = i
            · exact ⟨key, now, completed.expiresAt, rfl, by rw [got, ← same], early⟩
            · dsimp only at more
              rw [Heap.get_modify_ne _ _ (Ne.symm same)] at more
              exact absurd more (Nat.lt_irrefl _)
          · exact absurd more (Nat.lt_irrefl _)
  | discard except => exact (stays (discardEntries_same (·.handed) (fun _ => rfl) except _ s i) more).elim
  | invalidate => exact (stays (discardEntries_same (·.handed) (fun _ => rfl) none _ { s with cached := .empty } i) more).elim
  | detach => exact (stays (detached_same (·.handed) (fun _ => rfl) _ s.loads i) more).elim
  | abort j =>
    refine (stays ?_ more).elim
    rw [step, Store.abort]
    split
    · dsimp only
      exact modified_same (·.handed) (by intro load; rfl) i
    · rfl
  | complete j outcome now => exact (stays (complete_same (·.handed) (fun _ => rfl) (fun _ => rfl) j outcome now i) more).elim

end Fluo.React.Prefetch
