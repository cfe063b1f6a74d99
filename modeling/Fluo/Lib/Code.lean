import Mathlib.Data.List.Basic

/-!
# Codes that can be read back

A code writes values as lists of symbols. It is readable up to stop symbols
when the value and the rest of the text follow from the whole text, given that
the rest is empty or starts with a stop symbol. Codes are composed of parts:
a sequence of codewords, two codewords with a separator, a joined list.
-/

namespace Fluo.Code

variable {α β γ : Type} {stop stop' : β → Prop} {P : α → Prop} {Q : γ → Prop}
  {f : α → List β} {g : γ → List β} {sep : β}

/-- The text is empty or starts with a stop symbol. -/
def Stops (stop : β → Prop) : List β → Prop
  | [] => True
  | c :: _ => stop c

/-- Values with `P` can be read back from a text that goes on with a stop. -/
def Readable (stop : β → Prop) (P : α → Prop) (f : α → List β) : Prop :=
  ∀ a b r s, P a → P b → Stops stop r → Stops stop s → f a ++ r = f b ++ s → a = b ∧ r = s

theorem Stops.mono {r : List β} (h : Stops stop r) (le : ∀ c, stop c → stop' c) : Stops stop' r := by
  cases r with
  | nil => trivial
  | cons c r => exact le c h

theorem stops_any (r : List β) : Stops (fun _ => True) r := by
  cases r <;> trivial

theorem Readable.mono (h : Readable stop' P f) (le : ∀ c, stop c → stop' c) : Readable stop P f :=
  fun a b r s ha hb hr hs e => h a b r s ha hb (hr.mono le) (hs.mono le) e

theorem Readable.injective (h : Readable stop P f) {a b : α} (ha : P a) (hb : P b) (e : f a = f b) : a = b :=
  (h a b [] [] ha hb trivial trivial (by rw [e])).1

def Starts (stop : β → Prop) (P : α → Prop) (f : α → List β) : Prop :=
  ∀ a, P a → ∃ c rest, f a = c :: rest ∧ ¬ stop c

theorem Readable.flatMap (h : Readable (fun _ => True) P f) (starts : Starts stop P f) :
    Readable stop (fun l => ∀ a ∈ l, P a) (fun l : List α => l.flatMap f) := by
  intro l
  induction l with
  | nil =>
    intro l' r s _ hl' hr _ e
    cases l' with
    | nil => exact ⟨rfl, e⟩
    | cons b l' =>
      obtain ⟨c, rest, hc, nostop⟩ := starts b (hl' b List.mem_cons_self)
      dsimp only at e
      rw [List.flatMap_nil, List.nil_append, List.flatMap_cons, hc] at e
      rw [e] at hr
      exact absurd hr nostop
  | cons a l ih =>
    intro l' r s hl hl' hr hs e
    cases l' with
    | nil =>
      obtain ⟨c, rest, hc, nostop⟩ := starts a (hl a List.mem_cons_self)
      dsimp only at e
      rw [List.flatMap_nil, List.nil_append, List.flatMap_cons, hc] at e
      rw [← e] at hs
      exact absurd hs nostop
    | cons b l' =>
      dsimp only at e
      simp only [List.flatMap_cons, List.append_assoc] at e
      obtain ⟨rfl, tail⟩ := h a b _ _ (hl a List.mem_cons_self) (hl' b List.mem_cons_self) (stops_any _)
        (stops_any _) e
      obtain ⟨rfl, rest⟩ := ih l' r s (fun x hx => hl x (List.mem_cons_of_mem _ hx))
        (fun x hx => hl' x (List.mem_cons_of_mem _ hx)) hr hs tail
      exact ⟨rfl, rest⟩

theorem Readable.pair (hf : Readable (· = sep) P f) (hg : Readable stop Q g) :
    Readable stop (fun x : α × γ => P x.1 ∧ Q x.2) (fun x => f x.1 ++ sep :: g x.2) := by
  rintro ⟨a, c⟩ ⟨b, d⟩ r s ⟨ha, hc⟩ ⟨hb, hd⟩ hr hs e
  simp only [List.append_assoc, List.cons_append] at e
  obtain ⟨rfl, tail⟩ := hf a b _ _ ha hb (show Stops (· = sep) (sep :: (g c ++ r)) from rfl)
    (show Stops (· = sep) (sep :: (g d ++ s)) from rfl) e
  obtain ⟨rfl, rest⟩ := hg c d r s hc hd hr hs (List.cons.inj tail).2
  exact ⟨rfl, rest⟩

theorem readable_word : Readable (· = sep) (fun x : List β => sep ∉ x) (fun x => x) := by
  intro x y r s hx hy hr hs e
  induction x generalizing y with
  | nil =>
    cases y with
    | nil => exact ⟨rfl, e⟩
    | cons c y =>
      rw [show r = c :: (y ++ s) from e] at hr
      exact absurd (List.mem_cons.mpr (.inl hr.symm)) hy
  | cons c x ih =>
    cases y with
    | nil =>
      rw [← show c :: (x ++ r) = s from e] at hs
      exact absurd (List.mem_cons.mpr (.inl hs.symm)) hx
    | cons d y =>
      obtain ⟨rfl, tail⟩ := List.cons.inj e
      obtain ⟨rfl, rest⟩ := ih y (fun mem => hx (List.mem_cons_of_mem _ mem))
        (fun mem => hy (List.mem_cons_of_mem _ mem)) tail
      exact ⟨rfl, rest⟩

theorem append_sep_injective {a b x y : List β} (hx : sep ∉ x) (hy : sep ∉ y) (same : a ++ sep :: x = b ++ sep :: y) :
    x = y := by
  have reversed : x.reverse ++ sep :: a.reverse = y.reverse ++ sep :: b.reverse := by
    simpa using congrArg List.reverse same
  have ends (l : List β) : Stops (· = sep) (sep :: l) := rfl
  have read := readable_word x.reverse y.reverse (sep :: a.reverse) (sep :: b.reverse) (by simpa using hx)
    (by simpa using hy) (ends _) (ends _) reversed
  exact List.reverse_injective read.1

/-! ## Joined lists -/

/-- `Array.prototype.join` with a separator of one symbol. -/
def join (sep : β) : List (List β) → List β
  | [] => []
  | [x] => x
  | x :: y :: rest => x ++ sep :: join sep (y :: rest)

theorem join_cons_cons (x y : List β) (rest : List (List β)) :
    join sep (x :: y :: rest) = x ++ sep :: join sep (y :: rest) := rfl

theorem mem_join {c : β} {l : List (List β)} (h : c ∈ join sep l) : c = sep ∨ ∃ x ∈ l, c ∈ x := by
  induction l with
  | nil => cases h
  | cons x l ih =>
    cases l with
    | nil => exact .inr ⟨x, List.mem_cons_self, h⟩
    | cons y l =>
      rw [join_cons_cons, List.mem_append, List.mem_cons] at h
      rcases h with inFirst | rfl | inRest
      · exact .inr ⟨x, List.mem_cons_self, inFirst⟩
      · exact .inl rfl
      · exact (ih inRest).imp id fun ⟨z, hz, mem⟩ => ⟨z, List.mem_cons_of_mem _ hz, mem⟩

theorem Readable.join (h : Readable (fun c => c = sep ∨ stop c) P f) (starts : Starts stop P f)
    (separate : ¬ stop sep) : Readable stop (fun l => ∀ a ∈ l, P a) (fun l : List α => join sep (l.map f)) := by
  have first (a : α) (l : List α) (ha : P a) (r : List β) :
      ∃ c rest, Fluo.Code.join sep ((a :: l).map f) ++ r = c :: rest ∧ ¬ stop c := by
    obtain ⟨c, rest, hc, nostop⟩ := starts a ha
    cases l with
    | nil => exact ⟨c, rest ++ r, by simp [Fluo.Code.join, hc], nostop⟩
    | cons b l =>
      exact ⟨c, rest ++ sep :: (Fluo.Code.join sep ((b :: l).map f) ++ r), by simp [Fluo.Code.join, hc], nostop⟩
  intro l
  induction l with
  | nil =>
    intro l' r s _ hl' hr _ e
    cases l' with
    | nil => exact ⟨rfl, e⟩
    | cons b l' =>
      obtain ⟨c, rest, hc, nostop⟩ := first b l' (hl' b List.mem_cons_self) s
      dsimp only at e
      rw [hc, List.map_nil, Fluo.Code.join, List.nil_append] at e
      rw [e] at hr
      exact absurd hr nostop
  | cons a l ih =>
    intro l' r s hl hl' hr hs e
    cases l' with
    | nil =>
      obtain ⟨c, rest, hc, nostop⟩ := first a l (hl a List.mem_cons_self) r
      dsimp only at e
      rw [hc, List.map_nil, Fluo.Code.join, List.nil_append] at e
      rw [← e] at hs
      exact absurd hs nostop
    | cons b l' =>
      have ha := hl a List.mem_cons_self
      have hb := hl' b List.mem_cons_self
      have hr' : Stops (fun c => c = sep ∨ stop c) r := hr.mono fun _ => .inr
      have hs' : Stops (fun c => c = sep ∨ stop c) s := hs.mono fun _ => .inr
      have separated (x : List β) : Stops (fun c => c = sep ∨ stop c) (sep :: x) := .inl rfl
      cases l with
      | nil =>
        cases l' with
        | nil =>
          exact h a b r s ha hb hr' hs' e |>.imp (congrArg (fun x => [x])) id
        | cons b' l' =>
          simp only [List.map_cons, List.map_nil, join_cons_cons, Fluo.Code.join, List.append_assoc,
            List.cons_append] at e
          obtain ⟨-, e⟩ := h a b _ _ ha hb hr' (separated _) e
          rw [e] at hr
          exact absurd hr separate
      | cons a' l =>
        cases l' with
        | nil =>
          simp only [List.map_cons, List.map_nil, join_cons_cons, Fluo.Code.join, List.append_assoc,
            List.cons_append] at e
          obtain ⟨-, e⟩ := h a b _ _ ha hb (separated _) hs' e
          rw [← e] at hs
          exact absurd hs separate
        | cons b' l' =>
          simp only [List.map_cons, join_cons_cons, List.append_assoc, List.cons_append] at e
          obtain ⟨rfl, tail⟩ := h a b _ _ ha hb (separated _) (separated _) e
          obtain ⟨rest, goesOn⟩ := ih (b' :: l') r s (fun x hx => hl x (List.mem_cons_of_mem _ hx))
            (fun x hx => hl' x (List.mem_cons_of_mem _ hx)) hr hs (List.cons.inj tail).2
          exact ⟨by rw [rest], goesOn⟩

/-! ## Codes that may fail -/

theorem mapM_eq_some {e : α → Option γ} {l : List α} {m : List γ} : l.mapM e = some m ↔ l.map e = m.map some := by
  induction l generalizing m with
  | nil => cases m <;> simp
  | cons a l ih =>
    cases m with
    | nil => simp [Option.bind_eq_some_iff]
    | cons c m =>
      simp only [List.mapM_cons, Option.pure_def, Option.bind_eq_bind, Option.bind_eq_some_iff, Option.some.injEq,
        List.cons.injEq, List.map_cons, ← ih]
      constructor
      · rintro ⟨c', head, m', tail, rfl, rfl⟩
        exact ⟨head, tail⟩
      · rintro ⟨head, tail⟩
        exact ⟨c, head, m, tail, rfl, rfl⟩

/-- Lists with the same codewords are equal when single values are. -/
theorem map_some_injective {e : α → Option γ} (h : ∀ a b c, e a = some c → e b = some c → a = b) {l l' : List α}
    {m : List γ} (hl : l.map e = m.map some) (hl' : l'.map e = m.map some) : l = l' := by
  induction m generalizing l l' with
  | nil => rw [List.map_eq_nil_iff.mp hl, List.map_eq_nil_iff.mp hl']
  | cons c m ih =>
    obtain ⟨a, l, rfl, head, tail⟩ := List.map_eq_cons_iff.mp hl
    obtain ⟨b, l', rfl, head', tail'⟩ := List.map_eq_cons_iff.mp hl'
    rw [h a b c head head', ih tail tail']

/-! ## Words of a joined text -/

variable [DecidableEq β]

def words (sep : β) (text : List β) : List (List β) := (text.splitOn sep).filter (· ≠ [])

@[simp] theorem words_nil : words sep ([] : List β) = [] := by simp [words]

theorem not_mem_of_mem_splitOn {text x : List β} (h : x ∈ text.splitOn sep) : sep ∉ x := by
  induction text generalizing x with
  | nil =>
    rw [List.splitOn_nil, List.mem_singleton] at h
    rw [h]
    exact List.not_mem_nil
  | cons c rest ih =>
    rw [List.splitOn_cons_eq_if_modifyHead] at h
    split at h
    · rcases List.mem_cons.mp h with rfl | mem
      · exact List.not_mem_nil
      · exact ih mem
    · next other =>
      cases pieces : rest.splitOn sep with
      | nil => exact absurd pieces (List.splitOn_ne_nil sep rest)
      | cons piece pieces' =>
        rw [pieces] at h ih
        rcases List.mem_cons.mp h with rfl | mem
        · rw [List.mem_cons, not_or]
          exact ⟨fun same => other (beq_iff_eq.mpr same.symm), ih List.mem_cons_self⟩
        · exact ih (List.mem_cons_of_mem _ mem)

theorem join_splitOn (text : List β) : join sep (text.splitOn sep) = text := by
  induction text with
  | nil => rw [List.splitOn_nil, join]
  | cons c rest ih =>
    rw [List.splitOn_cons_eq_if_modifyHead]
    cases pieces : rest.splitOn sep with
    | nil => exact absurd pieces (List.splitOn_ne_nil sep rest)
    | cons piece pieces' =>
      rw [pieces] at ih
      split
      · next same => rw [join_cons_cons, ih, beq_iff_eq.mp same, List.nil_append]
      · cases pieces' with
        | nil =>
          rw [join] at ih
          rw [ih]
          rfl
        | cons piece' pieces' =>
          rw [← ih]
          rfl

theorem splitOn_join {l : List (List β)} (some : l ≠ []) (h : ∀ x ∈ l, sep ∉ x) : (join sep l).splitOn sep = l := by
  induction l with
  | nil => exact absurd rfl some
  | cons x l ih =>
    have first := List.splitOn_eq_singleton (h x List.mem_cons_self)
    cases l with
    | nil => exact first
    | cons y l =>
      rw [join_cons_cons, List.splitOn_append_cons_self, first,
        ih (List.cons_ne_nil _ _) fun z mem => h z (List.mem_cons_of_mem _ mem)]
      rfl

theorem words_mem {text x : List β} (h : x ∈ words sep text) : sep ∉ x ∧ x ≠ [] := by
  obtain ⟨mem, notEmpty⟩ := List.mem_filter.mp h
  exact ⟨not_mem_of_mem_splitOn mem, of_decide_eq_true notEmpty⟩

theorem words_append_cons (x y : List β) : words sep (x ++ sep :: y) = words sep x ++ words sep y := by
  simp [words, List.splitOn_append_cons_self, List.filter_append]

theorem words_join (l : List (List β)) : words sep (join sep l) = l.flatMap (words sep) := by
  induction l with
  | nil => simp [join]
  | cons x l ih =>
    cases l with
    | nil => simp [join]
    | cons y l =>
      rw [join_cons_cons, words_append_cons, ih]
      rfl

theorem words_word {x : List β} (h : sep ∉ x) (notEmpty : x ≠ []) : words sep x = [x] := by
  simp [words, List.splitOn_eq_singleton h, notEmpty]

/-- A text without the separator inside its words is read back from their join. -/
theorem words_join_words {l : List (List β)} (h : ∀ x ∈ l, sep ∉ x ∧ x ≠ []) : words sep (join sep l) = l := by
  rw [words_join]
  induction l with
  | nil => rfl
  | cons x l ih =>
    have hx := h x List.mem_cons_self
    rw [List.flatMap_cons, words_word hx.1 hx.2, ih fun y hy => h y (List.mem_cons_of_mem _ hy)]
    rfl

end Fluo.Code
