import Mathlib.Data.List.Induction
import Fluo.Lib.Search

/-!
# Lists that put successors first

A depth-first search that lists a node once it is done with the successors
leaves a list in which every node comes after its successors. Such a list is a
certificate: it is closed under successors, and no node of it is on a cycle.
`depthFirst` is that search; it succeeds where there is no cycle.
-/

namespace Fluo.Search

variable {α : Type} {succ : α → List α} {l : List α} {a b : α}

/-- Every node is listed after all of its successors. -/
def SuccessorsFirst (succ : α → List α) (l : List α) : Prop :=
  ∀ l₁ a l₂, l = l₁ ++ a :: l₂ → ∀ b ∈ succ a, b ∈ l₁

theorem SuccessorsFirst.nil : SuccessorsFirst succ [] := by
  intro l₁ a l₂ h
  cases l₁ <;> cases h

theorem SuccessorsFirst.snoc (h : SuccessorsFirst succ l) (ha : ∀ b ∈ succ a, b ∈ l) :
    SuccessorsFirst succ (l ++ [a]) := by
  intro l₁ c l₂ e b hb
  rcases List.eq_nil_or_concat l₂ with rfl | ⟨l₃, z, rfl⟩
  · obtain ⟨rfl, h'⟩ := List.append_inj' e rfl
    obtain rfl : a = c := by simpa using h'
    exact ha b hb
  · have e' : l ++ [a] = (l₁ ++ c :: l₃) ++ [z] := by simpa using e
    exact h l₁ c l₃ (List.append_inj' e' rfl).1 b hb

theorem SuccessorsFirst.closed (h : SuccessorsFirst succ l) (ha : a ∈ l) (hb : b ∈ succ a) : b ∈ l := by
  obtain ⟨l₁, l₂, rfl⟩ := List.append_of_mem ha
  exact List.mem_append_left _ (h l₁ a l₂ rfl b hb)

theorem SuccessorsFirst.reach_mem (h : SuccessorsFirst succ l) (ha : a ∈ l) (hr : Reach succ a b) :
    b ∈ l := by
  induction hr with
  | refl => exact ha
  | tail _ hb ih => exact h.closed ih hb

theorem SuccessorsFirst.of_append {l₁ l₂ : List α} (h : SuccessorsFirst succ (l₁ ++ l₂)) :
    SuccessorsFirst succ l₁ := by
  intro m₁ a m₂ e b hb
  exact h m₁ a (m₂ ++ l₂) (by simp [e]) b hb

/-- What holds of a node once it holds of its successors holds of every node. -/
theorem SuccessorsFirst.induct (h : SuccessorsFirst succ l) {P : α → Prop}
    (step : ∀ a ∈ l, (∀ b ∈ succ a, P b) → P a) : ∀ a ∈ l, P a := by
  induction l using List.reverseRecOn with
  | nil => intro a ha; cases ha
  | append_singleton l x ih =>
    have init := ih h.of_append fun a ha => step a (List.mem_append_left _ ha)
    intro a ha
    rcases List.mem_append.mp ha with ha | ha
    · exact init a ha
    · obtain rfl : a = x := by simpa using ha
      exact step a (by simp) fun b hb => init b (h l a [] rfl b hb)

theorem SuccessorsFirst.idxOf_lt [DecidableEq α] (h : SuccessorsFirst succ l) (hn : l.Nodup)
    (ha : a ∈ l) (hb : b ∈ succ a) : l.idxOf b < l.idxOf a := by
  obtain ⟨l₁, l₂, rfl⟩ := List.append_of_mem ha
  have hb₁ : b ∈ l₁ := h l₁ a l₂ rfl b hb
  have ha₁ : a ∉ l₁ := fun ha₁ => (List.nodup_append.mp hn).2.2 a ha₁ a List.mem_cons_self rfl
  rw [List.idxOf_append_of_mem hb₁, List.idxOf_append_of_notMem ha₁]
  have := List.idxOf_lt_length_of_mem hb₁
  omega

theorem SuccessorsFirst.pairwise (h : SuccessorsFirst succ l) (hn : l.Nodup) : l.Pairwise fun b a => a ∉ succ b := by
  induction l using List.reverseRecOn with
  | nil => exact .nil
  | append_singleton l x ih =>
    obtain ⟨before, -, apart⟩ := List.nodup_append.mp hn
    refine List.pairwise_append.mpr ⟨ih h.of_append before, List.pairwise_singleton _ x, fun b hb a ha hs => ?_⟩
    obtain rfl : a = x := by simpa using ha
    exact apart a (h.of_append.closed hb hs) a ha rfl

theorem SuccessorsFirst.acyclicFrom [DecidableEq α] (h : SuccessorsFirst succ l) (hn : l.Nodup)
    (ha : a ∈ l) : AcyclicFrom succ a := by
  intro b hb hcycle
  have earlier : ∀ c, Relation.TransGen (fun x y => y ∈ succ x) b c →
      c ∈ l ∧ l.idxOf c < l.idxOf b := by
    intro c hc
    induction hc with
    | single hc =>
      have hbl := h.reach_mem ha hb
      exact ⟨h.closed hbl hc, h.idxOf_lt hn hbl hc⟩
    | tail _ hc ih => exact ⟨h.closed ih.1 hc, Nat.lt_trans (h.idxOf_lt hn ih.1 hc) ih.2⟩
  exact Nat.lt_irrefl _ (earlier b hcycle).2

/-! ## The search -/

section DepthFirst

variable [DecidableEq α] {n : Nat} {path done done' : List α}

/-- Lists `a` behind what it leads to; nothing when it meets its own path. The
first argument bounds the depth. -/
def depthFirst (succ : α → List α) : Nat → List α → List α → α → Option (List α)
  | 0, _, _, _ => none
  | n + 1, path, done, a =>
    if a ∈ done then some done
    else if a ∈ path then none
    else ((succ a).foldlM (depthFirst succ n (a :: path)) done).map (· ++ [a])

/-- A list under way, `extended` by nodes that one of the `starts` leads to and
that are not on the path. -/
structure Extended (succ : α → List α) (path starts done done' : List α) : Prop where
  first : SuccessorsFirst succ done'
  nodup : done'.Nodup
  kept : ∀ x ∈ done, x ∈ done'
  fresh : ∀ x ∈ done', x ∈ done ∨ x ∉ path ∧ ∃ a ∈ starts, Reach succ a x
  listed : ∀ a ∈ starts, a ∈ done'

theorem depthFirst_foldlM
    (each : ∀ a done done', SuccessorsFirst succ done → done.Nodup → depthFirst succ n path done a = some done' →
      Extended succ path [a] done done')
    (l : List α) (first : SuccessorsFirst succ done) (nodup : done.Nodup)
    (h : l.foldlM (depthFirst succ n path) done = some done') : Extended succ path l done done' := by
  induction l generalizing done with
  | nil =>
    cases h
    exact ⟨first, nodup, fun x hx => hx, fun x hx => Or.inl hx, by simp⟩
  | cons a rest ih =>
    obtain ⟨mid, ha, h⟩ := Option.bind_eq_some_iff.mp h
    have one := each a done mid first nodup ha
    have others := ih one.first one.nodup h
    refine ⟨others.first, others.nodup, fun x hx => others.kept x (one.kept x hx), ?_, ?_⟩
    · intro x hx
      rcases others.fresh x hx with hx | ⟨off, b, hb, reach⟩
      · rcases one.fresh x hx with hx | ⟨off, b, hb, reach⟩
        · exact Or.inl hx
        · obtain rfl : b = a := by simpa using hb
          exact Or.inr ⟨off, b, List.mem_cons_self, reach⟩
      · exact Or.inr ⟨off, b, List.mem_cons_of_mem a hb, reach⟩
    · intro b hb
      rcases List.mem_cons.mp hb with rfl | hb
      · exact others.kept b (one.listed b List.mem_cons_self)
      · exact others.listed b hb

theorem depthFirst_sound (n : Nat) {path : List α} (a : α) (done done' : List α) (first : SuccessorsFirst succ done)
    (nodup : done.Nodup) (h : depthFirst succ n path done a = some done') : Extended succ path [a] done done' := by
  induction n generalizing path a done done' with
  | zero => cases h
  | succ n ih =>
    unfold depthFirst at h
    split at h
    · next listed =>
      cases h
      exact ⟨first, nodup, fun x hx => hx, fun x hx => Or.inl hx, by simpa using listed⟩
    split at h
    · cases h
    next unlisted off =>
    obtain ⟨mid, found, rfl⟩ := Option.map_eq_some_iff.mp h
    have below := depthFirst_foldlM ih (succ a) first nodup found
    have absent : a ∉ mid := by
      intro ha
      rcases below.fresh a ha with ha | ⟨ha, -⟩
      · exact unlisted ha
      · exact ha List.mem_cons_self
    refine ⟨below.first.snoc below.listed, ?_, ?_, ?_, by simp⟩
    · exact List.nodup_append.mpr ⟨below.nodup, List.nodup_singleton a, by
        rintro x hx y hy rfl
        obtain rfl : x = a := by simpa using hy
        exact absent hx⟩
    · exact fun x hx => List.mem_append_left _ (below.kept x hx)
    · intro x hx
      rcases List.mem_append.mp hx with hx | hx
      · rcases below.fresh x hx with hx | ⟨clear, b, hb, reach⟩
        · exact Or.inl hx
        · exact Or.inr ⟨fun hp => clear (List.mem_cons_of_mem a hp), a, List.mem_cons_self, .head hb reach⟩
      · obtain rfl : x = a := by simpa using hx
        exact Or.inr ⟨off, x, List.mem_cons_self, .refl⟩

end DepthFirst

end Fluo.Search
